/-
**The home directory in a path.**

A path that begins with the home directory is kept with the text `$HOME` instead, and one that
begins with this text is given back with the home directory.

* `replaceFirstRef`: the first occurrence of a text in another one.
* `pathUseHomeVariable`, `pathResolveHomeVariable`: the two directions.
* `resolve_use` — **a path at home is given back**.
-/

import Gebr.Geoxml.DictSplit

namespace Gebr.Geoxml

open Gebr.Lib.CString

section Model

/-- `gebr_g_string_replace_first_ref`. -/
def replaceFirstRef (string oldtext newtext : Text) : Text :=
  match strstr oldtext string with
  | none => string
  | some index => string.take index ++ newtext ++ string.drop (index + oldtext.length)

/-- `gebr_path_use_home_variable`, with what `g_get_home_dir` gives. -/
def pathUseHomeVariable (home path : Text) : Text :=
  if home.isPrefixOf path then replaceFirstRef path home (ascii "$HOME") else path

/-- `gebr_path_resolve_home_variable`. -/
def pathResolveHomeVariable (home path : Text) : Text :=
  if (ascii "$HOME").isPrefixOf path then replaceFirstRef path (ascii "$HOME") home else path

end Model

section Home

variable {home path : Text}

/-- A text that begins with another one begins with its first occurrence. -/
theorem replaceFirstRef_prefix (oldtext newtext rest : Text) :
    replaceFirstRef (oldtext ++ rest) oldtext newtext = newtext ++ rest := by
  have first : strstr oldtext (oldtext ++ rest) = some 0 := by
    cases whole : oldtext ++ rest with
    | nil => simp [(List.append_eq_nil_iff.1 whole).1, strstr]
    | cons b text =>
      have begins : oldtext.isPrefixOf (b :: text) = true := by
        rw [List.isPrefixOf_iff_prefix, ← whole]
        exact List.prefix_append oldtext rest
      rw [strstr, if_pos begins]
  unfold replaceFirstRef
  rw [first]
  simp

theorem pathUseHomeVariable_at (rest : Text) :
    pathUseHomeVariable home (home ++ rest) = ascii "$HOME" ++ rest := by
  unfold pathUseHomeVariable
  rw [if_pos (List.isPrefixOf_iff_prefix.2 (List.prefix_append home rest)), replaceFirstRef_prefix]

theorem pathResolveHomeVariable_at (rest : Text) :
    pathResolveHomeVariable home (ascii "$HOME" ++ rest) = home ++ rest := by
  unfold pathResolveHomeVariable
  rw [if_pos (List.isPrefixOf_iff_prefix.2 (List.prefix_append _ rest)), replaceFirstRef_prefix]

/-- **A path at home is given back.** -/
theorem resolve_use (here : home <+: path) :
    pathResolveHomeVariable home (pathUseHomeVariable home path) = path := by
  obtain ⟨rest, rfl⟩ := here
  rw [pathUseHomeVariable_at, pathResolveHomeVariable_at]

end Home

end Gebr.Geoxml
