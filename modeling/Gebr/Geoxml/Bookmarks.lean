/-
**Bookmarks for the paths of a line.**

A dialog adds one bookmark for each path to the bookmarks file in front of the others, and removes
them when it is closed. What is removed is known only by how the line ends: by the path and the
name, not by what is in front of them.

* `gebrGtkBookmarksAddPaths`, `gebrGtkBookmarksRemovePaths`: the two, on a file.
* `AddedLine`, `Marked`: a line that is added; a line that ends as a bookmark of a path does.
* `addedText_returns`, `names_removed`: what is added, and what is left.
* `Undone`: what was added is removed, and nothing else is.
* `undone_iff` — **when that is so**.
* `foreign_line`: a line of another bookmark.
-/

import Gebr.Geoxml.RelativisePath
import Gebr.Lib.Percent

namespace Gebr.Geoxml.PathAliases

open Gebr.Lib.CString (ascii strstr gStrsplit)
open Gebr.Lib.Components Gebr.Lib.PartialSteps Gebr.Lib.Percent

section Model

/-- The errors of `g_file_get_contents`, as far as they are told apart. -/
inductive FileError
  | noent
  | other
  deriving DecidableEq

/-- `uri_prefix && strstr(uri_prefix, "sftp")`. -/
def isSftp (uriPrefix : Option Text) : Bool := (uriPrefix.bind (strstr (ascii "sftp"))).isSome

/-- The path as it is written. `resolved + 1` of the empty text is past its end. -/
def escapedPath (uriPrefix : Option Text) (resolved : Text) : Option Text :=
  if isSftp uriPrefix then
    match resolved with
    | [] => none
    | _ :: rest => some (gUriEscapeStringKeeping (ascii "/") rest)
  else some (gUriEscapeStringKeeping (ascii "/") resolved)

/-- A line that is added, without what ends it. -/
def bookmark (uriPrefix : Option Text) (escaped name : Text) : Text :=
  uriPrefix.getD [] ++ escaped ++ ascii " " ++ name ++ ascii " (GeBR)"

/-- The text that the loop over the paths makes. -/
def addedText (pvector : List Alias) (uriPrefix : Option Text) (fuel : ℕ) : List Alias → Option Text
  | [] => some []
  | a :: paths =>
    if a.target = [] then addedText pvector uriPrefix fuel paths
    else (gebrResolveRelativePath pvector fuel a.target).bind fun resolved =>
      (escapedPath uriPrefix resolved).bind fun escaped =>
        (addedText pvector uriPrefix fuel paths).map fun buf => bookmark uriPrefix escaped a.name ++
          10 :: buf

/-- `gebr_gtk_bookmarks_add_paths`. -/
def gebrGtkBookmarksAddPaths (paths : List Alias) (uriPrefix : Option Text) (fuel : ℕ)
    (file : Except FileError Text) : Option (Except FileError Text) :=
  match file with
  | .error .other => some file
  | .error .noent => (addedText paths uriPrefix fuel paths).map .ok
  | .ok contents => (addedText paths uriPrefix fuel paths).map fun buf => .ok (buf ++ contents)

/-- How the bookmark of a path ends. -/
def bookmarkSuffix (resolved name : Text) : Text :=
  gUriEscapeStringKeeping (ascii "/") resolved ++ ascii " " ++ name ++ ascii " (GeBR)"

/-- `has_path`, after the loop over the paths. -/
def hasPath (pvector : List Alias) (fuel : ℕ) (line : Text) : List Alias → Option Bool
  | [] => some false
  | a :: paths => (gebrResolveRelativePath pvector fuel a.target).bind fun resolved =>
    if bookmarkSuffix resolved a.name <:+ line then some true else hasPath pvector fuel line paths

/-- `real_bookmarks`, after the loop over the lines. -/
def realBookmarks (pvector : List Alias) (fuel : ℕ) : List Text → Option Text
  | [] => some []
  | line :: lines => (hasPath pvector fuel line pvector).bind fun has =>
    (realBookmarks pvector fuel lines).map fun rest =>
      if has = false ∧ line ≠ [] then line ++ 10 :: rest else rest

/-- `gebr_gtk_bookmarks_remove_paths`. -/
def gebrGtkBookmarksRemovePaths (paths : List Alias) (fuel : ℕ) (file : Except FileError Text) :
    Option (Except FileError Text) :=
  match file with
  | .error _ => some file
  | .ok content => (realBookmarks paths fuel (gStrsplit 10 0 content)).map .ok

end Model

section Abstract

/-- The lines of a file that are not empty. -/
def bookmarks : Except FileError Text → List Text
  | .ok contents => names 10 contents
  | .error _ => []

/-- A line that is added for one of the paths. -/
def AddedLine (pvector : List Alias) (uriPrefix : Option Text) (line : Text) : Prop :=
  ∃ a ∈ pvector, a.target ≠ [] ∧ ∃ resolved, Returns (resolveStep pvector) a.target resolved ∧
    ∃ escaped, escapedPath uriPrefix resolved = some escaped ∧
      line ∈ names 10 (bookmark uriPrefix escaped a.name)

/-- A line that ends as the bookmark of one of the paths does. -/
def Marked (pvector : List Alias) (line : Text) : Prop :=
  ∃ a ∈ pvector, ∃ resolved, Returns (resolveStep pvector) a.target resolved ∧
    bookmarkSuffix resolved a.name <:+ line

end Abstract

variable {pvector paths : List Alias} {uriPrefix : Option Text} {fuel : ℕ} {line text : Text}
  {file : Except FileError Text}

section Adding

theorem escapedPath_isSome (resolved : Text) :
    (∃ escaped, escapedPath uriPrefix resolved = some escaped) ↔
    (isSftp uriPrefix → resolved ≠ []) := by
  unfold escapedPath
  split
  · rename_i sftp
    cases resolved with
    | nil =>
      exact iff_of_false (fun ⟨_, never⟩ => absurd never nofun) fun some_byte => some_byte sftp rfl
    | cons b rest => exact iff_of_true ⟨_, rfl⟩ fun _ => List.cons_ne_nil b rest
  · rename_i other
    exact iff_of_true ⟨_, rfl⟩ fun sftp => absurd sftp other

/-- The text is made iff each path is resolved and written. -/
theorem addedText_isSome_iff : (∃ text, addedText pvector uriPrefix fuel paths = some text) ↔
    ∀ a ∈ paths, a.target ≠ [] → ∃ resolved, gebrResolveRelativePath pvector fuel a.target =
      some resolved ∧ (isSftp uriPrefix → resolved ≠ []) := by
  induction paths with
  | nil => exact iff_of_true ⟨[], rfl⟩ fun a member => absurd member List.not_mem_nil
  | cons a paths ih =>
    unfold addedText
    rw [List.forall_mem_cons, ← ih]
    by_cases empty : a.target = []
    · rw [if_pos empty]
      exact ⟨fun made => ⟨fun some_byte => absurd empty some_byte, made⟩, And.right⟩
    · rw [if_neg empty]
      simp only [Option.bind_eq_some_iff, Option.map_eq_some_iff, ← escapedPath_isSome]
      constructor
      · rintro ⟨text, resolved, first, escaped, second, rest, third, -⟩
        exact ⟨fun _ => ⟨resolved, first, escaped, second⟩, rest, third⟩
      · rintro ⟨here, rest, third⟩
        obtain ⟨resolved, first, escaped, second⟩ := here empty
        exact ⟨_, resolved, first, escaped, second, rest, third, rfl⟩

/-- **The lines of the text.** -/
theorem names_addedText (line : Text) (made : addedText pvector uriPrefix fuel paths = some text)
    (rest : Text) : names 10 (text ++ rest) = names 10 text ++ names 10 rest ∧
      (line ∈ names 10 text ↔ ∃ a ∈ paths, a.target ≠ [] ∧ ∃ resolved,
        gebrResolveRelativePath pvector fuel a.target = some resolved ∧ ∃ escaped,
        escapedPath uriPrefix resolved = some escaped ∧ line ∈ names 10
        (bookmark uriPrefix escaped a.name)) := by
  induction paths generalizing text with
  | nil =>
    obtain rfl := Option.some.inj made
    exact ⟨rfl, iff_of_false List.not_mem_nil fun ⟨_, member, _⟩ => absurd member List.not_mem_nil⟩
  | cons a paths ih =>
    unfold addedText at made
    rw [List.exists_mem_cons_iff]
    by_cases empty : a.target = []
    · rw [if_pos empty] at made
      obtain ⟨split, lines⟩ := ih made
      exact ⟨split, lines.trans ⟨.inr, fun either => either.resolve_left fun here => here.1 empty⟩⟩
    · rw [if_neg empty] at made
      obtain ⟨resolved, first, made⟩ := Option.bind_eq_some_iff.1 made
      obtain ⟨escaped, second, made⟩ := Option.bind_eq_some_iff.1 made
      obtain ⟨buf, third, rfl⟩ := Option.map_eq_some_iff.1 made
      obtain ⟨split, lines⟩ := ih third
      rw [List.append_assoc, List.cons_append, names_append_cons, names_append_cons, split,
        List.append_assoc]
      refine ⟨rfl, List.mem_append.trans (or_congr ⟨fun member => ?_, ?_⟩ lines)⟩
      · exact ⟨empty, resolved, first, escaped, second, member⟩
      · rintro ⟨-, other, again, written, same, member⟩
        obtain rfl := Option.some.inj (first.symm.trans again)
        obtain rfl := Option.some.inj (second.symm.trans same)
        exact member

/-- The lines of the text are those that are added. -/
theorem mem_addedText (made : addedText pvector uriPrefix fuel pvector = some text) :
    line ∈ names 10 text ↔ AddedLine pvector uriPrefix line := by
  rw [(names_addedText line made []).2]
  refine exists_congr fun a => and_congr_right fun member => and_congr_right fun some_byte => ?_
  constructor
  · rintro ⟨resolved, first, written⟩
    exact ⟨resolved, ⟨fuel, first⟩, written⟩
  · rintro ⟨resolved, first, written⟩
    obtain ⟨other, again, -⟩ := addedText_isSome_iff.1 ⟨text, made⟩ a member some_byte
    obtain rfl := Returns.unique ⟨fuel, again⟩ first
    exact ⟨other, again, written⟩

end Adding

section Removing

/-- Every path is resolved. -/
def AllResolve (pvector : List Alias) (fuel : ℕ) : Prop :=
  ∀ a ∈ pvector, ∃ resolved, gebrResolveRelativePath pvector fuel a.target = some resolved

theorem hasPath_eq (line : Text)
    (resolves : ∀ a ∈ paths, ∃ resolved, gebrResolveRelativePath pvector fuel a.target =
      some resolved) : ∃ has, hasPath pvector fuel line paths = some has ∧
      (has = true ↔ ∃ a ∈ paths, ∃ resolved, gebrResolveRelativePath pvector fuel a.target =
      some resolved ∧ bookmarkSuffix resolved a.name <:+ line) := by
  induction paths with
  | nil => exact ⟨false, rfl, iff_of_false nofun fun ⟨_, member, _⟩ => absurd member List.not_mem_nil⟩
  | cons a paths ih =>
    obtain ⟨⟨resolved, first⟩, later⟩ := List.forall_mem_cons.1 resolves
    rw [List.exists_mem_cons_iff]
    unfold hasPath
    rw [first, Option.bind_some]
    split
    · rename_i ends
      exact ⟨true, rfl, iff_of_true rfl (.inl ⟨resolved, rfl, ends⟩)⟩
    · rename_i other
      obtain ⟨has, rest, iff⟩ := ih later
      refine ⟨has, rest, iff.trans ⟨.inr, fun either => either.resolve_left ?_⟩⟩
      rintro ⟨_, same, ends⟩
      obtain rfl := Option.some.inj same
      exact other ends

/-- **A line is removed iff it ends as a bookmark of a path does.** -/
theorem hasPath_iff (resolves : AllResolve pvector fuel) (line : Text) :
    ∃ has, hasPath pvector fuel line pvector = some has ∧ (has = true ↔ Marked pvector line) := by
  obtain ⟨has, found, iff⟩ := hasPath_eq line resolves
  refine ⟨has, found, iff.trans (exists_congr fun a => and_congr_right fun member => ?_)⟩
  constructor
  · rintro ⟨resolved, first, ends⟩
    exact ⟨resolved, ⟨fuel, first⟩, ends⟩
  · rintro ⟨resolved, first, ends⟩
    obtain ⟨other, again⟩ := resolves a member
    obtain rfl := Returns.unique ⟨fuel, again⟩ first
    exact ⟨other, again, ends⟩

open Classical in
/-- **The lines that are left.** -/
theorem names_removed (resolves : AllResolve pvector fuel) (content : Text) :
    ∃ result, gebrGtkBookmarksRemovePaths pvector fuel (.ok content) = some (.ok result) ∧
      names 10 result = (names 10 content).filter fun line => ¬ Marked pvector line := by
  have loop : ∀ lines, realBookmarks pvector fuel lines =
      some (((lines.filter (· ≠ [])).filter fun line => ¬ Marked pvector line).flatMap
          (· ++ [10])) := by
    intro lines
    induction lines with
    | nil => rfl
    | cons line lines ih =>
      obtain ⟨has, found, iff⟩ := hasPath_iff resolves line
      unfold realBookmarks
      rw [found, ih, Option.bind_some, Option.map_some]
      by_cases empty : line = []
      · rw [if_neg fun both => both.2 empty, List.filter_cons_of_neg (by simpa using empty)]
      rw [List.filter_cons_of_pos (by simpa using empty)]
      by_cases marked : Marked pvector line
      · rw [if_neg fun both => Bool.false_ne_true (both.1.symm.trans (iff.2 marked)),
          List.filter_cons_of_neg (by simpa using marked)]
      · have kept : has = false := Bool.eq_false_iff.2 fun yes => marked (iff.1 yes)
        rw [if_pos ⟨kept, empty⟩, List.filter_cons_of_pos (by simpa using marked),
          List.flatMap_cons, List.append_assoc, List.singleton_append]
  refine ⟨((names 10 content).filter fun line => ¬ Marked pvector line).flatMap (· ++ [10]), ?_, ?_⟩
  · unfold gebrGtkBookmarksRemovePaths
    dsimp only
    rw [loop, filter_gStrsplit, Option.map_some]
  · exact names_flatMap fun line member => mem_names (List.mem_filter.1 member).1

end Removing

section Undoing

/-- With enough calls of the resolver both functions return; the lines are those of before, if none
of them was one that is added; and no other line than one that is added is removed. -/
def Undone (pvector : List Alias) (uriPrefix : Option Text) (file : Except FileError Text) : Prop :=
  ∃ enough, ∀ fuel ≥ enough, ∃ after result, gebrGtkBookmarksAddPaths pvector uriPrefix fuel file =
    some after ∧ gebrGtkBookmarksRemovePaths pvector fuel after = some result ∧
    ((∀ line ∈ bookmarks file, ¬ AddedLine pvector uriPrefix line) → bookmarks result =
      bookmarks file) ∧
    ∀ line ∈ bookmarks after, line ∉ bookmarks result → AddedLine pvector uriPrefix line

/-- The paths are resolved, and with a prefix for `sftp` not to the empty text. -/
def WrittenPaths (pvector : List Alias) (uriPrefix : Option Text) : Prop :=
  ∀ a ∈ pvector, a.target ≠ [] →
  ∃ resolved, Returns (resolveStep pvector) a.target resolved ∧ (isSftp uriPrefix → resolved ≠ [])

/-- A line of the file that ends as a bookmark of a path does is one that is added. -/
def NoForeign (pvector : List Alias) (uriPrefix : Option Text) (file : Except FileError Text) : Prop :=
  ∀ line ∈ bookmarks file, Marked pvector line → AddedLine pvector uriPrefix line

/-- A line that is added ends as a bookmark of a path does. -/
def AddedMarked (pvector : List Alias) (uriPrefix : Option Text) : Prop :=
  ∀ line, AddedLine pvector uriPrefix line → Marked pvector line

/-- Enough calls for all the paths. -/
theorem exists_enough (written : WrittenPaths pvector uriPrefix) (among : paths ⊆ pvector) :
    ∃ enough, ∀ fuel ≥ enough, ∀ a ∈ paths, ∃ resolved, gebrResolveRelativePath pvector fuel
      a.target = some resolved ∧ (a.target ≠ [] → isSftp uriPrefix → resolved ≠ []) := by
  induction paths with
  | nil => exact ⟨0, fun fuel _ a member => absurd member List.not_mem_nil⟩
  | cons a paths ih =>
    obtain ⟨enough, later⟩ := ih (List.subset_of_cons_subset among)
    have here : ∃ resolved, Returns (resolveStep pvector) a.target resolved ∧
        (a.target ≠ [] → isSftp uriPrefix → resolved ≠ []) := by
      by_cases empty : a.target = []
      · refine ⟨[], ?_, fun some_byte => absurd empty some_byte⟩
        rw [empty]
        exact returns_stop (resolveStep_nil pvector)
      · obtain ⟨resolved, first, some_byte⟩ := written a (among List.mem_cons_self) empty
        exact ⟨resolved, first, fun _ => some_byte⟩
    obtain ⟨resolved, ⟨n, first⟩, some_byte⟩ := here
    refine ⟨max n enough, fun fuel le b member => ?_⟩
    rcases List.mem_cons.1 member with rfl | member
    · exact ⟨resolved, runFor_mono ((le_max_left n enough).trans le) first, some_byte⟩
    · exact later fuel ((le_max_right n enough).trans le) b member

open Classical in
/-- What is left of the lines that were added and of the lines of the file. -/
theorem removed_after (written : WrittenPaths pvector uriPrefix) (readable : file ≠ .error .other) :
    ∃ enough, ∀ fuel ≥ enough, ∃ text after result, gebrGtkBookmarksAddPaths pvector uriPrefix fuel
      file = some after ∧ gebrGtkBookmarksRemovePaths pvector fuel after = some result ∧
      (∀ line, line ∈ names 10 text ↔ AddedLine pvector uriPrefix line) ∧
      bookmarks after = names 10 text ++ bookmarks file ∧
      bookmarks result = (names 10 text ++ bookmarks file).filter fun line =>
      ¬ Marked pvector line := by
  obtain ⟨enough, all⟩ := exists_enough written (List.Subset.refl pvector)
  refine ⟨enough, fun fuel le => ?_⟩
  have resolves : AllResolve pvector fuel := fun a member => (all fuel le a member).imp fun _ =>
    And.left
  obtain ⟨text, made⟩ := addedText_isSome_iff.2 fun a member some_byte =>
    (all fuel le a member).imp fun _ => And.imp_right fun fits => fits some_byte
  have content : ∃ contents, gebrGtkBookmarksAddPaths pvector uriPrefix fuel file =
      some (.ok (text ++ contents)) ∧ names 10 contents = bookmarks file := by
    cases file with
    | ok contents =>
      refine ⟨contents, ?_, rfl⟩
      unfold gebrGtkBookmarksAddPaths
      dsimp only
      rw [made, Option.map_some]
    | error failure =>
      cases failure with
      | other => exact absurd rfl readable
      | noent =>
        refine ⟨[], ?_, rfl⟩
        unfold gebrGtkBookmarksAddPaths
        dsimp only
        rw [made, Option.map_some, List.append_nil]
  obtain ⟨contents, added, lines⟩ := content
  obtain ⟨result, removed, left⟩ := names_removed resolves (text ++ contents)
  have both := (names_addedText [] made contents).1
  rw [lines] at both
  exact ⟨text, _, .ok result, added, removed, fun line => mem_addedText made, both, by
    rw [← both, ← left]; rfl⟩

/-- The paths are written when the file is changed. -/
theorem writtenPaths_of_added {after : Except FileError Text} (readable : file ≠ .error .other)
    (added : gebrGtkBookmarksAddPaths pvector uriPrefix fuel file = some after) :
    WrittenPaths pvector uriPrefix := by
  have made : ∃ text, addedText pvector uriPrefix fuel pvector = some text := by
    unfold gebrGtkBookmarksAddPaths at added
    cases file with
    | ok contents => exact (Option.map_eq_some_iff.1 added).imp fun _ => And.left
    | error failure =>
      cases failure with
      | other => exact absurd rfl readable
      | noent => exact (Option.map_eq_some_iff.1 added).imp fun _ => And.left
  intro a member some_byte
  obtain ⟨resolved, first, fits⟩ := addedText_isSome_iff.1 made a member some_byte
  exact ⟨resolved, ⟨fuel, first⟩, fits⟩

/-- **When what was added is removed, and nothing else is**, for a file that can be read. -/
theorem undone_iff_of_readable (readable : file ≠ .error .other) : Undone pvector uriPrefix file ↔
    WrittenPaths pvector uriPrefix ∧ NoForeign pvector uriPrefix file ∧
      ((∀ line ∈ bookmarks file, ¬ AddedLine pvector uriPrefix line) →
      AddedMarked pvector uriPrefix) := by
  classical
  constructor
  · rintro ⟨enough, undone⟩
    obtain ⟨_, _, firstAdded, -⟩ := undone enough le_rfl
    have written := writtenPaths_of_added readable firstAdded
    obtain ⟨other, all⟩ := removed_after written readable
    obtain ⟨after, result, added, removed, back, only⟩ := undone (max enough other)
      (le_max_left enough other)
    obtain ⟨text, again, left, same, sameResult, lines, front, rest⟩ := all (max enough other)
      (le_max_right enough other)
    obtain rfl := Option.some.inj (added.symm.trans same)
    obtain rfl := Option.some.inj (removed.symm.trans sameResult)
    have noForeign : NoForeign pvector uriPrefix file := by
      intro line member marked
      refine only line ?_ ?_
      · rw [front]
        exact List.mem_append_right _ member
      · rw [rest]
        exact fun kept => of_decide_eq_true (List.mem_filter.1 kept).2 marked
    refine ⟨written, noForeign, fun fresh line isAdded => ?_⟩
    by_contra unmarked
    have kept : line ∈ bookmarks result := by
      rw [rest]
      exact List.mem_filter.2
        ⟨List.mem_append_left _ ((lines line).2 isAdded), decide_eq_true unmarked⟩
    rw [back fresh] at kept
    exact fresh line kept isAdded
  · rintro ⟨written, noForeign, marked⟩
    obtain ⟨enough, all⟩ := removed_after written readable
    refine ⟨enough, fun fuel le => ?_⟩
    obtain ⟨text, after, result, added, removed, lines, front, rest⟩ := all fuel le
    refine ⟨after, result, added, removed, fun fresh => ?_, fun line member gone => ?_⟩
    · have keeps : (bookmarks file).filter (fun line => ¬ Marked pvector line) = bookmarks file :=
        List.filter_eq_self.2 fun line member => decide_eq_true fun ends => fresh line member
          (noForeign line member ends)
      rw [rest, List.filter_append, keeps, List.append_left_eq_self, List.filter_eq_nil_iff]
      exact fun line member kept => of_decide_eq_true kept (marked fresh line ((lines line).1 member))
    · rw [rest, List.mem_filter, ← front] at gone
      have ends : Marked pvector line := not_not.1 fun unmarked =>
        gone ⟨member, decide_eq_true unmarked⟩
      rw [front] at member
      rcases List.mem_append.1 member with here | there
      · exact (lines line).1 here
      · exact noForeign line there ends

end Undoing

section Plain

/-- No line break in the prefix or in a name, and a prefix for `sftp` ends with the separator that
the paths begin with. -/
structure PlainPrefix (pvector : List Alias) (uriPrefix : Option Text) : Prop where
  front : 10 ∉ uriPrefix.getD []
  name : ∀ a ∈ pvector, 10 ∉ a.name
  separator : isSftp uriPrefix → [47] <:+ uriPrefix.getD [] ∧
    ∀ a ∈ pvector, ∀ resolved, Returns (resolveStep pvector) a.target resolved → a.target ≠ [] →
      [47] <+: resolved

theorem newline_escaped (s : Text) : (10 : UInt8) ∉ gUriEscapeStringKeeping (ascii "/") s :=
  not_mem_escapeKeeping (by decide) (by decide) (by decide) (by decide) s

theorem newline_escapedPath {resolved escaped : Text}
    (found : escapedPath uriPrefix resolved = some escaped) : 10 ∉ escaped := by
  unfold escapedPath at found
  split at found
  · cases resolved with
    | nil => exact absurd found nofun
    | cons b rest =>
      obtain rfl := Option.some.inj found
      exact newline_escaped rest
  · obtain rfl := Option.some.inj found
    exact newline_escaped resolved

/-- **A line that is added ends as its bookmark does**, where it is one line. -/
theorem addedMarked_of_plain (plain : PlainPrefix pvector uriPrefix) :
    AddedMarked pvector uriPrefix := by
  rintro line ⟨a, member, some_byte, resolved, returns, escaped, found, here⟩
  have oneLine : 10 ∉ bookmark uriPrefix escaped a.name := by
    unfold bookmark
    simp only [List.mem_append, not_or]
    exact ⟨⟨⟨⟨plain.front, newline_escapedPath found⟩, by decide⟩, plain.name a member⟩, by decide⟩
  unfold names at here
  rw [List.splitOn_eq_singleton oneLine] at here
  obtain rfl := List.mem_singleton.1 (List.mem_filter.1 here).1
  refine ⟨a, member, resolved, returns, ?_⟩
  unfold escapedPath at found
  unfold bookmark bookmarkSuffix
  split at found
  · rename_i sftp
    obtain ⟨⟨front, ends⟩, begins⟩ := plain.separator sftp
    obtain ⟨rest, rfl⟩ := begins a member resolved returns some_byte
    obtain rfl := Option.some.inj found
    have kept : gUriEscapeStringKeeping (ascii "/") ([47] ++ rest) = 47 :: gUriEscapeStringKeeping
        (ascii "/") rest :=
      escapeKeeping_cons (by decide) (by decide) rest
    refine ⟨front, ?_⟩
    rw [kept, ← ends]
    simp only [List.append_assoc, List.cons_append, List.nil_append]
    rfl
  · obtain rfl := Option.some.inj found
    refine ⟨uriPrefix.getD [], ?_⟩
    simp only [List.append_assoc]

end Plain

section Bookmarks

/-- **When removing bookmarks undoes adding them.** -/
theorem undone_iff (pvector : List Alias) (uriPrefix : Option Text) (file : Except FileError Text) :
    (Undone pvector uriPrefix file ↔ file = .error .other ∨ WrittenPaths pvector uriPrefix ∧
      NoForeign pvector uriPrefix file ∧
        ((∀ line ∈ bookmarks file, ¬ AddedLine pvector uriPrefix line) →
    AddedMarked pvector uriPrefix)) ∧
    (PlainPrefix pvector uriPrefix → AddedMarked pvector uriPrefix) := by
  refine ⟨?_, addedMarked_of_plain⟩
  by_cases readable : file = .error .other
  · rw [readable]
    refine iff_of_true ⟨0, fun fuel _ => ?_⟩ (.inl rfl)
    exact ⟨.error .other, .error .other, rfl, rfl, fun _ => rfl, fun line member =>
      absurd member List.not_mem_nil⟩
  · rw [or_iff_right readable]
    exact undone_iff_of_readable readable

/-- **A line of another bookmark** is removed when it ends as one of the line does; and an empty
path is not added, but every line with its name is removed. -/
theorem foreign_line :
    (let pvector := [⟨ascii "/l", ascii "BASE"⟩]
    let file := ascii "sftp://h/l BASE (GeBR)"
    gebrGtkBookmarksAddPaths pvector (some (ascii "file://")) 2 (.ok file) =
        some (.ok (ascii "file:///l BASE (GeBR)" ++ 10 :: file)) ∧
      gebrGtkBookmarksRemovePaths pvector 2 (.ok (ascii "file:///l BASE (GeBR)" ++ 10 :: file)) =
        some (.ok []) ∧
      ¬ Undone pvector (some (ascii "file://")) (.ok file)) ∧
    (let pvector := [⟨[], ascii "DATA"⟩]
    let file := ascii "file:///d DATA (GeBR)"
    gebrGtkBookmarksAddPaths pvector (some (ascii "file://")) 2 (.ok file) = some (.ok file) ∧
      gebrGtkBookmarksRemovePaths pvector 2 (.ok file) = some (.ok [])) := by
  refine ⟨⟨by decide, by decide, ?_⟩, by decide, by decide⟩
  have readable : (.ok (ascii "sftp://h/l BASE (GeBR)") : Except FileError Text) ≠ .error .other :=
    nofun
  rw [undone_iff_of_readable readable]
  rintro ⟨-, noForeign, -⟩
  have marked : Marked [⟨ascii "/l", ascii "BASE"⟩] (ascii "sftp://h/l BASE (GeBR)") :=
    ⟨_, List.mem_cons_self, ascii "/l", ⟨2, by decide⟩, by decide⟩
  obtain ⟨a, member, -, resolved, returns, escaped, found, here⟩ := noForeign _ (by decide) marked
  obtain rfl := List.mem_singleton.1 member
  obtain rfl : resolved = ascii "/l" := returns.unique ⟨2, by decide⟩
  obtain rfl : ascii "/l" = escaped := Option.some.inj found
  exact absurd here (by decide)

end Bookmarks

end Gebr.Geoxml.PathAliases
