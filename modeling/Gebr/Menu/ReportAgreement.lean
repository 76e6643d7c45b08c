/-
**Where the report of a menu and the editor find the same faults.**

The editor checks a category part by part, and the report checks its whole text; and the report
alone knows which hotkeys were used.

* `Alike`: no part of a category is empty, and the ends of the text have the faults of the ends of
  its parts.
* `same_iff_alike`: the checks of the parts and those of the text.
* `agree_cases`, `fieldFine_iff_checkValue`: the faults of one field.
* `agree_iff` — **when exactly they find the same faults**; `capital_behind_bar` is a category that
  only the editor finds one in.
-/

import Gebr.Lib.Separated
import Gebr.Menu.MenuFaults

namespace Gebr.Menu

open Gebr.Lib.Separated

section Parts

/-- No part of a category is empty, and none has a fault at its ends that the whole text does not
have. -/
structure Alike (unicode : Unicode) (value : Text) : Prop where
  full : [] ∉ value.splitOn '|'
  lower : ∀ part ∈ value.splitOn '|', part.head?.any unicode.isLower = true →
    value.head?.any unicode.isLower = true
  blanks : ∀ part ∈ value.splitOn '|', (part.head?.any isBlank || part.getLast?.any isBlank) = true →
    (value.head?.any isBlank || value.getLast?.any isBlank) = true
  points : ∀ part ∈ value.splitOn '|', part.getLast?.any isEndPunct = true →
    value.getLast?.any isEndPunct = true

variable (unicode : Unicode) (value : Text)

theorem fails_empty : passes unicode .empty value = false ↔ value = [] := by
  simp [passes, checkIsNotEmpty]

theorem fails_capit : passes unicode .capit value = false ↔ value.head?.any unicode.isLower =
    true := by
  cases value <;> simp [passes, checkNoLowerCase]

theorem fails_noblk :
    passes unicode .noblk value = false ↔ (value.head?.any isBlank || value.getLast?.any isBlank) =
    true := by
  unfold passes checkNoBlanksAtBoundaries
  exact Iff.of_eq (Bool.not_eq_false' _)

theorem fails_mtblk : passes unicode .mtblk value = false ↔ [' ', ' '] <:+: value := by
  simp [passes, checkNoMultipleBlanks]

theorem fails_nopnt : passes unicode .nopnt value = false ↔ value.getLast?.any isEndPunct = true := by
  unfold passes checkNoPunctuationAtEnd
  exact Iff.of_eq (Bool.not_eq_false' _)

theorem fails_tabs : passes unicode .tabs value = false ↔ ['\t'] <:+: value := by
  rw [List.singleton_infix_iff]
  simp [passes, checkTabs]

variable {unicode value}

/-- What has no vertical line is in the text where it is in a part. -/
theorem infix_splitOn_iff {word : Text} (clean : '|' ∉ word) (some_item : word ≠ []) :
    (∃ part ∈ value.splitOn '|', word <:+: part) ↔ word <:+: value := by
  rw [← infix_intercalate_iff clean some_item, List.intercalate_splitOn]

theorem exists_head? (full : [] ∉ value.splitOn '|') :
    ∃ part ∈ value.splitOn '|', part.head? = value.head? := by
  have whole : ['|'].intercalate (value.splitOn '|') = value := List.intercalate_splitOn '|'
  cases split : value.splitOn '|' with
  | nil => exact absurd split (List.splitOn_ne_nil _ _)
  | cons first parts =>
    rw [split] at whole full
    have some_item : first ≠ [] := fun empty => full (empty ▸ List.mem_cons_self)
    exact ⟨first, List.mem_cons_self, by rw [← whole, head?_intercalate some_item]⟩

theorem exists_getLast? (full : [] ∉ value.splitOn '|') :
    ∃ part ∈ value.splitOn '|', part.getLast? = value.getLast? := by
  have whole : ['|'].intercalate (value.splitOn '|') = value := List.intercalate_splitOn '|'
  obtain ⟨parts, last, split⟩ := (List.eq_nil_or_concat' (value.splitOn '|')).resolve_left
    (List.splitOn_ne_nil _ _)
  rw [split] at whole full ⊢
  have inside : last ∈ parts ++ [last] := List.mem_append_right _ List.mem_cons_self
  have some_item : last ≠ [] := fun empty => full (empty ▸ inside)
  exact ⟨last, inside, by rw [← whole, getLast?_intercalate some_item]⟩

/-- A part fails a check where the text does. -/
def Same (unicode : Unicode) (value : Text) (check : Check) : Prop :=
  (∃ part ∈ splitCategory value, passes unicode check part = false) ↔ passes unicode check value =
    false

theorem splitCategory_of_ne_nil (some_item : value ≠ []) :
    splitCategory value = value.splitOn '|' := if_neg some_item

/-- **The checks of the parts of a category are those of its text.** -/
theorem same_iff_alike : (∀ check ∈ titleFlags, Same unicode value check) ↔ Alike unicode value := by
  constructor
  · intro same
    have some_item : value ≠ [] := by
      rintro rfl
      obtain ⟨part, member, -⟩ := (same .empty (by decide)).2 rfl
      exact absurd member List.not_mem_nil
    unfold Same at same
    rw [splitCategory_of_ne_nil some_item] at same
    refine ⟨fun member => ?_, fun part member fails => ?_, fun part member fails => ?_,
      fun part member fails => ?_⟩
    · exact some_item ((fails_empty unicode value).1 ((same .empty (by decide)).1 ⟨[], member, rfl⟩))
    · exact (fails_capit unicode value).1
        ((same .capit (by decide)).1 ⟨part, member, (fails_capit unicode part).2 fails⟩)
    · exact (fails_noblk unicode value).1
        ((same .noblk (by decide)).1 ⟨part, member, (fails_noblk unicode part).2 fails⟩)
    · exact (fails_nopnt unicode value).1
        ((same .nopnt (by decide)).1 ⟨part, member, (fails_nopnt unicode part).2 fails⟩)
  · rintro ⟨full, lower, blanks, points⟩ check listed
    have some_item : value ≠ [] := by
      rintro rfl
      exact full List.mem_cons_self
    obtain ⟨first, first_inside, head⟩ := exists_head? full
    obtain ⟨last, last_inside, getLast⟩ := exists_getLast? full
    unfold Same
    rw [splitCategory_of_ne_nil some_item]
    cases check with
    | empty =>
      simp only [fails_empty]
      exact ⟨fun ⟨part, member, empty⟩ => absurd (empty ▸ member) full, fun empty =>
        absurd empty some_item⟩
    | capit =>
      simp only [fails_capit]
      exact ⟨fun ⟨part, member, fails⟩ => lower part member fails, fun fails =>
        ⟨first, first_inside, head ▸ fails⟩⟩
    | noblk =>
      simp only [fails_noblk]
      refine ⟨fun ⟨part, member, fails⟩ => blanks part member fails, fun fails => ?_⟩
      rcases (Bool.or_eq_true _ _).mp fails with begins | ends
      · exact ⟨first, first_inside, Bool.or_eq_true_iff.2 (.inl (head ▸ begins))⟩
      · exact ⟨last, last_inside, Bool.or_eq_true_iff.2 (.inr (getLast ▸ ends))⟩
    | mtblk =>
      simp only [fails_mtblk]
      exact infix_splitOn_iff (by decide) (by decide)
    | nopnt =>
      simp only [fails_nopnt]
      exact ⟨fun ⟨part, member, fails⟩ => points part member fails, fun fails =>
        ⟨last, last_inside, getLast ▸ fails⟩⟩
    | tabs =>
      simp only [fails_tabs]
      exact infix_splitOn_iff (by decide) (by decide)
    | email => exact absurd listed (by decide)
    | filen => exact absurd listed (by decide)
    | labelHotkey => exact absurd listed (by decide)
    | url => exact absurd listed (by decide)

end Parts

section Agreement

variable {unicode : Unicode} {value : Text} {name : CaseName} {self : Validate}

/-- The editor and the report find the same faults in a text. -/
def Agree (unicode : Unicode) (name : CaseName) (value : Text) (self : Validate) : Prop :=
  checkValue unicode name value = (validateAppendCheck unicode value (flagsOf name) name self).2

instance (unicode : Unicode) (name : CaseName) (value : Text) (self : Validate) :
    Decidable (Agree unicode name value self) :=
  inferInstanceAs (Decidable (_ = _))

/-- The faults are told check by check. -/
theorem agree_iff_checks :
    Agree unicode name value self ↔ ∀ check ∈ flagsOf name,
      ((∃ part ∈ partsOf name value, passes unicode check part = false) ↔
        passes unicode check value = false ∨ check = .labelHotkey ∧ ∃ key, hotkey unicode value =
        some key ∧ key ∈ self.hotkeyTable) := by
  unfold Agree
  rw [Finset.ext_iff]
  refine forall_congr' fun check => ?_
  rw [mem_checkValue, mem_validateAppendCheck, and_congr_right_iff]

/-- A category has no hotkey. -/
theorem agree_category : Agree unicode .category value self ↔ Alike unicode value := by
  rw [agree_iff_checks, ← same_iff_alike]
  refine forall₂_congr fun check listed => ?_
  have other : check ≠ .labelHotkey := by
    rintro rfl
    exact absurd listed (by decide)
  rw [or_iff_left fun both => other both.1]
  exact Iff.rfl

theorem agree_other (whole : name ≠ .category) :
    Agree unicode name value self ↔
      (.labelHotkey ∈ flagsOf name → ∀ key, hotkey unicode value = some key →
      key ∉ self.hotkeyTable) := by
  rw [agree_iff_checks, partsOf, if_neg whole]
  have one (check : Check) :
      (∃ part ∈ [value], passes unicode check part = false) ↔ passes unicode check value =
        false := by simp
  constructor
  · intro same listed key has used
    have failed := (one .labelHotkey).1 ((same .labelHotkey listed).2 (.inr ⟨rfl, key, has, used⟩))
    exact nomatch failed
  · intro unused check listed
    rw [one]
    refine ⟨Or.inl, fun either => either.resolve_right ?_⟩
    rintro ⟨rfl, key, has, used⟩
    exact unused listed key has used

theorem labelHotkey_mem_flagsOf : .labelHotkey ∈ flagsOf name ↔ name = .parameterLabel := by
  cases name <;> decide

/-- **The faults of a text** are the same where a category is like its parts and the hotkey of a
label was not used. -/
theorem agree_cases : Agree unicode name value self ↔
    (name = .category → Alike unicode value) ∧
      (name = .parameterLabel → ∀ key, hotkey unicode value = some key → key ∉ self.hotkeyTable) := by
  by_cases category : name = .category
  · subst category
    rw [agree_category]
    exact ⟨fun alike => ⟨fun _ => alike, nofun⟩, fun both => both.1 rfl⟩
  · rw [agree_other category, labelHotkey_mem_flagsOf]
    exact (and_iff_right fun is => absurd is category).symm

/-- The report of a text before any other. -/
def untouched : Validate := ⟨⟨none, none, none⟩, 0, [], []⟩

theorem fieldFine_iff : FieldFine unicode (name, value) ↔
    (validateAppendCheck unicode value (flagsOf name) name untouched).2 = ∅ := by
  rw [Finset.eq_empty_iff_forall_notMem]
  refine forall_congr' fun check => ?_
  rw [mem_validateAppendCheck, not_and]
  have fresh : ¬ ∃ key, hotkey unicode value = some key ∧ key ∈ untouched.hotkeyTable :=
    fun ⟨_, _, member⟩ => List.not_mem_nil member
  rw [or_iff_left fun both => fresh both.2, Bool.not_eq_false]

/-- A field passes where the editor does not mark it. -/
theorem fieldFine_iff_checkValue (alike : name = .category → Alike unicode value) :
    FieldFine unicode (name, value) ↔ checkValue unicode name value = ∅ := by
  have agree : Agree unicode name value untouched :=
    agree_cases.2 ⟨alike, fun _ _ _ => List.not_mem_nil⟩
  rw [fieldFine_iff, ← agree]

/-- **The editor and the report find the same faults exactly** where a category is like its parts
and the hotkey of a label was not used. A menu whose categories are so is reported valid where the
editor marks none of its fields, its parameters are complete and no hotkey was used before. -/
theorem agree_iff (unicode : Unicode) :
    (∀ (name : CaseName) (value : Text) (self : Validate), Agree unicode name value self ↔
      (name = .category → Alike unicode value) ∧
        (name = .parameterLabel → ∀ key, hotkey unicode value = some key → key ∉ self.hotkeyTable)) ∧
    ∀ (options : Options) (menu : GebrGeoXmlFlow),
      (∀ field ∈ menuFields options menu, field.1 = .category → Alike unicode field.2) →
        ((reportMenu unicode options menu).potentialErrors = 0 ↔
          (∀ field ∈ menuFields options menu, checkValue unicode field.1 field.2 = ∅) ∧
          (∀ prog ∈ shownPrograms options menu, ∀ parameter ∈ programParameters options prog,
          parameter.Complete) ∧ hotkeyMarks (reportMenu unicode options menu) = []) := by
  refine ⟨fun name value self => agree_cases, fun options menu alike => ?_⟩
  rw [potentialErrors_eq_zero_iff]
  refine and_congr_left' (forall₂_congr fun field member => ?_)
  exact fieldFine_iff_checkValue (alike field member)

/-- A part that begins with a small letter behind one that does not: only the editor looks there. -/
theorem capital_behind_bar :
    ¬ Agree smallUnicode .category "Seismic|filters".toList untouched := by
  decide

end Agreement

end Gebr.Menu
