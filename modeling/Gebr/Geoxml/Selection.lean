/-
**The selection of a list of parameters.**

An instance of a group keeps two attributes, the selection and the default selection. Each is a
number as a text: the place of a parameter plus one, or `0` where there is none. A parameter of the
list is named by its place here.

* `atol`, `formatLong`: the number read and written; `atol_formatLong`: what is written is read.
* `GebrGeoXmlParameters`: a list of parameters with its attributes; `getDefaultSelection`,
  `getSelection` and their setters.
* `getSelection_isSome_iff`: when there is a selection.
* `lt_of_getSelection`: a selection is one of the parameters.
-/

import Gebr.Geoxml.DictSplit

namespace Gebr.Geoxml

open Gebr.Lib.CString

section Index

/-- `atol`, as a `gulong`. -/
def atol (text : Text) : ℕ := toSize (strtol text).1

/-- A `gulong` printed by `%ld`. An index is below `2 ^ 64`. -/
def formatLong (n : ℕ) : Text :=
  if 2 ^ 63 ≤ n ∧ n < 2 ^ 64 then 45 :: decimal (2 ^ 64 - n) else decimal n

theorem strtol_decimal (n : ℕ) : (strtol (decimal n)).1 = if longMax < (n : ℤ) then
    longMax else n := by
  have digits : ∀ b ∈ decimal n, isDigit b = true := fun b => isDigit_of_mem_decimal
  have whole : (decimal n).takeWhile isDigit = decimal n := List.takeWhile_eq_self_iff.2 digits
  have above : ¬ (n : ℤ) < longMin := by
    unfold longMin
    omega
  obtain ⟨b, rest, shape⟩ := List.exists_cons_of_ne_nil (decimal_ne_nil n)
  have first : isDigit b = true := digits b (by rw [shape]; exact List.mem_cons_self)
  unfold strtol
  rw [shape, takeSign_digits first, ← shape]
  simp only [whole, value_decimal, Bool.false_eq_true, if_false, if_neg above]
  split <;> rfl

theorem strtol_minus {n : ℕ} (fits : n ≤ 2 ^ 63) : (strtol (45 :: decimal n)).1 = -(n : ℤ) := by
  have whole : (decimal n).takeWhile isDigit = decimal n :=
    List.takeWhile_eq_self_iff.2 fun b => isDigit_of_mem_decimal
  have below : ¬ longMax < -(n : ℤ) := by
    unfold longMax
    omega
  have above : ¬ -(n : ℤ) < longMin := by
    unfold longMin
    omega
  have signed : takeSign ((45 :: decimal n).dropWhile isSpace) = (true, decimal n) := rfl
  unfold strtol
  rw [signed]
  simp only [whole, value_decimal, if_true, if_neg below, if_neg above]

theorem atol_lt (text : Text) : atol text < 2 ^ 64 := by
  unfold atol toSize
  omega

/-- **What is printed is read.** -/
theorem atol_formatLong {n : ℕ} (fits : n < 2 ^ 64) : atol (formatLong n) = n := by
  unfold atol formatLong
  split
  · rename_i large
    rw [strtol_minus (by omega)]
    unfold toSize
    omega
  · rw [strtol_decimal, if_neg (by unfold longMax; omega)]
    exact toSize_natCast (by omega)

theorem atol_formatLong_ne_zero {n : ℕ} (positive : n ≠ 0) : atol (formatLong n) ≠ 0 := by
  by_cases fits : n < 2 ^ 64
  · rwa [atol_formatLong fits]
  · unfold atol formatLong
    rw [if_neg (by omega), strtol_decimal, if_pos (by unfold longMax; omega)]
    decide

end Index

/-- A list of parameters and its attributes. An attribute that is not there is read as an empty
text. -/
@[ext]
structure GebrGeoXmlParameters (α : Type) where
  parameters : List α
  defaultSelection : Text
  selection : Text
  deriving DecidableEq

section Model

variable {α : Type}

/-- The parameter of an attribute: the first one where there is none at its place. -/
def GebrGeoXmlParameters.selectedBy (self : GebrGeoXmlParameters α) (index : ℕ) : Option ℕ :=
  if index = 0 then none
  else if index - 1 < self.parameters.length then some (index - 1)
  else if self.parameters = [] then none
  else some 0

/-- `gebr_geoxml_parameters_get_default_selection`. -/
def GebrGeoXmlParameters.getDefaultSelection (self : GebrGeoXmlParameters α) : Option ℕ :=
  self.selectedBy (atol self.defaultSelection)

/-- `gebr_geoxml_parameters_get_selection`. -/
def GebrGeoXmlParameters.getSelection (self : GebrGeoXmlParameters α) : Option ℕ :=
  match self.getDefaultSelection with
  | none => none
  | some _ => self.selectedBy (atol self.selection)

/-- `gebr_geoxml_parameters_set_selection`, of a parameter of the list or of `NULL`. -/
def GebrGeoXmlParameters.setSelection (self : GebrGeoXmlParameters α) (parameter : Option ℕ) :
    GebrGeoXmlParameters α :=
  match self.getDefaultSelection with
  | none => self
  | some _ =>
    match parameter with
    | none => { self with selection := [48] }
    | some place => { self with selection := formatLong (place + 1) }

/-- `gebr_geoxml_parameters_set_default_selection`. -/
def GebrGeoXmlParameters.setDefaultSelection (self : GebrGeoXmlParameters α) (parameter : Option ℕ) :
    GebrGeoXmlParameters α :=
  match parameter with
  | none => { self with defaultSelection := [48] }
  | some place =>
    let self := { self with defaultSelection := formatLong (place + 1) }
    match self.getSelection with
    | none => self.setSelection (some place)
    | some _ => self

end Model

section Selections

variable {α : Type} {self : GebrGeoXmlParameters α}

theorem selectedBy_isSome_iff {index : ℕ} :
    (self.selectedBy index).isSome ↔ index ≠ 0 ∧ self.parameters ≠ [] := by
  unfold GebrGeoXmlParameters.selectedBy
  by_cases zero : index = 0
  · simp [zero]
  · by_cases inside : index - 1 < self.parameters.length
    · have some_parameter : self.parameters ≠ [] :=
        List.ne_nil_of_length_pos (Nat.lt_of_le_of_lt (Nat.zero_le _) inside)
      simp [zero, inside, some_parameter]
    · by_cases empty : self.parameters = [] <;> simp [zero, inside, empty]

theorem lt_of_selectedBy {index place : ℕ} (selected : self.selectedBy index = some place) :
    place < self.parameters.length := by
  unfold GebrGeoXmlParameters.selectedBy at selected
  split_ifs at selected with zero inside empty
  · rwa [← Option.some.inj selected]
  · rw [← Option.some.inj selected]
    exact List.length_pos_iff_ne_nil.2 empty

theorem le_of_selectedBy {index place : ℕ} (selected : self.selectedBy index = some place) :
    place + 1 ≤ index := by
  unfold GebrGeoXmlParameters.selectedBy at selected
  split_ifs at selected with zero inside empty
  · rw [← Option.some.inj selected]
    omega
  · rw [← Option.some.inj selected]
    omega

theorem getDefaultSelection_isSome_iff :
    self.getDefaultSelection.isSome ↔ atol self.defaultSelection ≠ 0 ∧ self.parameters ≠ [] :=
  selectedBy_isSome_iff

/-- **When there is a selection**: both attributes name a parameter, and there is one. -/
theorem getSelection_isSome_iff : self.getSelection.isSome ↔
    atol self.defaultSelection ≠ 0 ∧ atol self.selection ≠ 0 ∧ self.parameters ≠ [] := by
  have default := @getDefaultSelection_isSome_iff α self
  unfold GebrGeoXmlParameters.getSelection
  cases found : self.getDefaultSelection with
  | none =>
    rw [found] at default
    simp only [Option.isSome_none, Bool.false_eq_true, false_iff] at default ⊢
    exact fun both => default ⟨both.1, both.2.2⟩
  | some p =>
    rw [found] at default
    have given := default.1 rfl
    rw [selectedBy_isSome_iff]
    exact ⟨fun some => ⟨given.1, some⟩, fun all => all.2⟩

/-- **A selection is one of the parameters.** -/
theorem lt_of_getSelection {place : ℕ} (selected : self.getSelection = some place) :
    place < self.parameters.length := by
  unfold GebrGeoXmlParameters.getSelection at selected
  split at selected
  · cases selected
  · exact lt_of_selectedBy selected

@[simp] theorem parameters_setSelection (parameter : Option ℕ) :
    (self.setSelection parameter).parameters = self.parameters := by
  unfold GebrGeoXmlParameters.setSelection
  split
  · rfl
  · cases parameter <;> rfl

@[simp] theorem defaultSelection_setSelection (parameter : Option ℕ) :
    (self.setSelection parameter).defaultSelection = self.defaultSelection := by
  unfold GebrGeoXmlParameters.setSelection
  split
  · rfl
  · cases parameter <;> rfl

@[simp] theorem parameters_setDefaultSelection (parameter : Option ℕ) :
    (self.setDefaultSelection parameter).parameters = self.parameters := by
  unfold GebrGeoXmlParameters.setDefaultSelection
  cases parameter with
  | none => rfl
  | some place =>
    dsimp only
    split
    · rw [parameters_setSelection]
    · rfl

theorem atol_setSelection_ne_zero {place : ℕ} (named : atol self.selection ≠ 0) :
    atol (self.setSelection (some place)).selection ≠ 0 := by
  unfold GebrGeoXmlParameters.setSelection
  split
  · exact named
  · exact atol_formatLong_ne_zero (Nat.succ_ne_zero place)

end Selections

end Gebr.Geoxml
