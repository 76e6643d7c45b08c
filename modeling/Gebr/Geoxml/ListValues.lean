/-
**A parameter with a list of values, as one text.**

The text is cut at the separator, each piece is an element, and the elements joined with the
separator are the text that is read.

* `setStringValue`, `getStringValue`: the text of the values or of the defaults.
* `slot_setStringValue`: the elements that a text makes.
* `getStringValue_eq`: the text that elements make.
* `text_list_iff` — **when a text and a list of values are read as they were set**: the separator is
  there, and no value that it follows makes it begin too early.
* `empty_separator`: without a separator the text is lost.
-/

import Gebr.Geoxml.DictSplit
import Gebr.Lib.TextSplit

namespace Gebr.Geoxml.ListValues

open Gebr.Lib.CString (ascii)
open Gebr.Lib.TextSplit

section Model

/-- The property of a parameter, with the texts that are read of its elements. A reference has the
separator of what it refers to. -/
structure GebrGeoXmlProgramParameter where
  /-- The attribute. A parameter that has it is a list. -/
  separator : Option Text
  values : List Text
  defaults : List Text
  deriving DecidableEq

variable (self : GebrGeoXmlProgramParameter) (default : Bool)

/-- The `default` elements or the `value` elements. -/
def GebrGeoXmlProgramParameter.slot : List Text := if default then self.defaults else self.values

def GebrGeoXmlProgramParameter.setSlot (texts : List Text) : GebrGeoXmlProgramParameter :=
  if default then { self with defaults := texts } else { self with values := texts }

/-- `gebr_geoxml_program_parameter_set_first_value`. -/
def GebrGeoXmlProgramParameter.setFirstValue (value : Text) : GebrGeoXmlProgramParameter :=
  match self.slot default with
  | [] => self
  | _ :: rest => self.setSlot default (gebrGeoxmlRemoveLineBreak value :: rest)

/-- `gebr_geoxml_program_parameter_set_parse_list_value`. An element that is only appended is
empty. -/
def GebrGeoXmlProgramParameter.setParseListValue (value : Text) : GebrGeoXmlProgramParameter :=
  match self.separator with
  | none => self
  | some separator =>
    if value = [] ∨ separator = [] then self.setSlot default [[]]
    else self.setSlot default ((gStrsplitText separator value).map gebrGeoxmlRemoveLineBreak)

/-- `gebr_geoxml_program_parameter_set_string_value`. -/
def GebrGeoXmlProgramParameter.setStringValue (value : Text) : GebrGeoXmlProgramParameter :=
  match self.separator with
  | none => self.setFirstValue default value
  | some _ => self.setParseListValue default value

/-- `gebr_geoxml_program_parameter_get_string_value`. -/
def GebrGeoXmlProgramParameter.getStringValue : Text :=
  match self.separator, self.slot default with
  | _, [] => []
  | none, first :: _ => first
  | some separator, first :: rest => rest.foldl (fun value text => value ++ separator ++ text) first

end Model

section Texts

variable {separator v : Text} {values defaults : List Text}

@[simp] theorem slot_setSlot (self : GebrGeoXmlProgramParameter) (default : Bool) (texts : List Text) :
    (self.setSlot default texts).slot default = texts := by
  cases default <;> rfl

@[simp] theorem separator_setSlot (self : GebrGeoXmlProgramParameter) (default : Bool)
    (texts : List Text) : (self.setSlot default texts).separator = self.separator := by
  cases default <;> rfl

theorem foldl_intercalate (separator first : Text) (rest : List Text) :
    rest.foldl (fun value text => value ++ separator ++ text) first =
      separator.intercalate (first :: rest) := by
  induction rest generalizing first with
  | nil => exact List.intercalate_singleton.symm
  | cons text rest ih =>
    rw [List.foldl_cons, ih]
    cases rest with
    | nil => simp
    | cons next rest => simp [List.intercalate_cons_cons]

/-- **The text that elements make.** -/
theorem getStringValue_eq {self : GebrGeoXmlProgramParameter} (list : self.separator = some separator)
    (default : Bool) : self.getStringValue default = separator.intercalate (self.slot default) := by
  unfold GebrGeoXmlProgramParameter.getStringValue
  cases texts : self.slot default with
  | nil => rfl
  | cons first rest =>
    rw [list]
    exact foldl_intercalate separator first rest

theorem map_removeLineBreak {texts : List Text} (oneLine : ∀ text ∈ texts, 10 ∉ text) :
    texts.map gebrGeoxmlRemoveLineBreak = texts := by
  refine (List.map_congr_left fun text member => ?_).trans (List.map_id texts)
  exact removeLineBreak_of_oneLine (oneLine text member)

/-- **The elements that a text makes**: its pieces, or an empty one if there is nothing to cut or
nothing to cut at. -/
theorem slot_setStringValue {self : GebrGeoXmlProgramParameter}
    (list : self.separator = some separator) (default : Bool) (oneLine : 10 ∉ v) :
      (self.setStringValue default v).slot default = if v = [] ∨ separator = [] then
      [[]] else gStrsplitText separator v := by
  unfold GebrGeoXmlProgramParameter.setStringValue GebrGeoXmlProgramParameter.setParseListValue
  rw [list]
  dsimp only
  by_cases nothing : v = [] ∨ separator = []
  · rw [if_pos nothing, if_pos nothing, slot_setSlot]
  · rw [if_neg nothing, if_neg nothing, slot_setSlot]
    refine map_removeLineBreak fun text member line => ?_
    obtain ⟨some_text, some_byte⟩ := not_or.1 nothing
    unfold gStrsplitText at member
    rw [if_neg some_text] at member
    exact oneLine (mem_of_mem_splitText some_byte member line)

theorem separator_setStringValue {self : GebrGeoXmlProgramParameter}
    (list : self.separator = some separator) (default : Bool) :
    (self.setStringValue default v).separator = some separator := by
  unfold GebrGeoXmlProgramParameter.setStringValue GebrGeoXmlProgramParameter.setParseListValue
  rw [list]
  dsimp only
  split <;> rw [separator_setSlot, list]

/-- A text is read as it was set if there is something to cut at, or nothing to cut. -/
theorem getStringValue_setStringValue_iff {self : GebrGeoXmlProgramParameter}
    (list : self.separator = some separator) (default : Bool) (oneLine : 10 ∉ v) :
    (self.setStringValue default v).getStringValue default = v ↔ separator ≠ [] ∨ v = [] := by
  rw [getStringValue_eq (separator_setStringValue list default),
    slot_setStringValue list default oneLine]
  by_cases some_text : v = []
  · rw [if_pos (.inl some_text), List.intercalate_singleton]
    exact ⟨fun _ => .inr some_text, fun _ => some_text.symm⟩
  · by_cases some_byte : separator = []
    · rw [if_pos (.inr some_byte), List.intercalate_singleton]
      exact ⟨fun same => .inr same.symm, fun either =>
        (either.resolve_left (not_not.2 some_byte)).symm⟩
    · rw [if_neg (not_or.2 ⟨some_text, some_byte⟩)]
      unfold gStrsplitText
      rw [if_neg some_text, intercalate_splitText some_byte]
      exact ⟨fun _ => .inl some_byte, fun _ => rfl⟩

end Texts

section Lists

variable {separator : Text} {items : List Text}

/-- A separator with a line break begins nowhere in a text of one line that it follows. -/
theorem not_infix_of_line {item : Text} (line : 10 ∈ separator) (oneLine : 10 ∉ item) :
    ¬ separator <:+: item ++ separator.dropLast := by
  rintro ⟨front, back, same⟩
  have total := congrArg List.length same
  have some_byte := List.length_pos_of_mem line
  simp only [List.length_append, List.length_dropLast] at total
  by_cases early : 10 ∈ front
  · -- The first line break would be in front of the place where the separator stands.
    have first := congrArg (List.idxOf 10) same
    rw [List.append_assoc, List.idxOf_append_of_mem early,
      List.idxOf_append_of_notMem oneLine] at first
    have inside := List.idxOf_lt_length_of_mem early
    omega
  · have first := congrArg (List.idxOf 10) same
    rw [List.append_assoc, List.idxOf_append_of_notMem early, List.idxOf_append_of_mem line,
      List.idxOf_append_of_notMem oneLine] at first
    have later : separator.idxOf 10 ≤ separator.dropLast.idxOf 10 := by
      by_cases kept : 10 ∈ separator.dropLast
      · have whole := List.dropLast_append_getLast (List.ne_nil_of_mem line)
        have same_place : separator.idxOf 10 = separator.dropLast.idxOf 10 := by
          conv_lhs => rw [← whole]
          exact List.idxOf_append_of_mem kept
        exact same_place.le
      · rw [List.idxOf_of_notMem kept, List.length_dropLast]
        exact Nat.le_sub_one_of_lt (List.idxOf_lt_length_of_mem line)
    omega

theorem oneLine_intercalate (apart : 10 ∉ separator) (oneLine : ∀ item ∈ items, 10 ∉ item) :
    10 ∉ separator.intercalate items := by
  induction items with
  | nil => simp
  | cons item items ih =>
    have first := oneLine item List.mem_cons_self
    have rest := ih fun one member => oneLine one (List.mem_cons_of_mem item member)
    cases items with
    | nil => simpa using first
    | cons next items =>
      rw [List.intercalate_cons_cons]
      simp [first, apart, rest]

/-- The pieces of joined values, where one piece is not the empty text. -/
theorem gStrsplitText_intercalate_iff (some_byte : separator ≠ []) (some_item : items ≠ [])
    (clean : ∀ item ∈ items, ¬ separator <:+: item) (some_text : separator.intercalate items ≠ []) :
    gStrsplitText separator (separator.intercalate items) = items ↔
      ∀ item ∈ items.dropLast, ¬ separator <:+: item ++ separator.dropLast := by
  unfold gStrsplitText
  rw [if_neg some_text]
  exact splitText_intercalate_iff some_byte some_item clean (length_le_intercalate some_byte items)

/-- Values that are empty when they are joined: there is one, and it is empty. -/
theorem eq_of_intercalate_nil (some_byte : separator ≠ []) (some_item : items ≠ [])
    (nothing : separator.intercalate items = []) : items = [[]] := by
  cases items with
  | nil => exact absurd rfl some_item
  | cons item items =>
    cases items with
    | nil => rw [← nothing, List.intercalate_singleton]
    | cons next items =>
      rw [List.intercalate_cons_cons] at nothing
      exact absurd (List.append_eq_nil_iff.1 (List.append_eq_nil_iff.1 nothing).1).2 some_byte

/-- **When a list of values is read as it was set.** -/
theorem slot_intercalate_iff {self : GebrGeoXmlProgramParameter}
    (list : self.separator = some separator) (default : Bool) (oneLine : ∀ item ∈ items, 10 ∉ item)
    (clean : ∀ item ∈ items, ¬ separator <:+: item) :
    (self.setStringValue default (separator.intercalate items)).slot default = items ↔
      items ≠ [] ∧ ∀ item ∈ items.dropLast, ¬ separator <:+: item ++ separator.dropLast := by
  by_cases some_item : items = []
  · subst some_item
    rw [slot_setStringValue list default (by simp)]
    simp
  have some_byte : separator ≠ [] := by
    rintro rfl
    obtain ⟨item, rest, rfl⟩ := List.exists_cons_of_ne_nil some_item
    exact clean item List.mem_cons_self (List.nil_infix)
  rw [and_iff_right some_item]
  by_cases nothing : separator.intercalate items = []
  · have one := eq_of_intercalate_nil some_byte some_item nothing
    subst one
    rw [nothing, slot_setStringValue list default (by simp), if_pos (.inl rfl)]
    simp
  have pieces := gStrsplitText_intercalate_iff some_byte some_item clean nothing
  by_cases line : 10 ∈ separator
  · have apart : ∀ item ∈ items.dropLast, ¬ separator <:+: item ++ separator.dropLast :=
      fun item member => not_infix_of_line line (oneLine item (List.dropLast_subset items member))
    refine iff_of_true ?_ apart
    unfold GebrGeoXmlProgramParameter.setStringValue GebrGeoXmlProgramParameter.setParseListValue
    rw [list]
    dsimp only
    rw [if_neg (not_or.2 ⟨nothing, some_byte⟩), slot_setSlot, pieces.2 apart,
      map_removeLineBreak oneLine]
  · rw [slot_setStringValue list default (oneLine_intercalate line oneLine),
      if_neg (not_or.2 ⟨nothing, some_byte⟩)]
    exact pieces

/-- **When a text and a list of values are read as they were set.** -/
theorem text_list_iff {self : GebrGeoXmlProgramParameter} {v : Text}
    (list : self.separator = some separator) (default : Bool) (line : 10 ∉ v)
    (oneLine : ∀ item ∈ items, 10 ∉ item) (clean : ∀ item ∈ items, ¬ separator <:+: item) :
    ((self.setStringValue default v).getStringValue default = v ↔ separator ≠ [] ∨ v = []) ∧
      ((self.setStringValue default (separator.intercalate items)).slot default = items ↔
        items ≠ [] ∧ ∀ item ∈ items.dropLast, ¬ separator <:+: item ++ separator.dropLast) :=
  ⟨getStringValue_setStringValue_iff list default line, slot_intercalate_iff list default
    oneLine clean⟩

/-- A list with the separator `, `. -/
def numbers : GebrGeoXmlProgramParameter := ⟨some (ascii ", "), [[]], [[]]⟩

theorem text_list_iff_numbers :
    ((numbers.setStringValue false (ascii ", 1, ")).getStringValue false = ascii ", 1, " ↔
        ascii ", " ≠ [] ∨ ascii ", 1, " = []) ∧
      ((numbers.setStringValue false ((ascii ", ").intercalate [ascii "1", [], ascii "2,"])).slot
          false = [ascii "1", [], ascii "2,"] ↔
        [ascii "1", [], ascii "2,"] ≠ [] ∧ ∀ item ∈ [ascii "1", [], ascii "2,"].dropLast,
          ¬ ascii ", " <:+: item ++ (ascii ", ").dropLast) :=
  text_list_iff rfl false (by decide) (by decide) (by decide)

/-- **Without a separator the text is lost**; and a separator may begin in the value that it
follows. -/
theorem empty_separator :
    (GebrGeoXmlProgramParameter.setStringValue ⟨some [], [[]], [[]]⟩ false
        (ascii "abc")).getStringValue false = [] ∧
      (GebrGeoXmlProgramParameter.setStringValue ⟨some (ascii "aa"), [[]], [[]]⟩ false
        ((ascii "aa").intercalate [ascii "a", ascii "b"])).slot false = [[], ascii "ab"] := by
  decide

end Lists

end Gebr.Geoxml.ListValues
