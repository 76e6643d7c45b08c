/-
**Lists as texts of items with a separator between them.**

`g_strsplit` reads the text, and nothing is told of a list with one item that is empty.

* `intercalate_gStrsplit`: what is read is the text.
* `gStrsplit_intercalate` — **what is written is read**, but for one empty item.
* `intercalate_concat`, `dropLast_flatMap`: one more item at the end; a separator after each item,
  without the last one.
* `validate_separated`, `validate_intercalate`: a list is valid UTF-8 iff its items are.
-/

import Gebr.Lib.Components
import Gebr.Lib.Percent

namespace Gebr.Lib.SeparatedList

open Gebr.Lib.CString Gebr.Lib.Components Gebr.Lib.Utf8

variable {sep : UInt8} {item text : List UInt8} {items : List (List UInt8)}

section Items

/-- **What is read is the text.** -/
theorem intercalate_gStrsplit (sep : UInt8) (text : List UInt8) :
    [sep].intercalate (gStrsplit sep 0 text) = text := by
  rw [gStrsplit_eq]
  split
  · rename_i none
    rw [none]
    rfl
  · exact List.intercalate_splitOn sep

theorem intercalate_eq_nil_iff : [sep].intercalate items = [] ↔ items = [] ∨ items = [[]] := by
  match items with
  | [] => exact iff_of_true rfl (.inl rfl)
  | [item] =>
    rw [List.intercalate_singleton]
    exact ⟨fun none => .inr (by rw [none]), fun either => by simpa using either⟩
  | item :: next :: items =>
    rw [List.intercalate_cons_cons]
    exact iff_of_false (fun none => by simp at none) (fun either => by simp at either)

/-- One empty item is not told of. -/
def withoutEmpty (items : List (List UInt8)) : List (List UInt8) := if items = [[]] then [] else items

/-- **What is written is read**, but for one empty item. -/
theorem gStrsplit_intercalate (clean : ∀ item ∈ items, sep ∉ item) :
    gStrsplit sep 0 ([sep].intercalate items) = withoutEmpty items := by
  unfold withoutEmpty
  rw [gStrsplit_eq]
  by_cases empty : [sep].intercalate items = []
  · rw [if_pos empty]
    rcases intercalate_eq_nil_iff.1 empty with rfl | rfl
    · rfl
    · rfl
  · rw [if_neg empty]
    have some_item := not_or.1 (mt intercalate_eq_nil_iff.2 empty)
    rw [if_neg some_item.2, List.splitOn_intercalate sep clean some_item.1]

/-- What is read is not one empty item. -/
theorem withoutEmpty_gStrsplit (sep : UInt8) (text : List UInt8) :
    withoutEmpty (gStrsplit sep 0 text) = gStrsplit sep 0 text := by
  rw [← gStrsplit_intercalate fun item member => not_mem_of_mem_gStrsplit member,
    intercalate_gStrsplit]

theorem mem_withoutEmpty (some_byte : item ≠ []) : item ∈ withoutEmpty items ↔ item ∈ items := by
  unfold withoutEmpty
  split
  · rename_i one
    rw [one, List.mem_singleton]
    exact iff_of_false List.not_mem_nil some_byte
  · exact Iff.rfl

theorem withoutEmpty_sublist (items : List (List UInt8)) : (withoutEmpty items).Sublist items := by
  unfold withoutEmpty
  split
  · exact List.nil_sublist items
  · exact List.Sublist.refl items

/-- No empty item and no item twice. -/
def Tidy (items : List (List UInt8)) : Prop := items.Nodup ∧ [] ∉ items

theorem withoutEmpty_of_tidy (tidy : Tidy items) : withoutEmpty items = items := by
  refine if_neg fun one => tidy.2 ?_
  rw [one]
  exact List.mem_cons_self

theorem tidy_concat (tidy : Tidy items) (some_byte : item ≠ []) (fresh : item ∉ items) :
    Tidy (items ++ [item]) := by
  refine ⟨List.nodup_append.2 ⟨tidy.1, List.pairwise_singleton _ item, ?_⟩, ?_⟩
  · rintro other member same here rfl
    obtain rfl := List.mem_singleton.1 here
    exact fresh member
  · rw [List.mem_append, List.mem_singleton, not_or]
    exact ⟨tidy.2, fun same => some_byte same.symm⟩

theorem tidy_cons_filter (tidy : Tidy items) (some_byte : item ≠ []) :
    Tidy (item :: items.filter (· ≠ item)) := by
  refine ⟨List.nodup_cons.2 ⟨fun member => ?_, tidy.1.filter _⟩, fun member => ?_⟩
  · exact of_decide_eq_true (List.mem_filter.1 member).2 rfl
  · rcases List.mem_cons.1 member with same | member
    · exact some_byte same.symm
    · exact tidy.2 (List.mem_filter.1 member).1

theorem Tidy.filter (tidy : Tidy items) (keep : List UInt8 → Bool) : Tidy (items.filter keep) :=
  ⟨tidy.1.filter keep, fun member => tidy.2 (List.mem_filter.1 member).1⟩

theorem intercalate_concat (some_item : items ≠ []) (item : List UInt8) :
    [sep].intercalate (items ++ [item]) = [sep].intercalate items ++ sep :: item := by
  induction items with
  | nil => exact absurd rfl some_item
  | cons first items ih =>
    cases items with
    | nil =>
      rw [List.singleton_append, List.intercalate_cons_cons, List.intercalate_singleton,
        List.intercalate_singleton, List.append_assoc, List.singleton_append]
    | cons next items =>
      have later := ih (List.cons_ne_nil next items)
      rw [List.cons_append] at later
      rw [List.cons_append, List.cons_append, List.intercalate_cons_cons, later,
        List.intercalate_cons_cons, List.append_assoc, List.append_assoc, List.append_assoc]

/-- A separator after each item, without the last one. -/
theorem dropLast_flatMap (sep : UInt8) (items : List (List UInt8)) :
    (items.flatMap (· ++ [sep])).dropLast = [sep].intercalate items := by
  induction items with
  | nil => rfl
  | cons item items ih =>
    cases items with
    | nil => rw [List.flatMap_singleton, List.dropLast_concat, List.intercalate_singleton]
    | cons next items =>
      have some_byte : (next :: items).flatMap (· ++ [sep]) ≠ [] := by simp
      rw [List.flatMap_cons, List.dropLast_append_of_ne_nil some_byte, ih, List.intercalate_cons_cons]

end Items

section Valid

open Gebr.Lib.Percent (HighPlace leadByte_high)

variable {first rest : List UInt8}

theorem highPlace_step {place next : Place} {byte : UInt8} (high : HighPlace place)
    (taken : step place byte = some next) : HighPlace next := by
  cases place with
  | between => exact leadByte_high taken
  | within low up more =>
    by_cases inside : low ≤ byte ∧ byte ≤ up
    · cases more with
      | zero =>
        obtain rfl := Option.some.inj ((if_pos inside).symm.trans taken)
        exact trivial
      | succ more =>
        obtain rfl := Option.some.inj ((if_pos inside).symm.trans taken)
        exact (by decide : (0x80 : UInt8) ≤ 0x80)
    · exact absurd ((if_neg inside).symm.trans taken) nofun

theorem between_of_ascii {place next : Place} {byte : UInt8} (low : byte < 0x80)
    (high : HighPlace place) (taken : step place byte = some next) :
    place = .between ∧ next = .between := by
  cases place with
  | between =>
    have lead : leadByte byte = some .between := if_pos low
    exact ⟨rfl, (Option.some.inj (lead.symm.trans taken)).symm⟩
  | within from_ up more =>
    by_cases inside : from_ ≤ byte ∧ byte ≤ up
    · exact absurd (UInt8.le_trans high inside.1) (UInt8.not_le.2 low)
    · exact absurd ((if_neg inside).symm.trans taken) nofun

/-- **A text is valid iff what is on both sides of an ASCII character is.** -/
theorem validate_separated {byte : UInt8} (low : byte < 0x80) :
    validate (first ++ byte :: rest) = true ↔ validate first = true ∧ validate rest = true := by
  have one : validate [byte] = true := validate_ascii (List.forall_mem_singleton.2 low)
  constructor
  · intro whole
    have run := of_decide_eq_true whole
    rw [Run.run_append] at run
    obtain ⟨place, there, later⟩ := Option.bind_eq_some_iff.1 run
    obtain ⟨next, taken, last⟩ := Option.bind_eq_some_iff.1 later
    have high : HighPlace place := Run.run_invariant (fun _ _ _ high => highPlace_step high)
      (show HighPlace .between from trivial) there
    obtain ⟨rfl, rfl⟩ := between_of_ascii low high taken
    exact ⟨decide_eq_true there, decide_eq_true last⟩
  · rintro ⟨front, back⟩
    rw [validate_append front, ← List.singleton_append, validate_append one]
    exact back

/-- **A list is valid iff its items are.** -/
theorem validate_intercalate (low : sep < 0x80) (items : List (List UInt8)) :
    validate ([sep].intercalate items) = true ↔ ∀ item ∈ items, validate item = true := by
  induction items with
  | nil => exact iff_of_true rfl fun item member => absurd member List.not_mem_nil
  | cons item items ih =>
    cases items with
    | nil => rw [List.intercalate_singleton, List.forall_mem_singleton]
    | cons next items =>
      rw [List.intercalate_cons_cons, List.append_assoc, List.singleton_append,
        validate_separated low, ih, List.forall_mem_cons (a := item)]

/-- The items of a valid list are valid. -/
theorem validate_of_mem_gStrsplit (low : sep < 0x80) (valid : validate text)
    (member : item ∈ gStrsplit sep 0 text) : validate item := by
  rw [← intercalate_gStrsplit sep text, validate_intercalate low] at valid
  exact valid item member

end Valid

end Gebr.Lib.SeparatedList
