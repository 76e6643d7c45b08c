/-
**Items chosen from the sections of a list.**

A list is made of sections, each with a tag. Some of its items are chosen, by what they are and by
the items before them, and each item that is chosen is known by the tag of its section.

* `chosen`: the tags of the items that are chosen, in order.
* `times`: how many items of a section are chosen.
* `OnceEach`: one item of every section is chosen.
* `chosen_sections_iff` — **the tags come out as the sections are** iff one item of each is chosen,
  where no two sections have one tag.
-/

import Mathlib.Data.List.Nodup

namespace Gebr.Lib.Sections

variable {ι α : Type*} (choose : List α → α → Bool)

/-- The tags of the items that are chosen, after the items of a list. -/
def chosen : List α → List (ι × α) → List ι
  | _, [] => []
  | before, (tag, item) :: rest =>
    if choose before item then tag :: chosen (before ++ [item]) rest
    else chosen (before ++ [item]) rest

/-- How many items are chosen, after the items of a list. -/
def times : List α → List α → ℕ
  | _, [] => 0
  | before, item :: rest => (if choose before item then 1 else 0) + times (before ++ [item]) rest

/-- The items of the sections, each with the tag of its section. -/
def tagged (sections : List (ι × List α)) : List (ι × α) :=
  sections.flatMap fun part => part.2.map fun item => (part.1, item)

/-- One item of every section is chosen. -/
def OnceEach : List α → List (ι × List α) → Prop
  | _, [] => True
  | before, part :: rest => times choose before part.2 = 1 ∧ OnceEach (before ++ part.2) rest

variable {choose}

theorem chosen_append (before : List α) (front back : List (ι × α)) :
    chosen choose before (front ++ back) =
      chosen choose before front ++ chosen choose (before ++ front.map Prod.snd) back := by
  induction front generalizing before with
  | nil => simp [chosen]
  | cons head front ih =>
    obtain ⟨tag, item⟩ := head
    rw [List.cons_append, chosen, chosen, ih, List.map_cons, List.append_assoc, List.singleton_append]
    split_ifs <;> rfl

/-- **Within one section** the tag is there as often as an item is chosen. -/
theorem chosen_section (before : List α) (tag : ι) (items : List α) :
    chosen choose before (items.map fun item => (tag, item)) =
      List.replicate (times choose before items) tag := by
  induction items generalizing before with
  | nil => rfl
  | cons item items ih =>
    rw [List.map_cons, chosen, times, ih]
    split_ifs
    · rw [Nat.add_comm, List.replicate_succ]
    · rw [Nat.zero_add]

theorem chosen_tagged_cons (before : List α) (part : ι × List α) (rest : List (ι × List α)) :
    chosen choose before (tagged (part :: rest)) =
      List.replicate (times choose before part.2) part.1 ++
        chosen choose (before ++ part.2) (tagged rest) := by
  rw [tagged, List.flatMap_cons, chosen_append, chosen_section, List.map_map]
  congr 2
  simp [Function.comp_def]

/-- A tag that comes out is the tag of a section. -/
theorem mem_of_mem_chosen {before : List α} {sections : List (ι × List α)} {tag : ι}
    (member : tag ∈ chosen choose before (tagged sections)) : tag ∈ sections.map Prod.fst := by
  induction sections generalizing before with
  | nil => exact absurd member List.not_mem_nil
  | cons part rest ih =>
    rw [chosen_tagged_cons, List.mem_append] at member
    rw [List.map_cons, List.mem_cons]
    rcases member with here | later
    · exact .inl (List.eq_of_mem_replicate here)
    · exact .inr (ih later)

/-- **The tags come out as the sections are** iff one item of each section is chosen. -/
theorem chosen_sections_iff {before : List α} {sections : List (ι × List α)}
    (distinct : (sections.map Prod.fst).Nodup) :
    chosen choose before (tagged sections) = sections.map Prod.fst ↔
      OnceEach choose before sections := by
  induction sections generalizing before with
  | nil => exact iff_of_true rfl trivial
  | cons part rest ih =>
    rw [List.map_cons, List.nodup_cons] at distinct
    obtain ⟨fresh, distinct⟩ := distinct
    rw [chosen_tagged_cons, List.map_cons, OnceEach, ← ih distinct]
    constructor
    · intro same
      cases count : times choose before part.2 with
      | zero =>
        -- the tag would come out of a later section
        rw [count, List.replicate_zero, List.nil_append] at same
        have later : part.1 ∈ chosen choose (before ++ part.2) (tagged rest) :=
          same ▸ List.mem_cons_self
        exact absurd (mem_of_mem_chosen later) fresh
      | succ more =>
        rw [count, List.replicate_succ, List.cons_append, List.cons.injEq] at same
        cases more with
        | zero => exact ⟨rfl, same.2⟩
        | succ again =>
          have twice : part.1 ∈ rest.map Prod.fst := by
            rw [← same.2, List.replicate_succ]
            exact List.mem_cons_self
          exact absurd twice fresh
    · rintro ⟨once, others⟩
      rw [once, others]
      rfl

end Gebr.Lib.Sections
