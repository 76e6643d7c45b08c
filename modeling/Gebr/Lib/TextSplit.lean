/-
**A text cut at a separator of several bytes.**

* `splitText`, `gStrsplitText`: the pieces, by searches from the left.
* `intercalate_splitText` — **the pieces joined again are the text**.
* `splitText_intercalate_iff` — **when joined items are cut apart again**: no item that is followed
  by the separator makes it begin too early.
-/

import Gebr.Lib.CString

namespace Gebr.Lib.TextSplit

open Gebr.Lib.CString

section Model

/-- The pieces of a text that is cut at most so many times. -/
def splitText (sep : List UInt8) : ℕ → List UInt8 → List (List UInt8)
  | 0, s => [s]
  | cuts + 1, s =>
    match strstr sep s with
    | none => [s]
    | some place => s.take place :: splitText sep cuts (s.drop (place + sep.length))

/-- `g_strsplit` with a separator that is not empty, and with no bound on the pieces. -/
def gStrsplitText (sep s : List UInt8) : List (List UInt8) :=
  if s = [] then [] else splitText sep s.length s

end Model

section Pieces

variable {sep s front : List UInt8}

theorem splitText_ne_nil (cuts : ℕ) : splitText sep cuts s ≠ [] := by
  cases cuts with
  | zero => exact List.cons_ne_nil s []
  | succ cuts =>
    unfold splitText
    split <;> exact List.cons_ne_nil _ _

theorem splitText_one (some_byte : sep ≠ []) (clean : ¬ sep <:+: s) (cuts : ℕ) :
    splitText sep cuts s = [s] := by
  cases cuts with
  | zero => rfl
  | succ cuts =>
    unfold splitText
    rw [(strstr_eq_none some_byte).2 clean]

/-- The first piece ends where the separator first begins. -/
theorem splitText_cut (some_byte : sep ≠ []) (first : ¬ sep <:+: front ++ sep.dropLast) (cuts : ℕ)
    (rest : List UInt8) :
    splitText sep (cuts + 1) (front ++ sep ++ rest) = front :: splitText sep cuts rest := by
  have whole : front ++ sep ++ rest = (front ++ sep) ++ rest := rfl
  rw [splitText, strstr_first first some_byte]
  dsimp only
  rw [← List.length_append, whole, List.drop_left, List.append_assoc, List.take_left]

/-- The last cut, or the first one with the piece in front of it. -/
theorem splitText_cases (some_byte : sep ≠ []) (cuts : ℕ) (s : List UInt8) :
    (¬ sep <:+: s ∧ splitText sep (cuts + 1) s = [s]) ∨
    ∃ front rest, s = front ++ sep ++ rest ∧ ¬ sep <:+: front ++ sep.dropLast ∧
      splitText sep (cuts + 1) s = front :: splitText sep cuts rest := by
  cases search : strstr sep s with
  | none =>
    have clean := (strstr_eq_none some_byte).1 search
    exact .inl ⟨clean, splitText_one some_byte clean _⟩
  | some place =>
    obtain ⟨front, rest, rfl, -, first⟩ := strstr_parts some_byte search
    exact .inr ⟨front, rest, rfl, first, splitText_cut some_byte first cuts rest⟩

/-- **The pieces joined again are the text.** -/
theorem intercalate_splitText (some_byte : sep ≠ []) (cuts : ℕ) (s : List UInt8) :
    sep.intercalate (splitText sep cuts s) = s := by
  induction cuts generalizing s with
  | zero => exact List.intercalate_singleton
  | succ cuts ih =>
    rcases splitText_cases some_byte cuts s with ⟨-, one⟩ | ⟨front, rest, rfl, -, cut⟩
    · rw [one, List.intercalate_singleton]
    · obtain ⟨piece, pieces, shape⟩ := List.exists_cons_of_ne_nil (@splitText_ne_nil sep rest cuts)
      have joined := ih rest
      rw [cut, shape] at *
      rw [List.intercalate_cons_cons, joined]

/-- **A byte of a piece is one of the text.** -/
theorem mem_of_mem_splitText (some_byte : sep ≠ []) {cuts : ℕ} {piece : List UInt8} {b : UInt8}
    (here : piece ∈ splitText sep cuts s) (member : b ∈ piece) : b ∈ s := by
  induction cuts generalizing s with
  | zero => rwa [← List.mem_singleton.1 here]
  | succ cuts ih =>
    rcases splitText_cases some_byte cuts s with ⟨-, one⟩ | ⟨front, rest, rfl, -, cut⟩
    · rw [one] at here
      rwa [← List.mem_singleton.1 here]
    · rw [cut] at here
      rcases List.mem_cons.1 here with rfl | later
      · exact List.mem_append_left rest (List.mem_append_left sep member)
      · exact List.mem_append_right (front ++ sep) (ih later)

end Pieces

section Items

variable {sep : List UInt8} {items : List (List UInt8)}

/-- **When joined items are cut apart again.** -/
theorem splitText_intercalate_iff (some_byte : sep ≠ []) (some_item : items ≠ [])
    (clean : ∀ item ∈ items, ¬ sep <:+: item) {cuts : ℕ} (enough : items.length ≤ cuts + 1) :
    splitText sep cuts (sep.intercalate items) = items ↔
      ∀ item ∈ items.dropLast, ¬ sep <:+: item ++ sep.dropLast := by
  induction items generalizing cuts with
  | nil => exact absurd rfl some_item
  | cons item items ih =>
    cases items with
    | nil =>
      rw [List.intercalate_singleton, splitText_one some_byte (clean item List.mem_cons_self)]
      simp
    | cons next items =>
      obtain ⟨cuts, rfl⟩ : ∃ fewer, cuts = fewer + 1 := ⟨cuts - 1, by simp at enough; omega⟩
      have fewer : (next :: items).length ≤ cuts + 1 := Nat.le_of_succ_le_succ enough
      have rest := ih (List.cons_ne_nil next items)
        (fun one member => clean one (List.mem_cons_of_mem item member)) fewer
      rw [List.intercalate_cons_cons, List.dropLast_cons_cons, List.forall_mem_cons, ← rest]
      constructor
      · intro same
        rcases splitText_cases some_byte cuts (item ++ sep ++ sep.intercalate (next :: items)) with
          ⟨away, -⟩ | ⟨front, behind, split, first, cut⟩
        · exact absurd ⟨item, _, rfl⟩ away
        · rw [cut, List.cons.injEq] at same
          obtain ⟨rfl, same⟩ := same
          rw [List.append_cancel_left split]
          exact ⟨first, same⟩
      · rintro ⟨first, same⟩
        rw [splitText_cut some_byte first, same]

theorem length_le_intercalate (some_byte : sep ≠ []) (items : List (List UInt8)) :
    items.length ≤ (sep.intercalate items).length + 1 := by
  induction items with
  | nil => exact Nat.zero_le _
  | cons item items ih =>
    have positive := List.length_pos_iff_ne_nil.2 some_byte
    cases items with
    | nil => simp
    | cons next items =>
      rw [List.intercalate_cons_cons]
      simp only [List.length_cons, List.length_append] at ih ⊢
      omega

end Items

end Gebr.Lib.TextSplit
