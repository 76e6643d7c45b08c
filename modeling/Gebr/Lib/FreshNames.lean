/-
**Names numbered apart.**

Names come one by one. One that is taken already is replaced by the first of its candidates, in
their order, that is not.

* `firstFree`, `firstFree_free`: the search ends, since there are more candidates than taken names.
* `numbered`: the names in their order; `numbered_nodup`, `numbered_free`: they are distinct and
  none was taken; `mem_numbered_of_mem`: each name is used, by itself or by one before it.
-/

import Mathlib.Data.List.Basic
import Mathlib.Data.List.Nodup
import Mathlib.Data.List.Perm.Subperm

namespace Gebr.Lib

variable {α : Type*} [DecidableEq α]

/-- The first candidate from the index on that is not taken. -/
def firstFree (taken : List α) (candidate : ℕ → α) : ℕ → ℕ → α
  | 0, j => candidate j
  | fuel + 1, j => if candidate j ∈ taken then firstFree taken candidate fuel (j + 1) else candidate j

/-- The names one after another, where `candidate name` gives the candidates of a name that is
taken. -/
def numbered (candidate : α → ℕ → α) : List α → List α → List α
  | _, [] => []
  | taken, name :: names =>
    let given := if name ∈ taken then firstFree taken (candidate name) taken.length 1 else name
    given :: numbered candidate (given :: taken) names

variable {taken : List α} {candidate : ℕ → α}

/-- A search that ends at a taken name has seen taken names only. -/
theorem firstFree_taken {fuel j : ℕ} (found : firstFree taken candidate fuel j ∈ taken) :
    ∀ i ≤ fuel, candidate (j + i) ∈ taken := by
  induction fuel generalizing j with
  | zero =>
    intro i least
    rw [Nat.le_zero.1 least]
    exact found
  | succ fuel ih =>
    rw [firstFree] at found
    split at found
    · rename_i here
      intro i least
      cases i with
      | zero => exact here
      | succ i =>
        rw [← Nat.succ_add_eq_add_succ]
        exact ih found i (Nat.succ_le_succ_iff.1 least)
    · rename_i free
      exact absurd found free

/-- **The search finds a free name**: there are more candidates than taken names. -/
theorem firstFree_free (distinct : Function.Injective candidate) (j : ℕ) :
    firstFree taken candidate taken.length j ∉ taken := by
  intro found
  have all := firstFree_taken found
  have nodup : ((List.range (taken.length + 1)).map fun i => candidate (j + i)).Nodup :=
    List.nodup_range.map fun i k same => Nat.add_left_cancel (distinct same)
  have subset : ((List.range (taken.length + 1)).map fun i => candidate (j + i)) ⊆ taken := by
    intro name member
    obtain ⟨i, small, rfl⟩ := List.mem_map.1 member
    exact all i (Nat.lt_succ_iff.1 (List.mem_range.1 small))
  have many := (List.subperm_of_subset nodup subset).length_le
  rw [List.length_map, List.length_range] at many
  exact Nat.not_succ_le_self _ many

theorem firstFree_candidate (fuel j : ℕ) : ∃ i, firstFree taken candidate fuel j = candidate i := by
  induction fuel generalizing j with
  | zero => exact ⟨j, rfl⟩
  | succ fuel ih =>
    rw [firstFree]
    split
    · exact ih (j + 1)
    · exact ⟨j, rfl⟩

variable {candidate : α → ℕ → α} {names : List α}

theorem numbered_cons (taken : List α) (name : α) (names : List α) :
    ∃ given, numbered candidate taken (name :: names) = given :: numbered candidate
      (given :: taken) names ∧ (given = name ∨ name ∈ taken ∧ ∃ i, given = candidate name i) := by
  rw [numbered]
  by_cases used : name ∈ taken
  · refine ⟨_, rfl, Or.inr ⟨used, ?_⟩⟩
    rw [if_pos used]
    exact firstFree_candidate _ _
  · exact ⟨_, rfl, Or.inl (if_neg used)⟩

/-- **No name was taken.** -/
theorem numbered_free (distinct : ∀ name, Function.Injective (candidate name)) {given : α}
    (member : given ∈ numbered candidate taken names) : given ∉ taken := by
  induction names generalizing taken with
  | nil => exact absurd member List.not_mem_nil
  | cons name names ih =>
    rw [numbered] at member
    rcases List.mem_cons.1 member with rfl | later
    · split
      · exact firstFree_free (distinct name) 1
      · assumption
    · exact fun before => ih later (List.mem_cons_of_mem _ before)

/-- **The names are distinct.** -/
theorem numbered_nodup (distinct : ∀ name, Function.Injective (candidate name))
    (taken names : List α) : (numbered candidate taken names).Nodup := by
  induction names generalizing taken with
  | nil => exact List.nodup_nil
  | cons name names ih =>
    refine List.nodup_cons.2 ⟨fun member => ?_, ih _⟩
    exact numbered_free distinct member List.mem_cons_self

theorem mem_numbered_of_mem {name : α} (member : name ∈ names) :
    name ∈ taken ∨ name ∈ numbered candidate taken names := by
  induction names generalizing taken with
  | nil => exact absurd member List.not_mem_nil
  | cons first names ih =>
    obtain ⟨given, cons, origin⟩ := @numbered_cons _ _ candidate taken first names
    rw [cons]
    rcases List.mem_cons.1 member with rfl | later
    · rcases origin with rfl | ⟨used, -⟩
      · exact Or.inr List.mem_cons_self
      · exact Or.inl used
    · rcases @ih (given :: taken) later with before | after
      · rcases List.mem_cons.1 before with rfl | before
        · exact Or.inr List.mem_cons_self
        · exact Or.inl before
      · exact Or.inr (List.mem_cons_of_mem _ after)

/-- A name is one of those that came, or a candidate of one of them. -/
theorem numbered_origin {given : α} (member : given ∈ numbered candidate taken names) :
    ∃ name ∈ names, given = name ∨ ∃ i, given = candidate name i := by
  induction names generalizing taken with
  | nil => exact absurd member List.not_mem_nil
  | cons name names ih =>
    obtain ⟨first, cons, origin⟩ := @numbered_cons _ _ candidate taken name names
    rw [cons] at member
    rcases List.mem_cons.1 member with rfl | later
    · exact ⟨name, List.mem_cons_self, origin.imp_right fun used => used.2⟩
    · obtain ⟨other, there, from'⟩ := ih later
      exact ⟨other, List.mem_cons_of_mem _ there, from'⟩

end Gebr.Lib
