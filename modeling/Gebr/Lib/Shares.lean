/-
**Shares of a total.**

A total is cut into shares: the whole part of each weight first, then what is left over, one by one
from the end of the list.

* `dealDown`: what is left over, dealt from position `k` down to the first, then from the last.
* `dealDown_pos_iff`: which positions have got a share in the end.
* `sum_wholes_le`: the whole parts of weights that add up to at most one never exceed the total.
* `LeadingPositive`, `leading_sum_iff`: the shares in front of the first empty one are all of them
  just when no share stands behind an empty one.
* `spread`, `sum_spread`, `spread_marked`: an equal share for each of the marked places, and one
  more for the first ones.
* `Partitions`, `partitions_iff`: parts that are a beginning of a list without repetitions, one
  after the other, partition it just when they are as long as the list.
-/

import Mathlib.Algebra.BigOperators.Group.List.Basic
import Mathlib.Algebra.Order.BigOperators.Group.List
import Mathlib.Algebra.Order.Floor.Semiring
import Mathlib.Data.List.Basic
import Mathlib.Data.List.Nodup
import Mathlib.Data.Rat.Floor

namespace Gebr.Lib.Shares

section Dealing

/-- `amount` units, one by one: the next one goes to position `k`, and the one after it to the
position before, or to the last one after the first. -/
def dealDown : ℕ → ℕ → List ℕ → List ℕ
  | 0, _, shares => shares
  | amount + 1, k, shares =>
    dealDown amount (if k = 0 then shares.length - 1 else k - 1) (shares.modify k (· + 1))

@[simp] theorem length_dealDown (amount k : ℕ) (shares : List ℕ) :
    (dealDown amount k shares).length = shares.length := by
  induction amount generalizing k shares with
  | zero => rfl
  | succ amount ih =>
    rw [dealDown, ih]
    exact List.length_modify _ _ _

theorem sum_modify_succ (shares : List ℕ) {k : ℕ} (inside : k < shares.length) :
    (shares.modify k (· + 1)).sum = shares.sum + 1 := by
  induction shares generalizing k with
  | nil => exact absurd inside (Nat.not_lt_zero k)
  | cons share shares ih =>
    cases k with
    | zero =>
      simp only [List.modify_zero_cons, List.sum_cons]
      omega
    | succ k =>
      have rest := ih (Nat.lt_of_succ_lt_succ inside)
      simp only [List.modify_succ_cons, List.sum_cons, rest]
      omega

/-- **Every unit is dealt.** -/
theorem sum_dealDown (amount : ℕ) {k : ℕ} {shares : List ℕ} (inside : k < shares.length) :
    (dealDown amount k shares).sum = shares.sum + amount := by
  induction amount generalizing k shares with
  | zero => rfl
  | succ amount ih =>
    have stays : (if k = 0 then shares.length - 1 else k - 1) < (shares.modify k (· + 1)).length := by
      rw [List.length_modify]
      split <;> omega
    rw [dealDown, ih stays, sum_modify_succ shares inside]
    omega

theorem getElem?_dealt (k : ℕ) {shares : List ℕ} {position before : ℕ}
    (held : shares[position]? = some before) :
    (shares.modify k (· + 1))[position]? = some (if k = position then before + 1 else before) := by
  rw [List.getElem?_modify, held]
  split <;> rfl

theorem le_dealDown (amount k : ℕ) (shares : List ℕ) {position before : ℕ}
    (held : shares[position]? = some before) :
    ∃ after, (dealDown amount k shares)[position]? = some after ∧ before ≤ after := by
  induction amount generalizing k shares before with
  | zero => exact ⟨before, held, le_refl before⟩
  | succ amount ih =>
    have dealt := getElem?_dealt k held
    obtain ⟨after, last, more⟩ := ih (if k = 0 then shares.length - 1 else k - 1) _ dealt
    refine ⟨after, last, le_trans ?_ more⟩
    split <;> omega

/-- **A position at or below the first one served has a share in the end just when it had one, or
the units reach down to it.** -/
theorem dealDown_pos_iff (amount : ℕ) {k position before after : ℕ} {shares : List ℕ}
    (below : position ≤ k) (held : shares[position]? = some before)
    (last : (dealDown amount k shares)[position]? = some after) :
    0 < after ↔ 0 < before ∨ k < amount + position := by
  induction amount generalizing k shares before with
  | zero =>
    obtain rfl : before = after := Option.some.inj (held.symm.trans last)
    omega
  | succ amount ih =>
    have dealt := getElem?_dealt k held
    rw [dealDown] at last
    by_cases here : k = position
    · obtain ⟨end', reached, more⟩ :=
        le_dealDown amount (if k = 0 then shares.length - 1 else k - 1) _ dealt
      obtain rfl : end' = after := Option.some.inj (reached.symm.trans last)
      rw [if_pos here] at more
      exact iff_of_true (by omega) (by omega)
    · rw [if_neg here] at dealt
      rw [if_neg (show k ≠ 0 by omega)] at last
      rw [ih (show position ≤ k - 1 by omega) dealt last]
      omega

end Dealing

section Wholes

/-- **Whole parts never exceed the total.** -/
theorem sum_wholes_le (total : ℕ) {weights : List ℚ} (nonneg : ∀ weight ∈ weights, 0 ≤ weight)
    (bounded : weights.sum ≤ 1) :
    (weights.map fun weight => ⌊(total : ℚ) * weight⌋₊).sum ≤ total := by
  have parts : ∀ weights : List ℚ, (∀ weight ∈ weights, 0 ≤ weight) →
      (((weights.map fun weight => ⌊(total : ℚ) * weight⌋₊).sum : ℕ) : ℚ) ≤ total * weights.sum := by
    intro weights nonneg
    induction weights with
    | nil => simp
    | cons weight weights ih =>
      have rest := ih fun other member => nonneg other (List.mem_cons_of_mem _ member)
      have whole : ((⌊(total : ℚ) * weight⌋₊ : ℕ) : ℚ) ≤ total * weight :=
        Nat.floor_le (mul_nonneg (Nat.cast_nonneg total) (nonneg weight List.mem_cons_self))
      simp only [List.map_cons, List.sum_cons, Nat.cast_add, mul_add]
      exact add_le_add whole rest
  have scaled : (total : ℚ) * weights.sum ≤ total :=
    mul_le_of_le_one_right (Nat.cast_nonneg total) bounded
  exact_mod_cast (parts weights nonneg).trans scaled

end Wholes

section Leading

/-- No share stands behind an empty one. -/
def LeadingPositive (shares : List ℕ) : Prop :=
  shares.Pairwise fun first later => 0 < later → 0 < first

/-- The shares in front of the first empty one. -/
def leading (shares : List ℕ) : List ℕ := shares.takeWhile (0 < ·)

theorem leading_cons_pos {share : ℕ} (positive : 0 < share) (shares : List ℕ) :
    leading (share :: shares) = share :: leading shares :=
  List.takeWhile_cons_of_pos (decide_eq_true positive)

theorem leading_cons_zero (shares : List ℕ) : leading (0 :: shares) = [] :=
  List.takeWhile_cons_of_neg (by decide)

theorem leading_begins (shares : List ℕ) : leading shares <+: shares := List.takeWhile_prefix _

theorem pos_of_mem_leading {shares : List ℕ} {share : ℕ} (member : share ∈ leading shares) :
    0 < share :=
  of_decide_eq_true (List.all_eq_true.1 List.all_takeWhile share member)

theorem leading_sum_le (shares : List ℕ) : (leading shares).sum ≤ shares.sum :=
  (leading_begins shares).sublist.sum_le_sum fun _ _ => Nat.zero_le _

/-- **The leading shares add up to all of them just when no share stands behind an empty one.** -/
theorem leading_sum_iff (shares : List ℕ) :
    (leading shares).sum = shares.sum ↔ LeadingPositive shares := by
  induction shares with
  | nil => exact iff_of_true rfl List.Pairwise.nil
  | cons share shares ih =>
    unfold LeadingPositive at ih ⊢
    rw [List.pairwise_cons]
    rcases Nat.eq_zero_or_pos share with rfl | positive
    · rw [leading_cons_zero, List.sum_nil, List.sum_cons, Nat.zero_add, eq_comm, List.sum_eq_zero_iff]
      constructor
      · intro empty
        have absent : ∀ later ∈ shares, ¬ 0 < later := fun later member => by
          rw [empty later member]
          exact Nat.lt_irrefl 0
        exact ⟨fun later member positive => absurd positive (absent later member),
          List.pairwise_of_forall_mem_list fun _ _ later member positive =>
            absurd positive (absent later member)⟩
      · intro ⟨front, _⟩ later member
        by_contra held
        exact Nat.lt_irrefl 0 (front later member (Nat.pos_of_ne_zero held))
    · rw [leading_cons_pos positive, List.sum_cons, List.sum_cons, Nat.add_left_cancel_iff, ih]
      exact ⟨fun rest => ⟨fun _ _ _ => positive, rest⟩, And.right⟩

end Leading

section Spreading

/-- An equal share for each of the marked places, and one more for the first `extra` of them. -/
def spread (share : ℤ) : ℕ → List Bool → List ℤ
  | _, [] => []
  | extra, false :: marks => 0 :: spread share extra marks
  | 0, true :: marks => share :: spread share 0 marks
  | extra + 1, true :: marks => (share + 1) :: spread share extra marks

variable (share : ℤ) (extra : ℕ) (marks : List Bool)

@[simp] theorem length_spread : (spread share extra marks).length = marks.length := by
  induction extra, marks using spread.induct with
  | case1 => rfl
  | case2 extra marks ih => exact congrArg Nat.succ ih
  | case3 marks ih => exact congrArg Nat.succ ih
  | case4 marks extra ih => exact congrArg Nat.succ ih

/-- **Every unit is spread**, where there are more places than units are left over. -/
theorem sum_spread (fits : extra ≤ marks.count true) :
    (spread share extra marks).sum = share * (marks.count true : ℕ) + extra := by
  induction extra, marks using spread.induct with
  | case1 extra =>
    obtain rfl : extra = 0 := Nat.le_zero.1 fits
    simp [spread]
  | case2 extra marks ih =>
    rw [List.count_cons_of_ne (by decide)] at fits ⊢
    rw [spread, List.sum_cons, zero_add, ih fits]
  | case3 marks ih =>
    rw [spread, List.sum_cons, ih (Nat.zero_le _), List.count_cons_self]
    push_cast
    ring
  | case4 marks extra ih =>
    rw [List.count_cons_self] at fits ⊢
    rw [spread, List.sum_cons, ih (Nat.le_of_succ_le_succ fits)]
    push_cast
    ring

/-- **What a marked place has**: the share, and one more where fewer than `extra` marks stand before
it. -/
theorem spread_marked {j : ℕ} (marked : marks[j]? = some true) :
    (spread share extra marks)[j]? =
      some (share + if (marks.take j).count true < extra then 1 else 0) := by
  induction extra, marks using spread.induct generalizing j with
  | case1 => exact nomatch marked
  | case2 extra marks ih =>
    cases j with
    | zero => exact nomatch marked
    | succ j =>
      rw [List.take_succ_cons, List.count_cons_of_ne (by decide)]
      exact ih marked
  | case3 marks ih =>
    cases j with
    | zero => simp [spread]
    | succ j =>
      have rest := ih (j := j) marked
      rw [if_neg (Nat.not_lt_zero _)] at rest ⊢
      exact rest
  | case4 marks extra ih =>
    cases j with
    | zero => simp [spread]
    | succ j =>
      have rest := ih (j := j) marked
      rw [List.take_succ_cons, List.count_cons_self]
      simp only [Nat.succ_lt_succ_iff] at rest ⊢
      exact rest

/-- No other place has anything. -/
theorem spread_unmarked {j : ℕ} (other : marks[j]? ≠ some true) :
    (spread share extra marks)[j]?.getD 0 = 0 := by
  induction extra, marks using spread.induct generalizing j with
  | case1 => rfl
  | case2 extra marks ih =>
    cases j with
    | zero => rfl
    | succ j => exact ih other
  | case3 marks ih =>
    cases j with
    | zero => exact absurd rfl other
    | succ j => exact ih other
  | case4 marks extra ih =>
    cases j with
    | zero => exact absurd rfl other
    | succ j => exact ih other

end Spreading

section Parts

variable {α : Type*}

/-- Every element of the whole is in exactly one of the parts, and the parts hold no other. -/
structure Partitions (parts : List (List α)) (whole : List α) : Prop where
  once : ∀ x ∈ whole, ∃! k : ℕ, ∃ part, parts[k]? = some part ∧ x ∈ part
  only : ∀ part ∈ parts, ∀ x ∈ part, x ∈ whole

/-- Parts that are the whole one after the other partition it. -/
theorem partitions_of_flatten {parts : List (List α)} {whole : List α} (distinct : whole.Nodup)
    (joined : parts.flatten = whole) : Partitions parts whole := by
  subst joined
  have apart := (List.nodup_flatten.1 distinct).2
  refine ⟨fun x member => ?_, fun part member x inside => List.mem_flatten.2 ⟨part, member, inside⟩⟩
  obtain ⟨part, listed, inside⟩ := List.mem_flatten.1 member
  obtain ⟨k, found⟩ := List.getElem?_of_mem listed
  refine ⟨k, ⟨part, found, inside⟩, ?_⟩
  rintro other ⟨part', found', inside'⟩
  obtain ⟨bound, rfl⟩ := List.getElem?_eq_some_iff.1 found
  obtain ⟨bound', rfl⟩ := List.getElem?_eq_some_iff.1 found'
  have disjoint := List.pairwise_iff_getElem.1 apart
  rcases lt_trichotomy other k with before | same | after
  · exact absurd inside (disjoint other k bound' bound before inside')
  · exact same
  · exact absurd inside' (disjoint k other bound bound' after inside)

/-- **Parts that begin a list without repetitions partition it just when nothing is missing.** -/
theorem partitions_iff {parts : List (List α)} {whole : List α} (distinct : whole.Nodup)
    (begins : parts.flatten <+: whole) :
    Partitions parts whole ↔ parts.flatten.length = whole.length := by
  constructor
  · intro split
    have covered : whole ⊆ parts.flatten := fun x member => by
      obtain ⟨k, ⟨part, found, inside⟩, _⟩ := split.once x member
      exact List.mem_flatten.2 ⟨part, List.mem_of_getElem? found, inside⟩
    exact le_antisymm begins.length_le (List.subperm_of_subset distinct covered).length_le
  · intro full
    exact partitions_of_flatten distinct (begins.eq_of_length full)

end Parts

end Gebr.Lib.Shares
