/-
**The shares of the weights, with every access to the arrays.**

`gebr_geoxml_flow_calculate_proportional_n` gives each weight the whole part of what it is worth,
deals what is left over from a position downwards, wrapping around at the first one, and writes the
shares back as weights. Here its numbers are signed and an index outside the arrays is a failure.

* `dealLeftOver`: the loop that deals what is left over, `none` when it indexes outside.
* `checkedProportionalN`: the whole function.
* `checkedProportionalN_eq`: it never fails and computes `gebrGeoxmlFlowCalculateProportionalN`.
* `checkedProportionalN_conserves` — **the shares add up to the total, the new weights to one**.
-/

import Gebr.Flow.LoopDivision
import Mathlib.Algebra.BigOperators.Ring.Finset

namespace Gebr.Flow

open Gebr.Lib.Shares

section Model

/-- The conversion of a real number to an integer: towards zero. -/
def truncate (x : ℚ) : ℤ := if 0 ≤ x then ⌊x⌋ else ⌈x⌉

/-- The `while` loop: `distributed_n[k]++`, `auxTotalN` times. -/
def dealLeftOver (nWeights : ℤ) : ℕ → ℤ → List ℤ → Option (List ℤ)
  | 0, _, distributedN => some distributedN
  | auxTotalN + 1, k, distributedN =>
    if 0 ≤ k ∧ k < nWeights then
      dealLeftOver nWeights auxTotalN (if k = 0 then nWeights - 1 else k - 1)
        (distributedN.modify k.toNat (· + 1))
    else none

/-- `gebr_geoxml_flow_calculate_proportional_n`: the shares, and the weights it leaves. -/
def checkedProportionalN (totalN : ℤ) (weights : List ℚ) : Option (List ℤ × List ℚ) :=
  let nWeights : ℤ := weights.length
  let distributedN := weights.map fun weight => truncate (totalN * weight)
  let auxTotalN := totalN - distributedN.sum
  let k := if totalN ≤ nWeights then totalN - 1 else nWeights - 1
  (dealLeftOver nWeights auxTotalN.toNat k distributedN).map fun distributedN =>
    (distributedN, distributedN.map fun share : ℤ => (share : ℚ) / totalN)

end Model

section Conservation

variable {totalN : ℕ} {weights : List ℚ}

theorem truncate_mul (totalN : ℕ) {weight : ℚ} (nonneg : 0 ≤ weight) :
    truncate ((totalN : ℤ) * weight) = (⌊(totalN : ℚ) * weight⌋₊ : ℤ) := by
  have worth : (0 : ℚ) ≤ totalN * weight := mul_nonneg (Nat.cast_nonneg totalN) nonneg
  rw [Int.cast_natCast, truncate, if_pos worth]
  exact (Int.natCast_floor_eq_floor worth).symm

/-- **The loop stays inside the array** once it starts there. -/
theorem dealLeftOver_eq (amount : ℕ) {k : ℕ} {shares : List ℕ} (inside : k < shares.length) :
    dealLeftOver shares.length amount k (shares.map Nat.cast) =
      some ((dealDown amount k shares).map Nat.cast) := by
  induction amount generalizing k shares with
  | zero => rfl
  | succ amount ih =>
    have dealt : (shares.map (Nat.cast : ℕ → ℤ)).modify k (· + 1) =
        (shares.modify k (· + 1)).map Nat.cast := by
      apply List.ext_getElem?
      intro position
      simp only [List.getElem?_modify, List.getElem?_map, Option.map_eq_map, Option.map_map]
      congr 1
      funext share
      show (if k = position then (share : ℤ) + 1 else share) =
        ((if k = position then share + 1 else share : ℕ) : ℤ)
      split <;> push_cast <;> rfl
    have next : (if (k : ℤ) = 0 then (shares.length : ℤ) - 1 else k - 1) =
        ((if k = 0 then shares.length - 1 else k - 1 : ℕ) : ℤ) := by
      split_ifs <;> omega
    have stays : (if k = 0 then shares.length - 1 else k - 1) <
        (shares.modify k (· + 1)).length := by
      rw [List.length_modify]
      split <;> omega
    have later := ih stays
    rw [List.length_modify] at later
    rw [dealLeftOver, if_pos ⟨Int.natCast_nonneg k, Int.ofNat_lt.2 inside⟩, Int.toNat_natCast, dealt,
      next, dealDown]
    exact later

theorem start_lt (some_n : 1 ≤ totalN) (some_weight : weights ≠ []) :
    (if totalN ≤ weights.length then totalN - 1 else weights.length - 1) < weights.length := by
  have filled := List.length_pos_iff.2 some_weight
  split <;> omega

/-- **No access fails**, and the shares are those of the unchecked function. -/
theorem checkedProportionalN_eq (some_n : 1 ≤ totalN) (some_weight : weights ≠ [])
    (nonneg : ∀ weight ∈ weights, 0 ≤ weight) (bounded : weights.sum ≤ 1) :
    checkedProportionalN totalN weights =
      some ((gebrGeoxmlFlowCalculateProportionalN totalN weights).map Nat.cast,
        (gebrGeoxmlFlowCalculateProportionalN totalN weights).map fun share : ℕ =>
          (share : ℚ) / totalN) := by
  have wholes : (weights.map fun weight => truncate ((totalN : ℤ) * weight)) =
      (weights.map fun weight => ⌊(totalN : ℚ) * weight⌋₊).map Nat.cast := by
    rw [List.map_map]
    exact List.map_congr_left fun weight member => truncate_mul totalN (nonneg weight member)
  have within := sum_wholes_le totalN nonneg bounded
  have left : ((totalN : ℤ) -
      ((weights.map fun weight => ⌊(totalN : ℚ) * weight⌋₊).map (Nat.cast : ℕ → ℤ)).sum).toNat =
        totalN - (weights.map fun weight => ⌊(totalN : ℚ) * weight⌋₊).sum := by
    rw [← Nat.cast_list_sum]
    omega
  have start : (if (totalN : ℤ) ≤ weights.length then (totalN : ℤ) - 1 else weights.length - 1) =
      ((if totalN ≤ weights.length then totalN - 1 else weights.length - 1 : ℕ) : ℤ) := by
    have filled := List.length_pos_iff.2 some_weight
    split_ifs <;> omega
  have inside : (if totalN ≤ weights.length then totalN - 1 else weights.length - 1) <
      (weights.map fun weight => ⌊(totalN : ℚ) * weight⌋₊).length := by
    rw [List.length_map]
    exact start_lt some_n some_weight
  have dealt := dealLeftOver_eq
    (totalN - (weights.map fun weight => ⌊(totalN : ℚ) * weight⌋₊).sum) inside
  rw [List.length_map] at dealt
  unfold checkedProportionalN
  simp only [wholes, left, start, dealt, Option.map_some]
  rw [List.map_map]
  rfl

/-- The shares add up to the total, be the weights fewer or more than the units. -/
theorem sum_proportionalN (some_n : 1 ≤ totalN) (some_weight : weights ≠ [])
    (nonneg : ∀ weight ∈ weights, 0 ≤ weight) (bounded : weights.sum ≤ 1) :
    (gebrGeoxmlFlowCalculateProportionalN totalN weights).sum = totalN := by
  have within := sum_wholes_le totalN nonneg bounded
  unfold gebrGeoxmlFlowCalculateProportionalN
  rw [sum_dealDown]
  · omega
  · rw [List.length_map]
    exact start_lt some_n some_weight

/-- Each weight keeps at least the whole part of what it is worth. -/
theorem floor_le_proportionalN {position share : ℕ} {weight : ℚ}
    (weighed : weights[position]? = some weight)
    (shared : (gebrGeoxmlFlowCalculateProportionalN totalN weights)[position]? = some share) :
    ⌊(totalN : ℚ) * weight⌋₊ ≤ share := by
  have whole : (weights.map fun weight => ⌊(totalN : ℚ) * weight⌋₊)[position]? =
      some ⌊(totalN : ℚ) * weight⌋₊ := by
    rw [List.getElem?_map, weighed]
    rfl
  obtain ⟨after, last, more⟩ := le_dealDown _ _ _ whole
  obtain rfl : after = share := Option.some.inj (last.symm.trans shared)
  exact more

/-- **Proportional distribution conserves the total.** For a total and weights that are not negative
and add up to at most one, the function stays inside its arrays; the shares are not negative, each
is at least the whole part of what its weight is worth, they add up to the total, and the weights it
leaves add up to one. -/
theorem checkedProportionalN_conserves {totalN : ℤ} {weights : List ℚ} (some_n : 1 ≤ totalN)
    (some_weight : weights ≠ []) (nonneg : ∀ weight ∈ weights, 0 ≤ weight)
    (bounded : weights.sum ≤ 1) :
    ∃ shares rewritten, checkedProportionalN totalN weights = some (shares, rewritten) ∧
      shares.length = weights.length ∧
      (∀ share ∈ shares, 0 ≤ share) ∧
      shares.sum = totalN ∧
      (∀ (i : ℕ) (weight : ℚ) (share : ℤ), weights[i]? = some weight → shares[i]? = some share →
        ⌊(totalN : ℚ) * weight⌋ ≤ share) ∧
      rewritten.length = weights.length ∧
      rewritten.sum = 1 := by
  obtain ⟨total, rfl⟩ := Int.eq_ofNat_of_zero_le (show 0 ≤ totalN by omega)
  have some_total : 1 ≤ total := by exact_mod_cast some_n
  have computed := checkedProportionalN_eq some_total some_weight nonneg bounded
  have total_eq := sum_proportionalN some_total some_weight nonneg bounded
  refine ⟨_, _, computed, by simp, ?_, ?_, ?_, by simp, ?_⟩
  · intro share member
    obtain ⟨units, _, rfl⟩ := List.mem_map.1 member
    exact Int.natCast_nonneg units
  · rw [← Nat.cast_list_sum, total_eq]
  · intro i weight share weighed shared
    rw [List.getElem?_map, Option.map_eq_some_iff] at shared
    obtain ⟨units, found, rfl⟩ := shared
    have worth : (0 : ℚ) ≤ total * weight :=
      mul_nonneg (Nat.cast_nonneg total) (nonneg weight (List.mem_of_getElem? weighed))
    have whole := floor_le_proportionalN weighed found
    rw [Int.cast_natCast, ← Int.natCast_floor_eq_floor worth]
    exact_mod_cast whole
  · have positive : (total : ℚ) ≠ 0 := Nat.cast_ne_zero.2 (by omega)
    simp only [div_eq_mul_inv]
    rw [List.sum_map_mul_right, ← Nat.cast_list_sum, total_eq, mul_inv_cancel₀ positive]

/-- Two units for three weights: both are left over, and go to the second and the first. -/
theorem checkedProportionalN_conserves_two :
    ∃ shares rewritten, checkedProportionalN 2 [1/3, 1/3, 1/3] = some (shares, rewritten) ∧
      shares.length = 3 ∧
      (∀ share ∈ shares, 0 ≤ share) ∧
      shares.sum = 2 ∧
      (∀ (i : ℕ) (weight : ℚ) (share : ℤ), [1/3, 1/3, 1/3][i]? = some weight →
        shares[i]? = some share → ⌊((2 : ℤ) : ℚ) * weight⌋ ≤ share) ∧
      rewritten.length = 3 ∧
      rewritten.sum = 1 :=
  checkedProportionalN_conserves (by decide) (by simp) (by simp) (by norm_num)

example : checkedProportionalN 2 [1/3, 1/3, 1/3] = some ([1, 1, 0], [1/2, 1/2, 0]) := by decide +kernel

end Conservation

end Gebr.Flow
