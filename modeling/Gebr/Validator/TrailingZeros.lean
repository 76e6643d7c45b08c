/-
**The zeros at the end of a printed number.**

A value is printed with ten decimals, and the zeros at the end are taken off.

* `gebrStrRemoveTrailingZeros`: a text without the zeros at its end, and without a point before
  them.
* `Numeral`: digits, with a sign or without, with a fraction or without.
* `remove_eq`: what is left, by what is before the zeros.
* `zeros_off` — **a fraction keeps its value**, and a whole number loses its zeros.
* `hundred`: a whole number that ends in zeros.
-/

import Gebr.Lib.CString
import Mathlib.Algebra.Order.Field.Rat
import Mathlib.Tactic.NormNum

namespace Gebr.Validator.TrailingZeros

open Gebr.Lib.CString

abbrev Text : Type := List UInt8

section Model

/-- The loop of `gebr_str_remove_trailing_zeros`, with `len - i` as its first argument. -/
def zerosLoop (str : Text) : ℕ → ℕ → ℕ
  | 0, i => i
  | left + 1, i => if str[left]? ≠ some 48 then i else zerosLoop str left (i + 1)

/-- `gebr_str_remove_trailing_zeros`. -/
def gebrStrRemoveTrailingZeros (str : Text) : Text :=
  let len := str.length
  let i := zerosLoop str len 0
  if i ≠ len then
    if str[len - i - 1]? = some 46 then str.take (len - i - 1) else str.take (len - i)
  else str

end Model

section Numerals

/-- A decimal number: `fraction` are the digits behind a point. -/
structure Numeral where
  sign : Option Bool
  whole : Text
  fraction : Option Text
  digits : ∀ b ∈ whole ++ fraction.getD [], isDigit b = true
  some_digit : whole ≠ []

def Numeral.signText (n : Numeral) : Text :=
  match n.sign with
  | none => []
  | some false => [43]
  | some true => [45]

/-- The text of the number. -/
def Numeral.written (n : Numeral) : Text :=
  n.signText ++ n.whole ++
    match n.fraction with
    | none => []
    | some fraction => 46 :: fraction

/-- The number. -/
def Numeral.size (n : Numeral) : ℚ :=
  let size : ℚ := value n.whole + (value (n.fraction.getD []) : ℚ) / 10 ^ (n.fraction.getD []).length
  if n.sign = some true then -size else size

/-- No zero is at the end of the fraction, and no point without digits behind it. -/
def Numeral.Short (n : Numeral) : Prop :=
  ∀ fraction ∈ n.fraction, fraction ≠ [] ∧ fraction.getLast? ≠ some 48

end Numerals

section Zeros

variable {front : Text}

theorem zerosLoop_eq (last : front.getLast? ≠ some 48) (rest : Text) (zeros i : ℕ) :
    zerosLoop (front ++ List.replicate zeros 48 ++ rest) (front.length + zeros) i = i + zeros := by
  induction zeros generalizing i rest with
  | zero =>
    cases front using List.reverseRecOn with
    | nil => rfl
    | append_singleton front b =>
      have other : b ≠ 48 := fun same => last (by rw [same, List.getLast?_concat])
      have here : (front ++ [b] ++ List.replicate 0 48 ++ rest)[front.length]? = some b := by simp
      rw [List.length_append, List.length_singleton, Nat.add_zero, zerosLoop, here,
        if_pos (by simpa using other)]
      rfl
  | succ zeros ih =>
    have here : (front ++ List.replicate (zeros + 1) 48 ++ rest)[front.length + zeros]? = some 48 := by
      rw [List.append_assoc, List.getElem?_append_right (Nat.le_add_right _ _),
        Nat.add_sub_cancel_left, List.getElem?_append_left (by simp)]
      simp
    rw [← Nat.add_assoc, zerosLoop, here, if_neg (by simp), List.replicate_succ',
      ← List.append_assoc front, List.append_assoc _ [48], ih]
    omega

/-- **What is left**, by what is before the zeros. -/
theorem remove_eq (last : front.getLast? ≠ some 48) (zeros : ℕ) :
    gebrStrRemoveTrailingZeros (front ++ List.replicate zeros 48) =
      if front = [] then List.replicate zeros 48 else if front.getLast? = some 46 then
      front.dropLast else front := by
  have count : zerosLoop (front ++ List.replicate zeros 48)
      (front ++ List.replicate zeros 48).length 0 = zeros := by
    have loop := zerosLoop_eq last [] zeros 0
    rw [List.append_nil, Nat.zero_add] at loop
    rw [List.length_append, List.length_replicate]
    exact loop
  unfold gebrStrRemoveTrailingZeros
  dsimp only
  rw [count, List.length_append, List.length_replicate, Nat.add_sub_cancel]
  cases front using List.reverseRecOn with
  | nil => simp
  | append_singleton front b =>
    have more : zeros ≠ (front ++ [b]).length + zeros := by
      rw [List.length_append, List.length_singleton]
      omega
    have here : (front ++ [b] ++ List.replicate zeros 48)[(front ++ [b]).length - 1]? = some b := by
      simp
    rw [if_pos more, here,
      if_neg (List.append_ne_nil_of_right_ne_nil front (List.cons_ne_nil b [])),
        List.getLast?_concat, List.dropLast_concat, List.take_left, List.append_assoc,
          List.length_append, List.length_singleton,
      Nat.add_sub_cancel, List.take_left]

theorem exists_zeros (text : Text) :
    ∃ front zeros, text = front ++ List.replicate zeros 48 ∧ front.getLast? ≠ some 48 := by
  induction text using List.reverseRecOn with
  | nil => exact ⟨[], 0, rfl, nofun⟩
  | append_singleton text b ih =>
    by_cases zero : b = 48
    · obtain ⟨front, zeros, rfl, last⟩ := ih
      refine ⟨front, zeros + 1, ?_, last⟩
      rw [zero, List.append_assoc, List.replicate_succ']
    · refine ⟨text ++ [b], 0, (List.append_nil _).symm, ?_⟩
      rw [List.getLast?_concat]
      exact fun same => zero (Option.some.inj same)

theorem value_zeros (digits : Text) (zeros : ℕ) :
    value (digits ++ List.replicate zeros 48) = value digits * 10 ^ zeros := by
  induction zeros with
  | zero => rw [List.replicate_zero, List.append_nil, pow_zero, Nat.mul_one]
  | succ zeros ih =>
    rw [List.replicate_succ', ← List.append_assoc, value_concat, ih, pow_succ]
    show 10 * (value digits * 10 ^ zeros) + 0 = _
    rw [Nat.add_zero, Nat.mul_comm, Nat.mul_assoc]

end Zeros

section Numbers

variable {n : Numeral}

theorem digit_ne {b : UInt8} (good : isDigit b = true) : b ≠ 46 ∧ b ≠ 43 ∧ b ≠ 45 := by
  refine ⟨?_, ?_, ?_⟩ <;> rintro rfl <;> exact absurd good (by decide)

theorem not_point_written (whole : n.fraction = none) : 46 ∉ n.written := by
  have sign : 46 ∉ n.signText := by
    unfold Numeral.signText
    split <;> decide
  have digits : 46 ∉ n.whole := fun member =>
    (digit_ne (n.digits 46 (List.mem_append_left _ member))).1 rfl
  rw [Numeral.written, whole]
  simp [sign, digits]

/-- The zeros at the end of a fraction add nothing. -/
theorem fraction_zeros (digits : Text) (zeros : ℕ) :
    (value (digits ++ List.replicate zeros 48) : ℚ) / 10 ^ (digits ++ List.replicate zeros 48).length =
      (value digits : ℚ) / 10 ^ digits.length := by
  rw [value_zeros, List.length_append, List.length_replicate, pow_add, Nat.cast_mul, Nat.cast_pow]
  exact mul_div_mul_right _ _ (pow_ne_zero zeros (by norm_num))

/-- **A fraction without the zeros at its end.** -/
theorem remove_fraction {fraction : Text} (given : n.fraction = some fraction) :
    ∃ result : Numeral, gebrStrRemoveTrailingZeros n.written = result.written ∧ result.size =
    n.size ∧ result.Short := by
  obtain ⟨sign, whole, _, digits, some_digit⟩ := n
  obtain rfl : _ = some fraction := given
  obtain ⟨front, zeros, rfl, last⟩ := exists_zeros fraction
  have good : ∀ b ∈ whole ++ front, isDigit b = true := by
    intro b member
    refine digits b ?_
    rw [Option.getD_some, ← List.append_assoc]
    exact List.mem_append_left _ member
  let short : Numeral :=
    ⟨sign, whole, none, fun b member => good b (by simpa using Or.inl member), some_digit⟩
  let cut : Numeral := ⟨sign, whole, some front, good, some_digit⟩
  have written : Numeral.written
      ⟨sign, whole, some (front ++ List.replicate zeros 48), digits, some_digit⟩ = short.signText ++
          whole ++ 46 :: front ++ List.replicate zeros 48 := by
    simp [Numeral.written, Numeral.signText, short]
  have size : cut.size =
      Numeral.size ⟨sign, whole, some (front ++ List.replicate zeros 48), digits, some_digit⟩ := by
    unfold Numeral.size
    simp only [cut, Option.getD_some]
    rw [fraction_zeros]
  rw [written]
  cases front using List.reverseRecOn with
  | nil =>
    refine ⟨short, ?_, ?_, nofun⟩
    · have point : (short.signText ++ whole ++ [46]).getLast? = some 46 := List.getLast?_concat
      rw [remove_eq (by rw [point]; simp), if_neg (by simp), if_pos point, List.dropLast_concat]
      exact (List.append_nil _).symm
    · rw [← size]
      unfold Numeral.size
      simp [short, cut]
  | append_singleton front b =>
    have end_ : (short.signText ++ whole ++ 46 :: (front ++ [b])).getLast? = some b := by
      rw [← List.cons_append, ← List.append_assoc, List.getLast?_concat]
    have digit : isDigit b = true := good b (by simp)
    rw [List.getLast?_concat] at last
    refine ⟨cut, ?_, size, ?_⟩
    · rw [remove_eq (by rwa [end_]), if_neg (by simp), if_neg]
      · rfl
      · rw [end_]
        exact fun same => (digit_ne digit).1 (Option.some.inj same)
    · intro fraction same
      obtain rfl := Option.some.inj same
      rw [List.getLast?_concat]
      exact ⟨by simp, last⟩

/-- The zeros behind a text that does not end in one. -/
theorem rdropWhile_zeros {front : Text} (last : front.getLast? ≠ some 48) (zeros : ℕ) :
    (front ++ List.replicate zeros 48).rdropWhile (· = 48) = front := by
  induction zeros with
  | zero =>
    rw [List.replicate_zero, List.append_nil, List.rdropWhile_eq_self_iff]
    intro some_byte zero
    rw [List.getLast?_eq_some_getLast some_byte] at last
    exact last (congrArg some (of_decide_eq_true zero))
  | succ zeros ih =>
    rw [List.replicate_succ', ← List.append_assoc, List.rdropWhile_concat_pos _ _ _ (by decide), ih]

/-- **A whole number without the zeros at its end**, if there is anything else. -/
theorem remove_whole (whole : n.fraction = none) :
    gebrStrRemoveTrailingZeros n.written =
      if n.written.all (· = 48) then n.written else n.written.rdropWhile (· = 48) := by
  have point := not_point_written whole
  obtain ⟨front, zeros, same, last⟩ := exists_zeros n.written
  rw [same] at point ⊢
  rw [remove_eq last, rdropWhile_zeros last]
  by_cases none : front = []
  · have zero : (List.replicate zeros (48 : UInt8)).all (· = 48) = true :=
      List.all_eq_true.2 fun b member => decide_eq_true (List.eq_of_mem_replicate member)
    rw [if_pos none, none, List.nil_append, if_pos zero]
  · have here := List.getLast?_eq_some_getLast none
    have inside : front.getLast none ∈ front ++ List.replicate zeros 48 :=
      List.mem_append_left _ (List.getLast_mem none)
    rw [here] at last
    rw [if_neg none, here, if_neg, if_neg]
    · exact fun all => last (congrArg some (of_decide_eq_true (List.all_eq_true.1 all _ inside)))
    · exact fun dot => point (Option.some.inj dot ▸ inside)

/-- **The zeros at the end of a number**: a fraction keeps its value, and has neither a zero at its
end nor a point without digits; a whole number loses its zeros, unless it has nothing else. -/
theorem zeros_off (n : Numeral) :
    (n.fraction.isSome → ∃ result : Numeral,
      gebrStrRemoveTrailingZeros n.written = result.written ∧ result.size = n.size ∧ result.Short) ∧
    (n.fraction = none → gebrStrRemoveTrailingZeros n.written =
      if n.written.all (· = 48) then n.written else n.written.rdropWhile (· = 48)) := by
  refine ⟨fun some_fraction => ?_, remove_whole⟩
  obtain ⟨fraction, given⟩ := Option.isSome_iff_exists.1 some_fraction
  exact remove_fraction given

/-- **A hundred** becomes a one. -/
theorem hundred :
    ¬ ∀ n : Numeral, (∃ result : Numeral,
        gebrStrRemoveTrailingZeros n.written = result.written ∧ result.size = n.size ∧ result.Short) ∧
      (n.fraction = none → gebrStrRemoveTrailingZeros n.written = n.written) := by
  intro all
  have unchanged := (all ⟨none, ascii "100", none, List.all_eq_true.1 (by decide), by decide⟩).2 rfl
  exact absurd unchanged (by decide)

end Numbers

end Gebr.Validator.TrailingZeros
