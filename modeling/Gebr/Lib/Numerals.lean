/-
**Numbers in texts.**

* `printInt`: an integer, as `%d` prints it.
* `gStrtod`: the number at the start of a text. It is taken exactly; there are infinite ones, and
  some that are none.
* `gStrtod_printInt` — **what is printed is read**.
-/

import Gebr.Lib.CString
import Gebr.Lib.Percent
import Mathlib.Algebra.Order.Field.Rat

namespace Gebr.Lib.Numerals

open Gebr.Lib.CString Gebr.Lib.Percent

section Definitions

/-- `%d`. -/
def printInt (n : ℤ) : List UInt8 := if n < 0 then 45 :: decimal n.natAbs else decimal n.natAbs

/-- What a `double` stands for. -/
inductive Number
  | finite (size : ℚ)
  | infinite (negative : Bool)
  | nan
  deriving DecidableEq

/-- The number behind a sign. -/
def Number.signed (negative : Bool) : Number → Number
  | .finite size => .finite (if negative then -size else size)
  | .infinite _ => .infinite negative
  | .nan => .nan

/-- Whether it is more than zero. -/
def Number.isPositive : Number → Bool
  | .finite size => 0 < size
  | .infinite negative => !negative
  | .nan => false

def isDigitIn (base : ℕ) (b : UInt8) : Bool := (gAsciiXdigitValue b).any (· < base)

def numeral (base : ℕ) (digits : List UInt8) : ℕ :=
  digits.foldl (fun v b => base * v + (gAsciiXdigitValue b).getD 0) 0

/-- Digits, among which there may be a point, and what follows them. -/
def mantissa (base : ℕ) (s : List UInt8) : Option (ℚ × List UInt8) :=
  let whole := s.takeWhile (isDigitIn base)
  match s.dropWhile (isDigitIn base) with
  | 46 :: fraction =>
    let part := fraction.takeWhile (isDigitIn base)
    if whole = [] ∧ part = [] then none
    else some ((numeral base (whole ++ part) : ℚ) / base ^ part.length,
      fraction.dropWhile (isDigitIn base))
  | rest => if whole = [] then none else some ((numeral base whole : ℚ), rest)

/-- The exponent behind one of the marks. -/
def exponent (marks : List UInt8) : List UInt8 → ℤ
  | [] => 0
  | b :: rest =>
    let (negative, digits) := takeSign rest
    let size : ℤ := numeral 10 (digits.takeWhile (isDigitIn 10))
    if b ∈ marks then (if negative then -size else size) else 0

def toLower (b : UInt8) : UInt8 := if 65 ≤ b && b ≤ 90 then b + 32 else b

/-- A word at the start, in small or capital letters. -/
def beginsWith (word s : List UInt8) : Bool := (s.take word.length).map toLower = word

/-- The number without its sign. Hexadecimal digits follow `0x`, and then powers of two. -/
def unsignedNumber (s : List UInt8) : Number :=
  let hexadecimal :=
    match s with
    | 48 :: x :: rest => if toLower x = 120 then mantissa 16 rest else none
    | _ => none
  match hexadecimal with
  | some (digits, rest) => .finite (digits * 2 ^ exponent [112, 80] rest)
  | none =>
    match mantissa 10 s with
    | some (digits, rest) => .finite (digits * 10 ^ exponent [101, 69] rest)
    | none =>
      if beginsWith (ascii "inf") s then .infinite false
      else if beginsWith (ascii "nan") s then .nan
      else .finite 0

/-- `g_strtod`. -/
def gStrtod (s : List UInt8) : Number :=
  let (negative, s) := takeSign (s.dropWhile isSpace)
  (unsignedNumber s).signed negative

end Definitions

section Integers

variable {b : UInt8} {digits : List UInt8}

theorem gAsciiXdigitValue_of_isDigit (good : isDigit b = true) :
    gAsciiXdigitValue b = some (b.toNat - 48) := by
  unfold isDigit at good
  rw [Bool.and_eq_true, decide_eq_true_eq, decide_eq_true_eq] at good
  exact if_pos good

theorem isDigitIn_of_isDigit (good : isDigit b = true) : isDigitIn 10 b = true := by
  have least := ((isDigit_iff b).1 good).2
  unfold isDigitIn
  rw [gAsciiXdigitValue_of_isDigit good, Option.any_some, decide_eq_true_eq]
  omega

theorem numeral_of_isDigit (all : ∀ b ∈ digits, isDigit b = true) :
    numeral 10 digits = value digits := by
  unfold numeral value
  refine List.foldl_ext _ _ 0 fun v b member => ?_
  rw [gAsciiXdigitValue_of_isDigit (all b member), Option.getD_some]

theorem mantissa_of_isDigit (all : ∀ b ∈ digits, isDigit b = true) (some_digit : digits ≠ []) :
    mantissa 10 digits = some ((value digits : ℚ), []) := by
  have each : ∀ b ∈ digits, isDigitIn 10 b = true := fun b member => isDigitIn_of_isDigit
    (all b member)
  have whole : digits.takeWhile (isDigitIn 10) = digits := List.takeWhile_eq_self_iff.2 each
  have rest : digits.dropWhile (isDigitIn 10) = [] := List.dropWhile_eq_nil_iff.2 each
  unfold mantissa
  rw [whole, rest]
  dsimp only
  rw [if_neg some_digit, numeral_of_isDigit all]

theorem unsignedNumber_of_isDigit (all : ∀ b ∈ digits, isDigit b = true) (some_digit : digits ≠ []) :
    unsignedNumber digits = .finite (value digits) := by
  have decimalOnly : (match digits with
      | 48 :: x :: rest => if toLower x = 120 then mantissa 16 rest else none
      | _ => none) = none := by
    split
    · rename_i x rest
      have good := (isDigit_iff x).1 (all x (by simp))
      have small : ¬ (65 ≤ x && x ≤ 90) = true := by
        rw [Bool.and_eq_true, decide_eq_true_eq, UInt8.le_iff_toNat_le]
        exact fun both => absurd (both.1.trans good.2) (by decide)
      refine if_neg fun same => ?_
      unfold toLower at same
      rw [if_neg small] at same
      rw [same] at good
      exact absurd good.2 (by decide)
    · rfl
  unfold unsignedNumber
  rw [decimalOnly, mantissa_of_isDigit all some_digit]
  dsimp only [exponent]
  rw [zpow_zero, mul_one]

theorem gStrtod_of_isDigit (all : ∀ b ∈ digits, isDigit b = true) (some_digit : digits ≠ []) :
    gStrtod digits = .finite (value digits) := by
  unfold gStrtod
  cases digits with
  | nil => exact absurd rfl some_digit
  | cons b digits =>
    rw [takeSign_digits (all b List.mem_cons_self)]
    dsimp only
    rw [unsignedNumber_of_isDigit all some_digit]
    rfl

/-- **What is printed is read.** -/
theorem gStrtod_printInt (n : ℤ) : gStrtod (printInt n) = .finite n := by
  have all : ∀ b ∈ decimal n.natAbs, isDigit b = true := fun b => isDigit_of_mem_decimal
  have some_digit := decimal_ne_nil n.natAbs
  unfold printInt
  by_cases negative : n < 0
  · have size : -((n.natAbs : ℤ) : ℚ) = n := by
      rw [Int.ofNat_natAbs_of_nonpos negative.le, Int.cast_neg, neg_neg]
    have signed : takeSign ((45 :: decimal n.natAbs).dropWhile isSpace) =
        (true, decimal n.natAbs) := rfl
    unfold gStrtod
    rw [if_pos negative, signed]
    dsimp only
    rw [unsignedNumber_of_isDigit all some_digit, value_decimal, ← size]
    rfl
  · have size : ((n.natAbs : ℤ) : ℚ) = n := by
      rw [Int.natAbs_of_nonneg (not_lt.1 negative)]
    rw [if_neg negative, gStrtod_of_isDigit all some_digit, value_decimal, ← size]
    rfl

theorem not_mem_printInt {b : UInt8} (noDigit : isDigit b = false) (noMinus : b ≠ 45) (n : ℤ) :
    b ∉ printInt n := by
  have clean : b ∉ decimal n.natAbs := fun member =>
    absurd (isDigit_of_mem_decimal member) (by rw [noDigit]; exact Bool.false_ne_true)
  unfold printInt
  split
  · exact fun member => (List.mem_cons.1 member).elim noMinus clean
  · exact clean

end Integers

end Gebr.Lib.Numerals
