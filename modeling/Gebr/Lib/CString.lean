/-
**Byte strings, and the C and GLib functions that take them apart.**

* `decimal`, `value`: a number as `%zu` prints it, and the number that digits stand for.
* `strtol`: the number at the front of a string; beyond the range of a `long` it is cut to it.
* `gStrstrip`: a string without the white space around it.
* `gStrsplit`, `splitTokens_cons`: a string cut at a separator.
* `strstr`, `gStrstrLen`: where a string first occurs in another one, and in its first bytes.
* `gStrHash`: the hash of a string.
-/

import Mathlib.Algebra.Group.Int.Defs
import Mathlib.Algebra.Order.Group.Nat
import Mathlib.Data.Int.Order.Basic
import Mathlib.Data.List.DropRight
import Mathlib.Data.List.Induction
import Mathlib.Data.List.Infix
import Mathlib.Data.List.TakeWhile
import Mathlib.Data.Nat.Log

namespace Gebr.Lib.CString

/-- Membership among byte strings is decided by their equality. -/
instance lawfulBEqBytes : LawfulBEq (List UInt8) := inferInstance

/-- The bytes of a text of ASCII characters. -/
def ascii (text : String) : List UInt8 := text.toList.map fun c => UInt8.ofNat c.toNat

section Decimal

def isDigit (b : UInt8) : Bool := 48 ≤ b && b ≤ 57

def digit (d : ℕ) : UInt8 := UInt8.ofNat (48 + d)

/-- The digits of a number; `fuel` bounds how many there are. -/
def decimalLoop : ℕ → ℕ → List UInt8
  | 0, _ => []
  | fuel + 1, n => if n < 10 then [digit n] else decimalLoop fuel (n / 10) ++ [digit (n % 10)]

/-- `%zu`. -/
def decimal (n : ℕ) : List UInt8 := decimalLoop (n + 1) n

/-- The number that some digits stand for. -/
def value (digits : List UInt8) : ℕ := digits.foldl (fun v b => 10 * v + (b.toNat - 48)) 0

@[simp] theorem value_nil : value [] = 0 := rfl

@[simp] theorem value_concat (digits : List UInt8) (b : UInt8) :
    value (digits ++ [b]) = 10 * value digits + (b.toNat - 48) := by
  rw [value, List.foldl_append]
  rfl

theorem toNat_digit {d : ℕ} (small : d < 10) : (digit d).toNat = 48 + d := by
  rw [digit, UInt8.toNat_ofNat']
  omega

theorem isDigit_iff (b : UInt8) : isDigit b = true ↔ 48 ≤ b.toNat ∧ b.toNat ≤ 57 := by
  rw [isDigit, Bool.and_eq_true, decide_eq_true_iff, decide_eq_true_iff, UInt8.le_iff_toNat_le,
    UInt8.le_iff_toNat_le]
  rfl

theorem isDigit_digit {d : ℕ} (small : d < 10) : isDigit (digit d) = true := by
  rw [isDigit_iff, toNat_digit small]
  omega

theorem decimalLoop_eq {fuel n : ℕ} (enough : n < fuel) : decimalLoop fuel n = decimal n := by
  induction n using Nat.strong_induction_on generalizing fuel with
  | h n ih =>
    obtain ⟨fuel, rfl⟩ := Nat.exists_eq_add_of_lt enough
    rw [decimal, decimalLoop, decimalLoop]
    split
    · rfl
    · rw [ih (n / 10) (by omega) (show n / 10 < n + fuel by omega),
        ih (n / 10) (by omega) (show n / 10 < n by omega)]

theorem decimal_small {n : ℕ} (small : n < 10) : decimal n = [digit n] := by
  rw [decimal, decimalLoop, if_pos small]

theorem decimal_large {n : ℕ} (large : 10 ≤ n) :
    decimal n = decimal (n / 10) ++ [digit (n % 10)] := by
  rw [decimal, decimalLoop, if_neg (Nat.not_lt.2 large), decimalLoop_eq (by omega)]

/-- **Induction over the digits of a number.** -/
theorem decimal_induction {P : ℕ → Prop} (small : ∀ n < 10, P n)
    (large : ∀ n, 10 ≤ n → P (n / 10) → P n) (n : ℕ) : P n := by
  induction n using Nat.strong_induction_on with
  | h n ih =>
    by_cases less : n < 10
    · exact small n less
    · exact large n (Nat.not_lt.1 less) (ih (n / 10) (by omega))

@[simp] theorem value_decimal (n : ℕ) : value (decimal n) = n := by
  induction n using decimal_induction with
  | small n less =>
    rw [decimal_small less, show [digit n] = [] ++ [digit n] from rfl, value_concat, value_nil,
      toNat_digit less]
    omega
  | large n more ih =>
    rw [decimal_large more, value_concat, ih, toNat_digit (Nat.mod_lt n (by decide))]
    omega

theorem isDigit_of_mem_decimal {n : ℕ} {b : UInt8} (member : b ∈ decimal n) : isDigit b = true := by
  induction n using decimal_induction with
  | small n less =>
    rw [decimal_small less, List.mem_singleton] at member
    rw [member, isDigit_digit less]
  | large n more ih =>
    rw [decimal_large more, List.mem_append, List.mem_singleton] at member
    rcases member with front | rfl
    · exact ih front
    · exact isDigit_digit (Nat.mod_lt n (by decide))

theorem decimal_ne_nil (n : ℕ) : decimal n ≠ [] := by
  by_cases less : n < 10
  · rw [decimal_small less]
    exact List.cons_ne_nil _ _
  · rw [decimal_large (Nat.not_lt.1 less)]
    exact List.append_ne_nil_of_right_ne_nil _ (List.cons_ne_nil _ _)

/-- Digits stand for less than the power of ten of their number. -/
theorem value_lt_pow {digits : List UInt8} (all : ∀ b ∈ digits, isDigit b = true) :
    value digits < 10 ^ digits.length := by
  induction digits using List.reverseRecOn with
  | nil => exact Nat.one_pos
  | append_singleton digits b ih =>
    have rest := ih fun other member => all other (List.mem_append_left _ member)
    have last := (isDigit_iff b).1 (all b (List.mem_append_right _ List.mem_cons_self))
    rw [value_concat, List.length_append, List.length_singleton, pow_succ]
    omega

/-- No number below a power of ten is printed with more digits. -/
theorem length_decimal_le {n k : ℕ} (less : n < 10 ^ k) (some_digit : 0 < k) :
    (decimal n).length ≤ k := by
  induction n using decimal_induction generalizing k with
  | small n small =>
    rw [decimal_small small]
    exact some_digit
  | large n more ih =>
    obtain _ | _ | k := k
    · omega
    · omega
    · have rest := ih (show n / 10 < 10 ^ (k + 1) by rw [pow_succ] at less; omega) (by omega)
      rw [decimal_large more, List.length_append, List.length_singleton]
      omega

/-- **A proper beginning of a printed number stands for a smaller one.** -/
theorem value_lt_of_begins {n : ℕ} {front : List UInt8} (begins : front <+: decimal n)
    (proper : front ≠ decimal n) (positive : 0 < n) : value front < n := by
  induction n using decimal_induction generalizing front with
  | small n less =>
    rw [decimal_small less] at begins proper
    rcases List.prefix_cons_iff.1 begins with rfl | ⟨rest, rfl, tail⟩
    · exact positive
    · rw [List.prefix_nil] at tail
      exact absurd (by rw [tail]) proper
  | large n more ih =>
    rw [decimal_large more] at begins proper
    have shorter := begins.length_le
    rw [List.length_append, List.length_singleton] at shorter
    have fits : front.length ≤ (decimal (n / 10)).length := by
      by_contra longer
      apply proper
      apply begins.eq_of_length
      rw [List.length_append, List.length_singleton]
      omega
    have inner : front <+: decimal (n / 10) :=
      List.prefix_of_prefix_length_le begins (List.prefix_append _ _) fits
    by_cases whole : front = decimal (n / 10)
    · rw [whole, value_decimal]
      omega
    · exact lt_of_lt_of_le (ih inner whole (by omega)) (Nat.div_le_self n 10)

end Decimal

section Strtol

/-- `isspace`. -/
def isSpace (b : UInt8) : Bool := b = 32 || (9 ≤ b && b ≤ 13)

/-- `g_ascii_isspace`. -/
def gAsciiIsspace (b : UInt8) : Bool := b = 32 || b = 9 || b = 10 || b = 12 || b = 13

/-- `g_strstrip` of the C string at the start of a buffer. -/
def gStrstrip (buffer : List UInt8) : List UInt8 :=
  ((buffer.takeWhile fun b => b ≠ 0).dropWhile gAsciiIsspace).rdropWhile gAsciiIsspace

def longMax : ℤ := 2 ^ 63 - 1

def longMin : ℤ := -2 ^ 63

/-- The sign in front of a number: whether it is a minus, and what follows. -/
def takeSign : List UInt8 → Bool × List UInt8
  | 45 :: s => (true, s)
  | 43 :: s => (false, s)
  | s => (false, s)

/-- `strtol` in base ten: the number, and whether `errno` is set to `ERANGE`. -/
def strtol (s : List UInt8) : ℤ × Bool :=
  let (negative, s) := takeSign (s.dropWhile isSpace)
  let v : ℤ := value (s.takeWhile isDigit)
  let v := if negative then -v else v
  if longMax < v then (longMax, true) else if v < longMin then (longMin, true) else (v, false)

/-- The conversion of a `long` to a `gsize`. -/
def toSize (v : ℤ) : ℕ := (v % 2 ^ 64).toNat

theorem not_isSpace_of_isDigit {b : UInt8} (good : isDigit b = true) : isSpace b = false := by
  rw [isDigit_iff] at good
  have far : ¬ b = 32 := fun same => by rw [same] at good; exact absurd good.1 (by decide)
  have above : ¬ b ≤ 13 := by
    rw [UInt8.le_iff_toNat_le]
    exact fun le => absurd (good.1.trans le) (by decide)
  simp [isSpace, far, above]

theorem takeSign_length_le (s : List UInt8) : (takeSign s).2.length ≤ s.length := by
  unfold takeSign
  split
  · exact Nat.le_succ _
  · exact Nat.le_succ _
  · exact le_rfl

/-- In front of a digit there is neither a blank nor a sign. -/
theorem takeSign_digits {b : UInt8} (good : isDigit b = true) (s : List UInt8) :
    takeSign ((b :: s).dropWhile isSpace) = (false, b :: s) := by
  have kept : (b :: s).dropWhile isSpace = b :: s := by
    rw [List.dropWhile_cons, if_neg]
    rw [not_isSpace_of_isDigit good]
    decide
  have noMinus : b ≠ 45 := fun same => by rw [same] at good; exact absurd good (by decide)
  have noPlus : b ≠ 43 := fun same => by rw [same] at good; exact absurd good (by decide)
  rw [kept]
  unfold takeSign
  split
  · rename_i head
    exact absurd (List.cons.inj head).1 noMinus
  · rename_i head
    exact absurd (List.cons.inj head).1 noPlus
  · rfl

/-- Digits that fit into a `long` are read as they stand. -/
theorem strtol_digits {digits : List UInt8} (all : ∀ b ∈ digits, isDigit b = true)
    (fits : value digits < 2 ^ 63) : strtol digits = ((value digits : ℤ), false) := by
  have whole : digits.takeWhile isDigit = digits := List.takeWhile_eq_self_iff.2 all
  have bound : ¬ longMax < (value digits : ℤ) := by
    unfold longMax
    omega
  have above : ¬ (value digits : ℤ) < longMin := by
    unfold longMin
    omega
  cases digits with
  | nil => rfl
  | cons b digits =>
    unfold strtol
    rw [takeSign_digits (all b List.mem_cons_self)]
    simp only [whole, Bool.false_eq_true, if_false, if_neg bound, if_neg above]

theorem toSize_natCast {n : ℕ} (fits : n < 2 ^ 63) : toSize n = n := by
  unfold toSize
  omega

/-- **A size below `2 ^ 63` that is read from a string has no more digits than the string.** -/
theorem lt_pow_of_strtol {s : List UInt8} {n : ℕ} (read : toSize (strtol s).1 = n)
    (fits : n < 2 ^ 63) : n < 10 ^ s.length := by
  have digits : ∀ t : List UInt8, t.length ≤ s.length →
      value (t.takeWhile isDigit) < 10 ^ s.length := by
    intro t shorter
    have all : ∀ b ∈ t.takeWhile isDigit, isDigit b = true :=
      fun b member => List.all_eq_true.1 List.all_takeWhile b member
    refine lt_of_lt_of_le (value_lt_pow all) (Nat.pow_le_pow_right (by decide) ?_)
    exact (List.takeWhile_sublist _).length_le.trans shorter
  have dropped : (s.dropWhile isSpace).length ≤ s.length := (List.dropWhile_sublist _).length_le
  have positive : 0 < 10 ^ s.length := Nat.pow_pos (by decide)
  unfold strtol at read
  have shorter := (takeSign_length_le (s.dropWhile isSpace)).trans dropped
  generalize takeSign (s.dropWhile isSpace) = signed at read shorter
  obtain ⟨negative, t⟩ := signed
  simp only at read shorter
  have bound := digits t shorter
  generalize value (t.takeWhile isDigit) = v at read bound
  unfold toSize longMax longMin at read
  cases negative with
  | false =>
    simp only [Bool.false_eq_true, if_false] at read
    split_ifs at read <;> simp only at read <;> omega
  | true =>
    simp only [if_true] at read
    split_ifs at read <;> simp only at read <;> omega

end Strtol

section Splitting

/-- The tokens of a string that is cut at most so many times. -/
def splitTokens (sep : UInt8) : ℕ → List UInt8 → List (List UInt8)
  | 0, s => [s]
  | cuts + 1, s =>
    match s.dropWhile (· ≠ sep) with
    | [] => [s]
    | _ :: rest => s.takeWhile (· ≠ sep) :: splitTokens sep cuts rest

/-- `g_strsplit`: at most `maxTokens` tokens, or all of them for 0; the empty string has none. -/
def gStrsplit (sep : UInt8) (maxTokens : ℕ) (s : List UInt8) : List (List UInt8) :=
  if s = [] then [] else splitTokens sep (if maxTokens = 0 then s.length else maxTokens - 1) s

variable {sep : UInt8} {front : List UInt8}

theorem takeWhile_ne (clean : sep ∉ front) (rest : List UInt8) :
    (front ++ sep :: rest).takeWhile (· ≠ sep) = front := by
  rw [List.takeWhile_append_of_pos, List.takeWhile_cons_of_neg (by simp), List.append_nil]
  intro b member
  exact decide_eq_true fun same => clean (same ▸ member)

theorem dropWhile_ne (clean : sep ∉ front) (rest : List UInt8) :
    (front ++ sep :: rest).dropWhile (· ≠ sep) = sep :: rest := by
  rw [List.dropWhile_append_of_pos, List.dropWhile_cons_of_neg (by simp)]
  intro b member
  exact decide_eq_true fun same => clean (same ▸ member)

theorem splitTokens_cons (clean : sep ∉ front) (cuts : ℕ) (rest : List UInt8) :
    splitTokens sep (cuts + 1) (front ++ sep :: rest) = front :: splitTokens sep cuts rest := by
  rw [splitTokens, dropWhile_ne clean, takeWhile_ne clean]

theorem splitTokens_clean (clean : sep ∉ front) (cuts : ℕ) : splitTokens sep cuts front = [front] := by
  cases cuts with
  | zero => rfl
  | succ cuts =>
    have all : front.dropWhile (· ≠ sep) = [] := by
      rw [List.dropWhile_eq_nil_iff]
      intro b member
      exact decide_eq_true fun same => clean (same ▸ member)
    rw [splitTokens, all]

theorem eq_clean_or_cut (sep : UInt8) (s : List UInt8) :
    sep ∉ s ∨ ∃ front rest, sep ∉ front ∧ s = front ++ sep :: rest := by
  by_cases member : sep ∈ s
  · obtain ⟨front, rest, rfl, clean⟩ := List.eq_append_cons_of_mem member
    exact Or.inr ⟨front, rest, clean, rfl⟩
  · exact Or.inl member

/-- With as many cuts as separators, no token has one. -/
theorem not_mem_of_mem_splitTokens {cuts : ℕ} {s token : List UInt8} (enough : s.count sep ≤ cuts)
    (member : token ∈ splitTokens sep cuts s) : sep ∉ token := by
  induction cuts generalizing s with
  | zero =>
    rw [splitTokens, List.mem_singleton] at member
    rw [member]
    exact List.count_eq_zero.1 (Nat.le_zero.1 enough)
  | succ cuts ih =>
    rcases eq_clean_or_cut sep s with clean | ⟨front, rest, clean, rfl⟩
    · rw [splitTokens_clean clean, List.mem_singleton] at member
      exact member ▸ clean
    · rw [splitTokens_cons clean, List.mem_cons] at member
      rw [List.count_append, List.count_eq_zero.2 clean, List.count_cons_self] at enough
      rcases member with rfl | member
      · exact clean
      · exact ih (by omega) member

theorem not_mem_of_mem_gStrsplit {s token : List UInt8} (member : token ∈ gStrsplit sep 0 s) :
    sep ∉ token := by
  rw [gStrsplit] at member
  split at member
  · exact absurd member List.not_mem_nil
  · exact not_mem_of_mem_splitTokens List.count_le_length member

/-- Lines are what is between the separators, and nothing is after the last one. -/
theorem splitTokens_lines {lines : List (List UInt8)} (clean : ∀ line ∈ lines, sep ∉ line) {cuts : ℕ}
    (enough : lines.length ≤ cuts) :
    splitTokens sep cuts (lines.flatMap (· ++ [sep])) = lines ++ [[]] := by
  induction lines generalizing cuts with
  | nil => exact splitTokens_clean (List.not_mem_nil) cuts
  | cons line lines ih =>
    obtain ⟨cuts, rfl⟩ := Nat.exists_eq_succ_of_ne_zero (show cuts ≠ 0 by
      rintro rfl
      exact absurd enough (Nat.not_succ_le_zero _))
    rw [List.flatMap_cons, List.append_assoc, List.singleton_append,
      splitTokens_cons (clean line List.mem_cons_self), List.cons_append,
      ih (fun other member => clean other (List.mem_cons_of_mem line member))
        (Nat.succ_le_succ_iff.1 enough)]

theorem length_le_lines (lines : List (List UInt8)) :
    lines.length ≤ (lines.flatMap (· ++ [sep])).length := by
  induction lines with
  | nil => exact le_rfl
  | cons line lines ih =>
    rw [List.flatMap_cons, List.length_append, List.length_append, List.length_cons,
      List.length_singleton]
    omega

/-- **The lines of a text**, and what is after the last one. -/
theorem gStrsplit_lines {lines : List (List UInt8)} (clean : ∀ line ∈ lines, sep ∉ line)
    (some_line : lines ≠ []) : gStrsplit sep 0 (lines.flatMap (· ++ [sep])) = lines ++ [[]] := by
  have positive := List.length_pos_iff.2 some_line
  have long : lines.length ≤ (lines.flatMap (· ++ [sep])).length := length_le_lines lines
  rw [gStrsplit, if_neg (List.length_pos_iff.1 (lt_of_lt_of_le positive long)), if_pos rfl,
    splitTokens_lines clean long]

/-- Items with a separator between two are cut into the items. -/
theorem splitTokens_joined {items : List (List UInt8)} (clean : ∀ item ∈ items, sep ∉ item)
    (some_item : items ≠ []) {cuts : ℕ} (enough : items.length ≤ cuts + 1) :
    splitTokens sep cuts (items.flatMap (· ++ [sep])).dropLast = items := by
  induction items generalizing cuts with
  | nil => exact absurd rfl some_item
  | cons item items ih =>
    have first := clean item List.mem_cons_self
    rw [List.flatMap_cons]
    cases items with
    | nil => rw [List.flatMap_nil, List.append_nil, List.dropLast_concat, splitTokens_clean first]
    | cons next items =>
      have others : (next :: items).flatMap (· ++ [sep]) ≠ [] := by simp
      obtain ⟨cuts, rfl⟩ := Nat.exists_eq_succ_of_ne_zero (show cuts ≠ 0 by
        rintro rfl
        exact absurd (Nat.le_of_succ_le_succ enough) (Nat.not_succ_le_zero _))
      rw [List.append_assoc, List.singleton_append, List.dropLast_append_of_ne_nil
        (List.cons_ne_nil _ _), List.dropLast_cons_of_ne_nil others, splitTokens_cons first,
        ih (fun other member => clean other (List.mem_cons_of_mem item member)) (List.cons_ne_nil _ _)
          (Nat.le_of_succ_le_succ enough)]

/-- **Items with a separator between two** are cut into the items, unless there is no text. -/
theorem gStrsplit_joined {items : List (List UInt8)} (clean : ∀ item ∈ items, sep ∉ item)
    (some_byte : (items.flatMap (· ++ [sep])).dropLast ≠ []) :
    gStrsplit sep 0 (items.flatMap (· ++ [sep])).dropLast = items := by
  have some_item : items ≠ [] := by
    rintro rfl
    exact some_byte rfl
  have long : items.length ≤ (items.flatMap (· ++ [sep])).length := length_le_lines items
  have positive := List.length_pos_iff.2 some_byte
  rw [List.length_dropLast] at positive
  rw [gStrsplit, if_neg some_byte, if_pos rfl, splitTokens_joined clean some_item]
  rw [List.length_dropLast]
  omega

end Splitting

section Searching

/-- `strstr`, as the place of the first occurrence. -/
def strstr (sub : List UInt8) : List UInt8 → Option ℕ
  | [] => if sub = [] then some 0 else none
  | b :: s => if sub.isPrefixOf (b :: s) then some 0 else (strstr sub s).map (· + 1)

variable {sub s : List UInt8}

/-- `strstr` finds nothing where there is nothing. -/
theorem strstr_eq_none (some_byte : sub ≠ []) : strstr sub s = none ↔ ¬ sub <:+: s := by
  induction s with
  | nil =>
    rw [strstr, if_neg some_byte, List.infix_nil]
    exact iff_of_true rfl some_byte
  | cons b s ih =>
    rw [strstr, List.infix_cons_iff, ← List.isPrefixOf_iff_prefix, not_or, ← ih]
    cases sub.isPrefixOf (b :: s) with
    | false => simp
    | true => simp

/-- **`strstr` finds the first occurrence.** -/
theorem strstr_first {front : List UInt8} (first : ¬ sub <:+: front ++ sub.dropLast)
    (some_byte : sub ≠ []) (rest : List UInt8) :
    strstr sub (front ++ sub ++ rest) = some front.length := by
  induction front with
  | nil =>
    obtain ⟨b, tail, rfl⟩ := List.exists_cons_of_ne_nil some_byte
    have found : (b :: tail).isPrefixOf (b :: (tail ++ rest)) = true :=
      List.isPrefixOf_iff_prefix.2 (List.prefix_append (b :: tail) rest)
    rw [List.nil_append, List.cons_append, strstr, if_pos found]
    rfl
  | cons b front ih =>
    rw [List.cons_append, List.infix_cons_iff, not_or] at first
    have away : sub.isPrefixOf (b :: (front ++ sub ++ rest)) = false := by
      rw [Bool.eq_false_iff, ne_eq, List.isPrefixOf_iff_prefix]
      intro begins
      apply first.1
      have longer : sub.length ≤ (b :: (front ++ sub.dropLast)).length := by
        simp only [List.length_cons, List.length_append, List.length_dropLast]
        omega
      refine List.prefix_of_prefix_length_le begins ?_ longer
      rw [List.append_assoc, List.cons_prefix_cons]
      exact ⟨rfl, (List.prefix_append_right_inj front).2
        ((List.dropLast_prefix sub).trans (List.prefix_append sub rest))⟩
    rw [List.cons_append, List.cons_append, strstr, away, ih first.2]
    rfl

/-- What `strstr` finds stands there, and nowhere before. -/
theorem strstr_parts (some_byte : sub ≠ []) {k : ℕ} (search : strstr sub s = some k) :
    ∃ front rest, s = front ++ sub ++ rest ∧ front.length = k ∧
      ¬ sub <:+: front ++ sub.dropLast := by
  induction s generalizing k with
  | nil =>
    rw [strstr, if_neg some_byte] at search
    exact nomatch search
  | cons b s ih =>
    rw [strstr] at search
    by_cases begins : sub.isPrefixOf (b :: s) = true
    · rw [if_pos begins, Option.some.injEq] at search
      obtain ⟨rest, same⟩ := List.isPrefixOf_iff_prefix.1 begins
      refine ⟨[], rest, same.symm, search, fun again => ?_⟩
      have shorter := again.length_le
      rw [List.nil_append, List.length_dropLast] at shorter
      have := List.length_pos_of_ne_nil some_byte
      omega
    · rw [if_neg begins, Option.map_eq_some_iff] at search
      obtain ⟨place, search, rfl⟩ := search
      obtain ⟨front, rest, rfl, rfl, first⟩ := ih search
      refine ⟨b :: front, rest, rfl, rfl, ?_⟩
      rw [List.cons_append, List.infix_cons_iff, not_or]
      refine ⟨fun again => begins (List.isPrefixOf_iff_prefix.2 (again.trans ?_)), first⟩
      rw [List.cons_prefix_cons, List.append_assoc, List.prefix_append_right_inj]
      exact ⟨rfl, (List.dropLast_prefix sub).trans (List.prefix_append sub rest)⟩

/-- `g_strstr_len`, as the place of the first occurrence in the first `len` bytes of a C string. -/
def gStrstrLen (s : List UInt8) (len : ℕ) (sub : List UInt8) : Option ℕ :=
  strstr sub ((s.takeWhile (· != 0)).take len)

/-- What stands around the first occurrence of `sub` in the first `len` bytes of a C string. -/
structure FirstIn (sub : List UInt8) (len : ℕ) (front rest s : List UInt8) : Prop where
  parts : s = front ++ sub ++ rest
  near : front.length + sub.length ≤ len
  text : 0 ∉ front
  first : ¬ sub <:+: front ++ sub.dropLast

/-- **`g_strstr_len` finds the first occurrence that ends within the length.** -/
theorem gStrstrLen_eq_some (some_byte : sub ≠ []) (text : 0 ∉ sub) {len k : ℕ} :
    gStrstrLen s len sub = some k ↔ ∃ front rest, FirstIn sub len front rest s ∧ front.length = k := by
  constructor
  · intro search
    obtain ⟨front, rest, same, place, first⟩ := strstr_parts some_byte search
    have begins : front ++ sub ++ rest <+: s :=
      same ▸ (List.take_prefix _ _).trans (List.takeWhile_prefix _)
    obtain ⟨more, rfl⟩ := begins
    refine ⟨front, rest ++ more, ⟨List.append_assoc _ _ _, ?_, ?_, first⟩, place⟩
    · have shorter := congrArg List.length same
      rw [List.length_take, List.length_append, List.length_append] at shorter
      omega
    · intro member
      have inside : (0 : UInt8) ∈ ((front ++ sub ++ rest ++ more).takeWhile (· != 0)).take len := by
        rw [same, List.append_assoc]
        exact List.mem_append_left _ member
      exact Bool.false_ne_true (List.mem_takeWhile_imp (List.mem_of_mem_take inside))
  · rintro ⟨front, rest, ⟨rfl, near, clean, first⟩, rfl⟩
    have whole : ∀ b ∈ front ++ sub, (b != 0) = true := by
      intro b member
      rw [bne_iff_ne]
      rintro rfl
      exact (List.mem_append.1 member).elim clean text
    rw [gStrstrLen, List.takeWhile_append_of_pos whole, List.take_append,
      List.take_of_length_le (by rwa [List.length_append])]
    exact strstr_first first some_byte _

theorem FirstIn.place {len : ℕ} {front rest : List UInt8} (found : FirstIn sub len front rest s)
    (some_byte : sub ≠ []) (text : 0 ∉ sub) : gStrstrLen s len sub = some front.length :=
  (gStrstrLen_eq_some some_byte text).2 ⟨front, rest, found, rfl⟩

variable {front rest : List UInt8} {len : ℕ}

theorem FirstIn.absent {b : UInt8} (found : FirstIn [b] len front rest s) : b ∉ front := by
  intro member
  apply found.first
  rwa [List.dropLast_singleton, List.append_nil, List.singleton_infix_iff]

theorem FirstIn.take (found : FirstIn sub len front rest s) : s.take front.length = front := by
  rw [found.parts, List.append_assoc, List.take_left]

theorem FirstIn.drop (found : FirstIn sub len front rest s) : s.drop front.length = sub ++ rest := by
  rw [found.parts, List.append_assoc, List.drop_left]

theorem FirstIn.unique {front' rest' : List UInt8} (some_byte : sub ≠ []) (text : 0 ∉ sub)
    (found : FirstIn sub len front rest s) (again : FirstIn sub len front' rest' s) :
    front = front' ∧ rest = rest' := by
  have places := (found.place some_byte text).symm.trans (again.place some_byte text)
  have same := found.parts.symm.trans again.parts
  rw [List.append_assoc, List.append_assoc] at same
  obtain ⟨rfl, tails⟩ := List.append_inj same (Option.some.inj places)
  exact ⟨rfl, List.append_cancel_left tails⟩

/-- What begins at no byte of a line does not occur in the lines. -/
theorem not_infix_of_away {sep : UInt8} {lines : List (List UInt8)} (some_byte : sub ≠ [])
    (away : ∀ line ∈ lines, ∀ tail, tail <:+ line → ∀ back, back ⊆ lines →
      ¬ sub <+: tail ++ sep :: back.flatMap (· ++ [sep])) :
    ¬ sub <:+: lines.flatMap (· ++ [sep]) := by
  rw [← strstr_eq_none some_byte]
  induction lines with
  | nil => exact (strstr_eq_none some_byte).2 fun occurs => some_byte (List.infix_nil.1 occurs)
  | cons line lines ih =>
    have behind := ih fun other member tail ends back known =>
      away other (List.mem_cons_of_mem line member) tail ends back fun one inside =>
        List.mem_cons_of_mem line (known inside)
    have from_tail : ∀ tail, tail <:+ line →
        strstr sub (tail ++ sep :: lines.flatMap (· ++ [sep])) = none := by
      intro tail ends
      have here := away line List.mem_cons_self tail ends lines (List.subset_cons_self line lines)
      induction tail with
      | nil =>
        rw [List.nil_append] at here ⊢
        rw [strstr, Bool.eq_false_iff.2 (mt List.isPrefixOf_iff_prefix.1 here), behind]
        rfl
      | cons b tail ih =>
        have shorter : tail <:+ line := (List.suffix_cons b tail).trans ends
        have next := away line List.mem_cons_self tail shorter lines (List.subset_cons_self line lines)
        rw [List.cons_append] at here ⊢
        rw [strstr, Bool.eq_false_iff.2 (mt List.isPrefixOf_iff_prefix.1 here), ih shorter next]
        rfl
    rw [List.flatMap_cons, List.append_assoc, List.singleton_append]
    exact from_tail line (List.suffix_refl line)

/-- Between two separators there is a line that is not empty. -/
theorem not_infix_lines {sep : UInt8} {lines : List (List UInt8)}
    (clean : ∀ line ∈ lines, sep ∉ line ∧ line ≠ []) :
    ¬ [sep, sep] <:+: lines.flatMap (· ++ [sep]) := by
  refine not_infix_of_away (List.cons_ne_nil _ _) fun line member tail ends back known begins => ?_
  cases tail with
  | nil =>
    have second := (List.cons_prefix_cons.1 begins).2
    cases back with
    | nil => exact absurd second.length_le (by simp)
    | cons next back =>
      have fine := clean next (known List.mem_cons_self)
      obtain ⟨b, rest, rfl⟩ := List.exists_cons_of_ne_nil fine.2
      exact fine.1 ((List.cons_prefix_cons.1 second).1 ▸ List.mem_cons_self)
  | cons b tail =>
    have inside : b ∈ line := ends.subset List.mem_cons_self
    exact (clean line member).1 ((List.cons_prefix_cons.1 begins).1 ▸ inside)

/-- Where no line is a carriage return there is no empty line of two bytes. -/
theorem not_infix_returns {cr lf : UInt8} {lines : List (List UInt8)} (distinct : cr ≠ lf)
    (clean : ∀ line ∈ lines, lf ∉ line ∧ line ≠ [cr]) :
    ¬ [cr, lf, cr, lf] <:+: lines.flatMap (· ++ [lf]) := by
  refine not_infix_of_away (List.cons_ne_nil _ _) fun line member tail ends back known begins => ?_
  match tail with
  | [] => exact distinct (List.cons_prefix_cons.1 begins).1
  | [b] =>
    have second := (List.cons_prefix_cons.1 (List.cons_prefix_cons.1 begins).2).2
    cases back with
    | nil => exact absurd second.length_le (by simp)
    | cons next back =>
      have fine := clean next (known List.mem_cons_self)
      -- The line would be the carriage return.
      match next, fine with
      | [], _ => exact distinct (List.cons_prefix_cons.1 second).1
      | [b], fine => exact fine.2 (by rw [(List.cons_prefix_cons.1 second).1])
      | b :: c :: rest, fine =>
        have third := (List.cons_prefix_cons.1 (List.cons_prefix_cons.1 second).2).1
        exact fine.1 (third ▸ List.mem_cons_of_mem b List.mem_cons_self)
  | b :: c :: tail =>
    have second := (List.cons_prefix_cons.1 (List.cons_prefix_cons.1 begins).2).1
    have inside : c ∈ line := ends.subset (List.mem_cons_of_mem b List.mem_cons_self)
    exact (clean line member).1 (second ▸ inside)

end Searching

section Hashing

/-- `g_str_hash` of ASCII bytes. -/
def gStrHash (s : List UInt8) : ℕ := s.foldl (fun h b => (h * 33 + b.toNat) % 2 ^ 32) 5381

end Hashing

end Gebr.Lib.CString
