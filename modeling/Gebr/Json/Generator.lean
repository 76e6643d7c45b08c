/-
**JSON as it is written.**

A node is written on one line, or indented. What is written between the marks, the names and the
values is passed over by the scanner. A string is escaped, byte by byte; a name is written as it is.

* `JsonNode`: a node; a double is not written, since its format is not one of `g_ascii_formatd`.
* `dumpNode`, `jsonGeneratorToData`: a node, and a whole text.
* `reread`: a byte of a string, when it is read again: the escape of a vertical tab is not one that
  the scanner knows.
* `nextToken_strescape`, `nextToken_name`, `nextToken_decimal`: what is written is read as one
  token.
-/

import Gebr.Json.Scanner
import Gebr.Lib.Numerals
import Mathlib.Data.Bool.AllAny

namespace Gebr.Json

open Gebr.Lib
open Gebr.Lib.CString (ascii decimal isDigit value takeSign)
open Gebr.Lib.Numerals (printInt)

section Model

/-- `JsonNode`, with the members of an object in order; a double by its sign and its digits. -/
inductive JsonNode where
  | null
  | int (value : Int64)
  | double (negative : Bool) (literal : Bytes)
  | string (value : Bytes)
  | boolean (value : Bool)
  | array (elements : List JsonNode)
  | object (members : List (Bytes × JsonNode))

/-- `JsonGenerator`. -/
structure JsonGenerator where
  pretty : Bool
  indent : ℕ
  indentChar : UInt8

/-- `json_generator_new`. -/
def jsonGeneratorNew : JsonGenerator := ⟨false, 2, 32⟩

/-- The generator of `json_gobject_to_data`. -/
def prettyGenerator : JsonGenerator := { jsonGeneratorNew with pretty := true }

def JsonGenerator.margin (generator : JsonGenerator) (level : ℕ) : Bytes :=
  if generator.pretty = true then List.replicate (level * generator.indent) generator.indentChar
    else []

def JsonGenerator.gap (generator : JsonGenerator) : UInt8 := if generator.pretty = true then 10 else 32

def octalDigit (n : ℕ) : UInt8 := UInt8.ofNat (48 + n % 8)

/-- The bytes that `g_strescape` has a letter for. -/
def escapeLetter : UInt8 → Option UInt8
  | 8 => some 98
  | 12 => some 102
  | 10 => some 110
  | 13 => some 114
  | 9 => some 116
  | 11 => some 118
  | 92 => some 92
  | 34 => some 34
  | _ => none

/-- One byte in `g_strescape`, with the exceptions of `json_strescape`. -/
def strescapeByte (b : UInt8) : Bytes :=
  match escapeLetter b with
  | some letter => [92, letter]
  | none =>
    if b < 32 then [92, octalDigit (b.toNat / 64), octalDigit (b.toNat / 8), octalDigit b.toNat]
      else [b]

/-- `json_strescape`. -/
def jsonStrescape (str : Bytes) : Bytes := str.flatMap strescapeByte

/-- `%` with `G_GINT64_FORMAT`. -/
def formatInt (v : Int64) : Bytes := printInt v.toInt

/-- `dump_value`, of a node that is no array and no object. -/
def dumpValue (generator : JsonGenerator) (level : ℕ) (label : Bytes) : JsonNode → Option Bytes
  | .null => some (generator.margin level ++ label ++ ascii "null")
  | .int v => some (generator.margin level ++ label ++ formatInt v)
  | .string str => some (generator.margin level ++ label ++ 34 :: jsonStrescape str ++ [34])
  | .boolean b => some
      (generator.margin level ++ label ++ if b = true then ascii "true" else ascii "false")
  | _ => none

/-- The name in front of a member, which only a null has where the name is empty. -/
def labelOf (name : Bytes) (node : JsonNode) : Bytes :=
  match name, node with
  | [], .null => [34, 34] ++ ascii " : "
  | [], _ => []
  | name, _ => 34 :: name ++ 34 :: ascii " : "

/-- What is written behind an element or a member. -/
def JsonGenerator.behind {α : Type} (generator : JsonGenerator) (more : List α) : Bytes :=
  (if more.isEmpty = true then [] else [44]) ++ [generator.gap]

mutual

/-- `dump_value`, `dump_array` and `dump_object`. -/
def dumpNode (generator : JsonGenerator) : ℕ → Bytes → JsonNode → Option Bytes
  | level, label, .array elements => (dumpElements generator (level + 1) elements).map fun body =>
      generator.margin level ++ label ++ 91 :: generator.gap :: body ++ generator.margin level ++ [93]
  | level, label, .object members => (dumpMembers generator (level + 1) members).map fun body =>
      generator.margin level ++ label ++ 123 :: generator.gap :: body ++ generator.margin level ++
        [125]
  | level, label, node => dumpValue generator level label node

/-- The loop of `dump_array`. -/
def dumpElements (generator : JsonGenerator) : ℕ → List JsonNode → Option Bytes
  | _, [] => some []
  | level, node :: more => (dumpNode generator level [] node).bind fun value =>
      (dumpElements generator level more).map fun rest => value ++ generator.behind more ++ rest

/-- The loop of `dump_object`. -/
def dumpMembers (generator : JsonGenerator) : ℕ → List (Bytes × JsonNode) → Option Bytes
  | _, [] => some []
  | level, (name, node) :: more => (dumpNode generator level (labelOf name node) node).bind
      fun value =>
      (dumpMembers generator level more).map fun rest => value ++ generator.behind more ++ rest

end

/-- `json_generator_to_data`, which gives nothing for a value. -/
def jsonGeneratorToData (generator : JsonGenerator) : JsonNode → Option Bytes
  | .null => some (ascii "null")
  | .array elements => dumpNode generator 0 [] (.array elements)
  | .object members => dumpNode generator 0 [] (.object members)
  | _ => none

end Model

section Strings

/-- A byte of a string, when it is read again. -/
def reread (b : UInt8) : UInt8 := if b = 11 then 118 else b

theorem reread_eq {b : UInt8} (other : b ≠ 11) : reread b = b := if_neg other

theorem reread_ne_zero {b : UInt8} (some_byte : b ≠ 0) : reread b ≠ 0 := by
  unfold reread
  split_ifs
  · decide
  · exact some_byte

theorem octalDigit_facts (n : ℕ) : isOctalDigit (octalDigit n) = true ∧ (octalDigit n).toNat - 48 =
    n % 8 := by
  have all : ∀ d < 8, isOctalDigit (UInt8.ofNat (48 + d)) = true ∧ (UInt8.ofNat (48 + d)).toNat -
      48 = d := by decide
  exact all (n % 8) (Nat.mod_lt n (by decide))

/-- Three octal digits are the byte that they are made of. -/
theorem escape_octal {b : UInt8} (low : b < 32) (text : Bytes) :
    escape (octalDigit (b.toNat / 64) :: octalDigit (b.toNat / 8) :: octalDigit b.toNat :: text) =
    some ([b], text) := by
  have less : b.toNat < 32 := UInt8.lt_iff_toNat_lt.1 low
  obtain ⟨middle, middle_digit⟩ := octalDigit_facts (b.toNat / 8)
  obtain ⟨last, last_digit⟩ := octalDigit_facts b.toNat
  have first : octalDigit (b.toNat / 64) = 48 := by rw [Nat.div_eq_of_lt (by omega)]; rfl
  have loop : octalLoop 2 0 (octalDigit (b.toNat / 8) :: octalDigit b.toNat :: text) =
      (b.toNat, text) := by
    rw [octalLoop, if_pos middle, octalLoop, if_pos last, octalLoop, middle_digit, last_digit]
    · exact Prod.ext (by dsimp only; omega) rfl
    · intros
      simp_all
  rw [first]
  show some ([UInt8.ofNat (octalLoop 2 0 _).1], (octalLoop 2 0 _).2) = _
  rw [loop, UInt8.ofNat_toNat]

theorem escape_letter {b letter : UInt8} (has : escapeLetter b = some letter) (text : Bytes) :
    escape (letter :: text) = some ([reread b], text) := by
  unfold escapeLetter at has
  split at has <;> cases has <;> rfl

theorem no_letter {b : UInt8} (none_given : escapeLetter b = none) : b ≠ 34 ∧ b ≠ 92 ∧ b ≠ 11 := by
  refine ⟨?_, ?_, ?_⟩ <;>
  · rintro rfl
    cases none_given

/-- **A byte that is written takes one turn.** -/
theorem scanDq_strescapeByte (b : UInt8) (fuel : ℕ) (gstring text : Bytes) :
    scanDq (fuel + 1) gstring (strescapeByte b ++ text) = scanDq fuel
    (gstring ++ [reread b]) text := by
  unfold strescapeByte
  split
  · rename_i letter has
    rw [List.cons_append, scanDq, if_neg (by decide), if_pos rfl]
    simp only [List.singleton_append, escape_letter has, Option.bind_some]
  · rename_i none_given
    obtain ⟨quote, backslash, vt⟩ := no_letter none_given
    split
    · rename_i low
      rw [List.cons_append, scanDq, if_neg (by decide), if_pos rfl]
      simp only [List.cons_append, List.nil_append, escape_octal low, Option.bind_some, reread_eq vt]
    · rw [List.singleton_append, scanDq, if_neg quote, if_neg backslash, reread_eq vt]

/-- A string that is written takes as many turns as it has bytes. -/
theorem scanDq_strescape (str : Bytes) (fuel : ℕ) (gstring text : Bytes) :
    scanDq (str.length + fuel) gstring (jsonStrescape str ++ text) = scanDq fuel
    (gstring ++ str.map reread) text := by
  induction str generalizing gstring with
  | nil => simp [jsonStrescape]
  | cons b str ih =>
    have split : jsonStrescape (b :: str) ++ text = strescapeByte b ++
        (jsonStrescape str ++ text) := by
      simp [jsonStrescape]
    rw [split, List.length_cons, Nat.add_right_comm, scanDq_strescapeByte, ih]
    simp

theorem length_strescape (str : Bytes) : str.length ≤ (jsonStrescape str).length := by
  induction str with
  | nil => exact le_rfl
  | cons b str ih =>
    have one : 1 ≤ (strescapeByte b).length := by
      unfold strescapeByte
      split
      · simp
      · split <;> simp
    simp only [jsonStrescape, List.flatMap_cons, List.length_append, List.length_cons] at ih ⊢
    omega

/-- **A string that is written is read as a token.** -/
theorem nextToken_strescape {str : Bytes} (terminated : 0 ∉ str) (rest : Bytes) :
    nextToken (34 :: (jsonStrescape str ++ 34 :: rest)) = some (.string (str.map reread), rest) := by
  have enough : ∃ fuel, (jsonStrescape str ++ 34 :: rest).length + 1 = str.length + (fuel + 1) := by
    have less := length_strescape str
    exact ⟨(jsonStrescape str).length - str.length + (rest.length + 1), by
      simp only [List.length_append, List.length_cons]; omega⟩
  obtain ⟨fuel, enough⟩ := enough
  have scanned : scanDq ((jsonStrescape str ++ 34 :: rest).length + 1) []
      (jsonStrescape str ++ 34 :: rest) = some (some (str.map reread), rest) := by
    rw [enough, scanDq_strescape, List.nil_append, scanDq, if_pos rfl]
  rw [nextToken_string scanned, List.takeWhile_eq_self_iff.2]
  intro c member
  obtain ⟨b, listed, rfl⟩ := List.mem_map.1 member
  exact decide_eq_true (reread_ne_zero fun zero => terminated (zero ▸ listed))

/-- A name that is read as it is written. -/
def PlainName (name : Bytes) : Prop := name ≠ [] ∧ ∀ c ∈ name, c ≠ 0 ∧ c ≠ 34 ∧ c ≠ 92

theorem plainName_of_all {name : Bytes} (some_byte : name ≠ [])
    (all : name.all (fun c => decide (c ≠ 0 ∧ c ≠ 34 ∧ c ≠ 92)) = true) : PlainName name :=
  ⟨some_byte, List.all_iff_forall_prop.1 all⟩

theorem scanDq_name {name : Bytes} (plain : ∀ c ∈ name, c ≠ 0 ∧ c ≠ 34 ∧ c ≠ 92) (fuel : ℕ)
    (gstring text : Bytes) : scanDq (name.length + fuel) gstring (name ++ text) =
    scanDq fuel (gstring ++ name) text := by
  induction name generalizing gstring with
  | nil => simp
  | cons c name ih =>
    obtain ⟨-, quote, backslash⟩ := plain c List.mem_cons_self
    rw [List.length_cons, Nat.add_right_comm, List.cons_append, scanDq, if_neg quote, if_neg backslash,
      ih fun d member => plain d (List.mem_cons_of_mem _ member)]
    simp

/-- **A name that is written is read as a token.** -/
theorem nextToken_name {name : Bytes} (plain : ∀ c ∈ name, c ≠ 0 ∧ c ≠ 34 ∧ c ≠ 92) (rest : Bytes) :
    nextToken (34 :: (name ++ 34 :: rest)) = some (.string name, rest) := by
  have scanned : scanDq ((name ++ 34 :: rest).length + 1) [] (name ++ 34 :: rest) =
      some (some name, rest) := by
    rw [List.length_append, Nat.add_assoc, scanDq_name plain, List.nil_append, scanDq, if_pos rfl]
  rw [nextToken_string scanned, List.takeWhile_eq_self_iff.2 fun c member =>
    decide_eq_true (plain c member).1]

end Strings

section Numbers

/-- What ends a value: a comma, or a blank. -/
def isEnd (c : UInt8) : Bool := c = 44 || isSkip c

theorem end_cases {c : UInt8} (ends : isEnd c = true) : c = 44 ∨ c = 32 ∨ c = 9 ∨ c = 13 ∨ c = 10 := by
  simpa [isEnd, isSkip, or_assoc] using ends

theorem digitOf_digit {c : UInt8} (digit : isDigit c = true) : digitOf c = some (c.toNat - 48) :=
  if_pos digit

theorem char2Num_digit {c : UInt8} (digit : isDigit c = true) {base : ℕ} (ten : 10 ≤ base) :
    (jsonScannerChar2Num c base).isSome = true := by
  have bounds := (CString.isDigit_iff c).1 digit
  have less : c.toNat - 48 < base := by omega
  simp [jsonScannerChar2Num, digitOf_digit digit, Option.filter, less]

/-- The digits of a number are all its characters, up to what ends it. -/
theorem numberLoop_digits {digits : Bytes} (all : ∀ c ∈ digits, isDigit c = true) {c : UInt8}
    (ends : isEnd c = true) (token : NumberToken) (plain : token ≠ .float) (gstring : Bytes)
    (last : UInt8) (text : Bytes) : numberLoop token gstring last (digits ++ c :: text) =
    (some token, gstring ++ digits, c :: text) := by
  induction digits generalizing gstring last with
  | nil =>
    have stops : goesOn token last c = false := by
      have kind : decide (token = .float) = false := decide_eq_false plain
      rcases end_cases ends with rfl | rfl | rfl | rfl | rfl <;> simp [goesOn, kind] <;> decide
    rw [List.nil_append, numberLoop, stops, List.append_nil]
    rfl
  | cons d digits ih =>
    have digit := all d List.mem_cons_self
    have more : goesOn token last d = true := by
      rw [goesOn, char2Num_digit digit (by decide)]
      rfl
    have bounds := (CString.isDigit_iff d).1 digit
    have point : d ≠ 46 := by
      rintro rfl
      exact absurd bounds.1 (by decide)
    have kind : numberWith token d = some token := by
      unfold numberWith
      rw [if_neg point, if_pos digit]
    rw [List.cons_append, numberLoop, if_pos more, kind]
    dsimp only
    rw [ih fun b member => all b (List.mem_cons_of_mem _ member)]
    simp

theorem valueIn_digits {digits : Bytes} (all : ∀ c ∈ digits, isDigit c = true) :
    valueIn 10 digits = value digits := by
  unfold valueIn value
  induction digits using List.reverseRecOn with
  | nil => rfl
  | append_singleton digits c ih =>
    have digit := all c (List.mem_append_right _ List.mem_cons_self)
    rw [List.foldl_append, List.foldl_append, ih fun b member => all b (List.mem_append_left _ member)]
    simp [digitOf_digit digit]

theorem gAsciiStrtoull_digits {digits : Bytes} (all : ∀ c ∈ digits, isDigit c = true)
    (some_digit : digits ≠ []) (fits : value digits < 2 ^ 64) :
    gAsciiStrtoull 10 digits = (UInt64.ofNat (value digits), []) := by
  obtain ⟨d, more, rfl⟩ := List.exists_cons_of_ne_nil some_digit
  have sign := CString.takeSign_digits (all d List.mem_cons_self) more
  have mark : skipHexMark 10 (d :: more) = (none, d :: more) := by
    unfold skipHexMark
    split
    · rename_i same
      rw [if_neg fun hex => absurd hex.1 (by decide), same]
    · rfl
  have whole : (d :: more).takeWhile (fun c => (jsonScannerChar2Num c 10).isSome) = d :: more :=
    List.takeWhile_eq_self_iff.2 fun c member => char2Num_digit (all c member) le_rfl
  have small : min (valueIn 10 (d :: more)) (2 ^ 64 - 1) = value (d :: more) := by
    rw [valueIn_digits all]
    omega
  simp only [gAsciiStrtoull, sign, mark, whole, small]
  simp

theorem decimal_cons {n : ℕ} (positive : 0 < n) : ∃ d digits, decimal n = d :: digits ∧ d ≠ 48 := by
  induction n using CString.decimal_induction with
  | small n less =>
    refine ⟨_, [], CString.decimal_small less, fun zero => ?_⟩
    have same := congrArg UInt8.toNat zero
    rw [CString.toNat_digit less] at same
    change 48 + n = 48 at same
    omega
  | large n more ih =>
    obtain ⟨d, digits, same, other⟩ := ih (by omega)
    exact ⟨d, digits ++ [CString.digit (n % 10)], by rw [CString.decimal_large more, same]; rfl, other⟩

theorem not_identifierFirst {d : UInt8} (digit : isDigit d = true) : isIdentifierFirst d = false := by
  have bounds := (CString.isDigit_iff d).1 digit
  have underscore : d ≠ 95 := by
    rintro rfl
    exact absurd bounds.2 (by decide)
  have above {c : UInt8} (high : 57 < c.toNat) : ¬ c ≤ d := by
    rw [UInt8.le_iff_toNat_le]
    omega
  simp [isIdentifierFirst, underscore, above (c := 97) (by decide), above (c := 65) (by decide)]

/-- **A number that is written is read as a token.** -/
theorem nextToken_decimal {n : ℕ} (fits : n < 2 ^ 64) {c : UInt8} (ends : isEnd c = true)
    (text : Bytes) : nextToken (decimal n ++ c :: text) = some (.int (UInt64.ofNat n), c :: text) := by
  rcases Nat.eq_zero_or_pos n with rfl | positive
  · rcases end_cases ends with rfl | rfl | rfl | rfl | rfl <;> exact nextToken_eq rfl rfl
  · obtain ⟨d, digits, same, other⟩ := decimal_cons positive
    have all : ∀ b ∈ d :: digits, isDigit b = true := fun b member => CString.isDigit_of_mem_decimal
      (same ▸ member)
    have digit := all d List.mem_cons_self
    have bounds := (CString.isDigit_iff d).1 digit
    have number : value (d :: digits) = n := by rw [← same, CString.value_decimal]
    have terminated : (d :: digits).takeWhile (· ≠ 0) = d :: digits := by
      refine List.takeWhile_eq_self_iff.2 fun b member => decide_eq_true ?_
      rintro rfl
      exact absurd (all 0 member) (by decide)
    have scanned : scanNumber .int [d] d (digits ++ c :: text) =
        (.int (UInt64.ofNat n), c :: text) := by
      have loop := numberLoop_digits (fun b member => all b (List.mem_cons_of_mem _ member)) ends .int
        NumberToken.noConfusion [d] d text
      have read := gAsciiStrtoull_digits all (List.cons_ne_nil _ _) (number.symm ▸ fits)
      rw [number] at read
      simp only [scanNumber, loop, numberToken, NumberToken.base, List.singleton_append,
        terminated, read]
      rfl
    have found : getTokenLl (d :: (digits ++ c :: text)) =
        some (.int (UInt64.ofNat n), c :: text) := by
      have letter := not_identifierFirst digit
      have quote : d ≠ 39 := by rintro rfl; exact absurd bounds.1 (by decide)
      have quotes : d ≠ 34 := by rintro rfl; exact absurd bounds.1 (by decide)
      have point : d ≠ 46 := by rintro rfl; exact absurd bounds.1 (by decide)
      have dollar : d ≠ 36 := by rintro rfl; exact absurd bounds.1 (by decide)
      rw [getTokenLl, letter, if_neg (by decide), if_neg quote, if_neg quotes, if_neg point,
        if_neg dollar, if_neg other, if_pos digit, scanned]
    rw [same]
    exact nextToken_eq found rfl

theorem natAbs_toInt_lt (v : Int64) : v.toInt.natAbs < 2 ^ 64 := by
  have above := v.toInt_lt
  have below := v.le_toInt
  omega

/-- **A word that is written is read as a token.** -/
theorem nextToken_word (ch : UInt8) (name : Bytes) (first : isIdentifierFirst ch = true)
    (nth : name.all isIdentifierNth = true) {c : UInt8} (ends : isEnd c = true) (text : Bytes) :
    nextToken (ch :: (name ++ c :: text)) = some (identifierToken (ch :: name), c :: text) := by
  have stops : ¬ isIdentifierNth c = true := by
    rcases end_cases ends with rfl | rfl | rfl | rfl | rfl <;> decide
  have word : (name ++ c :: text).takeWhile isIdentifierNth = name := by
    rw [List.takeWhile_append_of_pos (List.all_eq_true.1 nth), List.takeWhile_cons_of_neg stops,
      List.append_nil]
  have rest : (name ++ c :: text).dropWhile isIdentifierNth = c :: text := by
    rw [List.dropWhile_append_of_pos (List.all_eq_true.1 nth), List.dropWhile_cons_of_neg stops]
  refine nextToken_eq ?_ ?_
  · rw [getTokenLl, if_pos first, word, rest]
  · unfold identifierToken
    split_ifs <;> rfl

end Numbers

end Gebr.Json
