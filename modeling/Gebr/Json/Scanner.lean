/-
**The tokens of JSON.**

The scanner is one of a general kind: besides the tokens of JSON it knows comments, strings in
single quotes, names, and numbers in binary, octal and hexadecimal. A text is a C string, and ends
at its terminator.

* `gAsciiStrtoull`: a number in some base.
* `numberLoop`, `scanNumber`: a number, whose kind may change on the way.
* `escape`, `scanDq`: a string in double quotes, with its escapes.
* `getTokenLl`, `nextToken`: a token, and the next one that is not passed over.
* `nextToken_shorter`: a token that is not the end takes something from the text.
* `scanDq_enough`, `getTokenLoop_enough`: the loops are given as many turns as they can need.
-/

import Gebr.Daemon.ParseParameters
import Gebr.Lib.CString

namespace Gebr.Json

open Gebr.Daemon.Parse (strtodEnd isHexDigit)
open Gebr.Lib
open Gebr.Lib.CString (ascii isDigit isSpace takeSign)

abbrev Bytes : Type := List UInt8

section Model

/-- The words that have a token of their own. -/
inductive JsonSymbol where
  | jsonTrue | jsonFalse | jsonNull | jsonVar
  deriving DecidableEq, Repr

/-- `GErrorType`, as far as the scanner gives it. -/
inductive GErrorType where
  | unknown
  | unexpEof
  | unexpEofInString
  | unexpEofInComment
  | nonDigitInConst
  | digitRadix
  deriving DecidableEq, Repr

/-- A token with its value; a float by what `g_strtod` reads of it. -/
inductive Token where
  | eof
  | error (error : GErrorType)
  | int (value : UInt64)
  | float (literal : Bytes)
  | string (value : Bytes)
  | identifier (name : Bytes)
  | symbol (symbol : JsonSymbol)
  | commentSingle
  | char (c : UInt8)
  deriving DecidableEq, Repr

/-- `cset_skip_characters`. -/
def isSkip (c : UInt8) : Bool := c = 32 || c = 9 || c = 13 || c = 10

/-- `cset_identifier_first`. -/
def isIdentifierFirst (c : UInt8) : Bool := c = 95 || (97 ≤ c && c ≤ 122) || (65 ≤ c && c ≤ 90)

/-- `cset_identifier_nth`. -/
def isIdentifierNth (c : UInt8) : Bool := isDigit c || c = 45 || isIdentifierFirst c

/-- The digit that a letter is, in any base up to 36. -/
def digitOf (c : UInt8) : Option ℕ :=
  if isDigit c = true then some (c.toNat - 48)
  else if 65 ≤ c ∧ c ≤ 90 then some (c.toNat - 55)
  else if 97 ≤ c ∧ c ≤ 122 then some (c.toNat - 87)
  else none

/-- `json_scanner_char_2_num`. -/
def jsonScannerChar2Num (c : UInt8) (base : ℕ) : Option ℕ := (digitOf c).filter (· < base)

/-- The number that digits stand for. -/
def valueIn (base : ℕ) (digits : Bytes) : ℕ :=
  digits.foldl (fun v c => base * v + (digitOf c).getD 0) 0

/-- The mark in front of a hexadecimal number: the text from its letter on, and behind it. -/
def skipHexMark (base : ℕ) : Bytes → Option Bytes × Bytes
  | 48 :: x :: rest => if base = 16 ∧ (x = 120 ∨ x = 88) then (some (x :: rest), rest) else
      (none, 48 :: x :: rest)
  | s => (none, s)

/-- `g_ascii_strtoull`: the number, and `endptr`. -/
def gAsciiStrtoull (base : ℕ) (nptr : Bytes) : UInt64 × Bytes :=
  let (negative, s) := takeSign (nptr.dropWhile isSpace)
  let (mark, s) := skipHexMark base s
  let digits := s.takeWhile fun c => (jsonScannerChar2Num c base).isSome
  if digits = [] then (0, mark.getD nptr)
  else
    let result := UInt64.ofNat (min (valueIn base digits) (2 ^ 64 - 1))
    (if negative = true then -result else result, s.drop digits.length)

/-- The kinds of number. -/
inductive NumberToken where
  | binary | octal | int | hex | float
  deriving DecidableEq, Repr

def NumberToken.base : NumberToken → ℕ
  | .binary => 2
  | .octal => 8
  | .int => 10
  | .hex => 16
  | .float => 10

/-- The number goes on with this character. -/
def goesOn (token : NumberToken) (last ch : UInt8) : Bool :=
  (jsonScannerChar2Num ch 36).isSome || ch = 46 ||
    (token = .float && (last = 101 || last = 69) && (ch = 43 || ch = 45))

/-- What the number is with this character; `none` where it is an error. -/
def numberWith (token : NumberToken) (ch : UInt8) : Option NumberToken :=
  if ch = 46 then if token = .int ∨ token = .octal then some .float else none
  else if isDigit ch = true then some token
  else if ch = 45 ∨ ch = 43 then if token = .float then some token else none
  else if ch = 101 ∨ ch = 69 then
    match token with
    | .hex => some .hex
    | .binary => none
    | _ => some .float
  else if token = .hex then some .hex
  else none

/-- The loop over a number: its kind, if it is no error, its characters, and the text behind it. -/
def numberLoop : NumberToken → Bytes → UInt8 → Bytes → Option NumberToken × Bytes × Bytes
  | token, gstring, _, [] => (some token, gstring, [])
  | token, gstring, last, ch :: text =>
    if goesOn token last ch = true then
      match numberWith token ch with
      | none => (none, gstring, text)
      | some token => numberLoop token (gstring ++ [ch]) ch text
    else (some token, gstring, ch :: text)

/-- A token that was read to this end, or an error. -/
def Token.upTo (token : Token) : Bytes → Token
  | [] => token
  | c :: _ => .error (if c = 101 ∨ c = 69 then .nonDigitInConst else .digitRadix)

/-- The value of a number. An error in the loop is not kept: the value is set to zero, which is the
unknown error. -/
def numberToken (token : Option NumberToken) (gstring : Bytes) : Token :=
  let str := gstring.takeWhile (· ≠ 0)
  match token with
  | none => .error .unknown
  | some .float => (Token.float (str.take (str.length - (strtodEnd str).length))).upTo (strtodEnd str)
  | some token => (Token.int (gAsciiStrtoull token.base str).1).upTo (gAsciiStrtoull token.base str).2

/-- `number_parsing`: a number whose first characters are already read. -/
def scanNumber (token : NumberToken) (gstring : Bytes) (last : UInt8) (text : Bytes) : Token × Bytes :=
  let (token, gstring, text) := numberLoop token gstring last text
  (numberToken token gstring, text)

/-- A number that begins with a zero. -/
def scanZero : Bytes → Token × Bytes
  | x :: text =>
    if x = 120 ∨ x = 88 then
      match text with
      | [] => (.error .unexpEof, [])
      | ch :: text => if jsonScannerChar2Num ch 16 = none then (.error .digitRadix, text) else
          scanNumber .hex [ch] ch text
    else if x = 98 ∨ x = 66 then
      match text with
      | [] => (.error .unexpEof, [])
      | ch :: text =>
        if jsonScannerChar2Num ch 10 = none then (.error .nonDigitInConst, text) else scanNumber
          .binary [ch] ch text
    else scanNumber .octal [48] 48 (x :: text)
  | [] => scanNumber .octal [48] 48 []

/-- `to_hex_digit`. -/
def toHexDigit (c : UInt8) : ℕ := if c ≤ 57 then c.toNat - 48 else c.toNat % 8 + 9

/-- The loop of `json_scanner_get_unichar`: a character that is no digit ends it, and is lost. -/
def unicharLoop : ℕ → ℕ → Bytes → ℕ × Bytes
  | 0, uchar, text => (uchar, text)
  | _ + 1, uchar, [] => (uchar, [])
  | more + 1, uchar, ch :: text =>
    if isHexDigit ch = true then unicharLoop more (uchar + toHexDigit ch * 16 ^ more) text else
      (uchar, text)

/-- `json_scanner_get_unichar`. -/
def jsonScannerGetUnichar (text : Bytes) : ℕ × Bytes := unicharLoop 4 0 text

/-- `g_unichar_type (c) == G_UNICODE_SURROGATE`. -/
def isSurrogate (c : ℕ) : Bool := 0xD800 ≤ c && c ≤ 0xDFFF

/-- The bytes that `g_string_append_unichar` appends. -/
def utf8 (c : ℕ) : Bytes :=
  if c < 0x80 then [UInt8.ofNat c]
  else if c < 0x800 then [UInt8.ofNat (0xC0 + c / 64), UInt8.ofNat (0x80 + c % 64)]
  else if c < 0x10000 then
    [UInt8.ofNat (0xE0 + c / 4096), UInt8.ofNat (0x80 + c / 64 % 64), UInt8.ofNat (0x80 + c % 64)]
  else
    [UInt8.ofNat (0xF0 + c / 262144), UInt8.ofNat (0x80 + c / 4096 % 64),
      UInt8.ofNat (0x80 + c / 64 % 64), UInt8.ofNat (0x80 + c % 64)]

/-- An escape with a code, which is a surrogate only with another one behind it; otherwise an
assertion fails. -/
def unicodeEscape (text : Bytes) : Option (Bytes × Bytes) :=
  let (ucs, text) := jsonScannerGetUnichar text
  if isSurrogate ucs = true then
    match text with
    | 92 :: 117 :: text =>
      let (lo, text) := jsonScannerGetUnichar text
      if isSurrogate lo = true then some (utf8 ((ucs % 1024 * 1024 + lo % 1024) + 0x10000), text)
        else none
    | _ => none
  else some (utf8 ucs, text)

def isOctalDigit (c : UInt8) : Bool := 48 ≤ c && c ≤ 55

/-- At most so many more octal digits. -/
def octalLoop : ℕ → ℕ → Bytes → ℕ × Bytes
  | more + 1, i, ch :: text => if isOctalDigit ch = true then
      octalLoop more (i * 8 + (ch.toNat - 48)) text else (i, ch :: text)
  | _, i, text => (i, text)

/-- What an escape stands for, and the text behind it; `none` where an assertion fails. -/
def escape : Bytes → Option (Bytes × Bytes)
  | [] => some ([], [])
  | 110 :: text => some ([10], text)
  | 116 :: text => some ([9], text)
  | 114 :: text => some ([13], text)
  | 98 :: text => some ([8], text)
  | 102 :: text => some ([12], text)
  | 117 :: text => if text.head?.any isHexDigit = true then unicodeEscape text else some ([], text)
  | ch :: text =>
    if isOctalDigit ch = true then
      some ([UInt8.ofNat (octalLoop 2 (ch.toNat - 48) text).1], (octalLoop 2 (ch.toNat - 48) text).2)
    else some ([ch], text)

/-- The loop over a string in double quotes: the string, if it is closed, and the text behind it. -/
def scanDq : ℕ → Bytes → Bytes → Option (Option Bytes × Bytes)
  | 0, _, text => some (none, text)
  | _ + 1, _, [] => some (none, [])
  | fuel + 1, gstring, ch :: text =>
    if ch = 34 then some (some gstring, text)
    else if ch = 92 then (escape text).bind fun escaped => scanDq fuel (gstring ++ escaped.1) escaped.2
    else scanDq fuel (gstring ++ [ch]) text

/-- The text up to a character, if it is there, and behind it. -/
def scanUpTo (c : UInt8) (text : Bytes) : Option Bytes × Bytes :=
  match text.dropWhile (· ≠ c) with
  | [] => (none, [])
  | _ :: rest => (some (text.takeWhile (· ≠ c)), rest)

/-- A string, as C reads it. -/
def stringToken : Option Bytes → Token
  | none => .error .unexpEofInString
  | some gstring => .string (gstring.takeWhile (· ≠ 0))

/-- A name, or one of the words. -/
def identifierToken (name : Bytes) : Token :=
  if name = ascii "true" then .symbol .jsonTrue
  else if name = ascii "false" then .symbol .jsonFalse
  else if name = ascii "null" then .symbol .jsonNull
  else if name = ascii "var" then .symbol .jsonVar
  else .identifier name

/-- `json_scanner_get_token_ll`; `none` where an assertion fails. A slash begins a comment that ends
at the next one. -/
def getTokenLl : Bytes → Option (Token × Bytes)
  | [] => some (.eof, [])
  | ch :: text =>
    if isIdentifierFirst ch = true then
      some (identifierToken (ch :: text.takeWhile isIdentifierNth), text.dropWhile isIdentifierNth)
    else if ch = 39 then some (stringToken (scanUpTo 39 text).1, (scanUpTo 39 text).2)
    else if ch = 34 then (scanDq (text.length + 1) [] text).map fun scanned =>
      (stringToken scanned.1, scanned.2)
    else if ch = 46 then some (scanNumber .float [48, 46, text.headD 0] (text.headD 0) text.tail)
    else if ch = 36 then some (scanNumber .hex [text.headD 0] (text.headD 0) text.tail)
    else if ch = 48 then some (scanZero text)
    else if isDigit ch = true then some (scanNumber .int [ch] ch text)
    else if ch = 47 then
      some (if (scanUpTo 47 text).1 = none then .error .unexpEofInComment else .commentSingle,
        (scanUpTo 47 text).2)
    else some (.char ch, text)

/-- A token that is passed over. -/
def Token.isSkipped : Token → Bool
  | .char c => isSkip c
  | .commentSingle => true
  | _ => false

/-- The loop of `json_scanner_get_token_i`. -/
def getTokenLoop : ℕ → Bytes → Option (Token × Bytes)
  | 0, text => some (.eof, text)
  | fuel + 1, text => (getTokenLl text).bind fun scanned =>
    if scanned.1.isSkipped = true then getTokenLoop fuel scanned.2 else some scanned

/-- `json_scanner_get_next_token`, and `json_scanner_peek_next_token` with the text that is left as
it was. -/
def nextToken (text : Bytes) : Option (Token × Bytes) := getTokenLoop (text.length + 1) text

end Model

section Shorter

theorem length_numberLoop_le (token : NumberToken) (gstring : Bytes) (last : UInt8) (text : Bytes) :
    (numberLoop token gstring last text).2.2.length ≤ text.length := by
  induction text generalizing token gstring last with
  | nil => exact le_rfl
  | cons ch text ih =>
    unfold numberLoop
    split_ifs
    · split
      · exact Nat.le_succ _
      · exact (ih _ _ _).trans (Nat.le_succ _)
    · exact le_rfl

theorem length_scanNumber_le (token : NumberToken) (gstring : Bytes) (last : UInt8) (text : Bytes) :
    (scanNumber token gstring last text).2.length ≤ text.length :=
  length_numberLoop_le token gstring last text

theorem length_scanZero_le (text : Bytes) : (scanZero text).2.length ≤ text.length := by
  rcases text with _ | ⟨x, _ | ⟨ch, text⟩⟩
  · exact length_scanNumber_le _ _ _ _
  · unfold scanZero
    dsimp only
    split_ifs
    · exact Nat.zero_le _
    · exact Nat.zero_le _
    · exact length_scanNumber_le _ _ _ _
  · unfold scanZero
    dsimp only
    have less : text.length ≤ (x :: ch :: text).length := by simp only [List.length_cons]; omega
    split_ifs
    · exact less
    · exact (length_scanNumber_le _ _ _ _).trans less
    · exact less
    · exact (length_scanNumber_le _ _ _ _).trans less
    · exact length_scanNumber_le _ _ _ _

theorem length_unicharLoop_le (more uchar : ℕ) (text : Bytes) :
    (unicharLoop more uchar text).2.length ≤ text.length := by
  induction more generalizing uchar text with
  | zero => exact le_rfl
  | succ more ih =>
    cases text with
    | nil => exact le_rfl
    | cons ch text =>
      unfold unicharLoop
      split_ifs
      · exact (ih _ _).trans (Nat.le_succ _)
      · exact Nat.le_succ _

theorem length_octalLoop_le (more i : ℕ) (text : Bytes) :
    (octalLoop more i text).2.length ≤ text.length := by
  induction more generalizing i text with
  | zero => exact le_rfl
  | succ more ih =>
    cases text with
    | nil => exact le_rfl
    | cons ch text =>
      unfold octalLoop
      split_ifs
      · exact (ih _ _).trans (Nat.le_succ _)
      · exact le_rfl

theorem length_unicodeEscape_le {text rest bytes : Bytes}
    (taken : unicodeEscape text = some (bytes, rest)) : rest.length ≤ text.length := by
  unfold unicodeEscape at taken
  have first : (jsonScannerGetUnichar text).2.length ≤ text.length := length_unicharLoop_le 4 0 text
  dsimp only at taken
  split_ifs at taken
  · split at taken
    · rename_i after same
      split_ifs at taken
      obtain ⟨-, rfl⟩ := Prod.mk.inj (Option.some.inj taken)
      have second : (jsonScannerGetUnichar after).2.length ≤ after.length :=
        length_unicharLoop_le 4 0 after
      rw [same, List.length_cons, List.length_cons] at first
      omega
    · cases taken
  · obtain ⟨-, rfl⟩ := Prod.mk.inj (Option.some.inj taken)
    exact first

theorem length_escape_le {text rest bytes : Bytes} (taken : escape text = some (bytes, rest)) :
    rest.length ≤ text.length := by
  unfold escape at taken
  split at taken
  case h_7 after =>
    split_ifs at taken
    · exact (length_unicodeEscape_le taken).trans (Nat.le_succ _)
    · obtain ⟨-, rfl⟩ := Prod.mk.inj (Option.some.inj taken)
      exact Nat.le_succ _
  case h_8 ch after _ _ _ _ _ _ =>
    split_ifs at taken
    · obtain ⟨-, rfl⟩ := Prod.mk.inj (Option.some.inj taken)
      exact (length_octalLoop_le _ _ _).trans (Nat.le_succ _)
    · obtain ⟨-, rfl⟩ := Prod.mk.inj (Option.some.inj taken)
      exact Nat.le_succ _
  all_goals
    obtain ⟨-, rfl⟩ := Prod.mk.inj (Option.some.inj taken)
    simp

theorem length_scanDq_le {fuel : ℕ} {gstring text rest : Bytes} {string : Option Bytes}
    (taken : scanDq fuel gstring text = some (string, rest)) : rest.length ≤ text.length := by
  induction fuel generalizing gstring text with
  | zero =>
    obtain ⟨-, rfl⟩ := Prod.mk.inj (Option.some.inj taken)
    exact le_rfl
  | succ fuel ih =>
    cases text with
    | nil =>
      obtain ⟨-, rfl⟩ := Prod.mk.inj (Option.some.inj taken)
      exact le_rfl
    | cons ch text =>
      unfold scanDq at taken
      split_ifs at taken
      · obtain ⟨-, rfl⟩ := Prod.mk.inj (Option.some.inj taken)
        exact Nat.le_succ _
      · obtain ⟨escaped, found, inner⟩ := Option.bind_eq_some_iff.1 taken
        have less := length_escape_le found
        have rest := ih inner
        rw [List.length_cons]
        omega
      · exact (ih taken).trans (Nat.le_succ _)

theorem length_scanUpTo_le (c : UInt8) (text : Bytes) : (scanUpTo c text).2.length ≤ text.length := by
  have less := (List.dropWhile_suffix (l := text) fun b => decide (b ≠ c)).length_le
  unfold scanUpTo
  split
  · exact Nat.zero_le _
  · rename_i same
    rw [same, List.length_cons] at less
    exact (Nat.le_succ _).trans less

theorem of_ite {α : Type} {P condition : Prop} [Decidable condition] {a b result : α}
    (taken : (if condition then a else b) = result) (yes : a = result → P) (no : b = result → P) :
    P := by
  split at taken
  · exact yes taken
  · exact no taken

theorem getTokenLl_shorter {ch : UInt8} {text rest : Bytes} {token : Token}
    (taken : getTokenLl (ch :: text) = some (token, rest)) : rest.length ≤ text.length := by
  have tail : text.tail.length ≤ text.length := by simp
  have same {scanned : Token × Bytes} (less : scanned.2.length ≤ text.length)
      (taken : some scanned = some (token, rest)) : rest.length ≤ text.length := by
    obtain rfl := Option.some.inj taken
    exact less
  unfold getTokenLl at taken
  refine of_ite taken (same (List.dropWhile_suffix _).length_le) fun taken => ?_
  refine of_ite taken (same (length_scanUpTo_le _ _)) fun taken => ?_
  refine of_ite taken (fun taken => ?_) fun taken => ?_
  · obtain ⟨scanned, found, taken⟩ := Option.map_eq_some_iff.1 taken
    exact same (length_scanDq_le found) (congrArg some taken)
  refine of_ite taken (same ((length_scanNumber_le _ _ _ _).trans tail)) fun taken => ?_
  refine of_ite taken (same ((length_scanNumber_le _ _ _ _).trans tail)) fun taken => ?_
  refine of_ite taken (same (length_scanZero_le _)) fun taken => ?_
  refine of_ite taken (same (length_scanNumber_le _ _ _ _)) fun taken => ?_
  exact of_ite taken (same (length_scanUpTo_le _ _)) (same le_rfl)

/-- **A string is scanned to its end**: as many turns as the text has bytes, and one more, are
enough. -/
theorem scanDq_enough {fuel more : ℕ} {gstring text : Bytes} (enough : text.length < fuel)
    (enough' : text.length < more) : scanDq fuel gstring text = scanDq more gstring text := by
  induction fuel generalizing more gstring text with
  | zero => exact absurd enough (Nat.not_lt_zero _)
  | succ fuel ih =>
    obtain ⟨more, rfl⟩ := Nat.exists_eq_succ_of_ne_zero (Nat.ne_of_gt (Nat.zero_lt_of_lt enough'))
    cases text with
    | nil => rfl
    | cons ch text =>
      rw [List.length_cons] at enough enough'
      unfold scanDq
      split_ifs
      · rfl
      · refine Option.bind_congr fun escaped taken => ?_
        have less := length_escape_le taken
        exact ih (by omega) (by omega)
      · exact ih (by omega) (by omega)

/-- **What is passed over comes to an end**: so do the tokens that are passed over. -/
theorem getTokenLoop_enough {fuel more : ℕ} {text : Bytes} (enough : text.length < fuel)
    (enough' : text.length < more) : getTokenLoop fuel text = getTokenLoop more text := by
  induction fuel generalizing more text with
  | zero => exact absurd enough (Nat.not_lt_zero _)
  | succ fuel ih =>
    obtain ⟨more, rfl⟩ := Nat.exists_eq_succ_of_ne_zero (Nat.ne_of_gt (Nat.zero_lt_of_lt enough'))
    unfold getTokenLoop
    refine Option.bind_congr fun scanned taken => ?_
    split_ifs with skipped
    · cases text with
      | nil =>
        obtain rfl := Option.some.inj taken
        cases skipped
      | cons ch text =>
        have less : scanned.2.length ≤ text.length := getTokenLl_shorter taken
        rw [List.length_cons] at enough enough'
        exact ih (by omega) (by omega)
    · rfl

/-- **The next token takes something from the text**, unless it is the end. -/
theorem nextToken_shorter {text rest : Bytes} {token : Token}
    (taken : nextToken text = some (token, rest)) :
    rest.length ≤ text.length ∧ (token ≠ .eof → rest.length < text.length) := by
  have all : ∀ fuel (text : Bytes), getTokenLoop fuel text = some (token, rest) →
      rest.length ≤ text.length ∧ (token ≠ .eof → rest.length < text.length) := by
    intro fuel
    induction fuel with
    | zero =>
      intro text taken
      obtain ⟨rfl, rfl⟩ := Prod.mk.inj (Option.some.inj taken)
      exact ⟨le_rfl, fun goes => absurd rfl goes⟩
    | succ fuel ih =>
      intro text taken
      obtain ⟨first, found, left⟩ := Option.bind_eq_some_iff.1 taken
      cases text with
      | nil =>
        obtain rfl := Option.some.inj found
        obtain ⟨rfl, rfl⟩ := Prod.mk.inj (Option.some.inj left)
        exact ⟨le_rfl, fun goes => absurd rfl goes⟩
      | cons ch text =>
        have less : first.2.length < (ch :: text).length := Nat.lt_succ_of_le
          (getTokenLl_shorter found)
        split_ifs at left
        · obtain ⟨inner, -⟩ := ih _ left
          exact ⟨inner.trans less.le, fun _ => inner.trans_lt less⟩
        · obtain rfl := Option.some.inj left
          exact ⟨less.le, fun _ => less⟩
  exact all _ text taken

end Shorter

section Tokens

theorem nextToken_eq {text rest : Bytes} {token : Token} (found : getTokenLl text = some (token, rest))
    (kept : token.isSkipped = false) : nextToken text = some (token, rest) := by
  rw [nextToken, getTokenLoop, found, Option.bind_some, if_neg (by rw [kept]; decide)]

theorem nextToken_skip {c : UInt8} (blank : isSkip c = true) (text : Bytes) :
    nextToken (c :: text) = nextToken text := by
  have found : getTokenLl (c :: text) = some (.char c, text) := by
    simp only [isSkip, Bool.or_eq_true, decide_eq_true_eq] at blank
    rcases blank with ((rfl | rfl) | rfl) | rfl <;> rfl
  have passed : (Token.char c).isSkipped = true := blank
  rw [nextToken, List.length_cons, getTokenLoop, found, Option.bind_some, if_pos passed, nextToken]

theorem nextToken_blanks {blanks : Bytes} (all : ∀ c ∈ blanks, isSkip c = true) (text : Bytes) :
    nextToken (blanks ++ text) = nextToken text := by
  induction blanks with
  | nil => rfl
  | cons c blanks ih =>
    rw [List.cons_append, nextToken_skip (all c List.mem_cons_self),
      ih fun b member => all b (List.mem_cons_of_mem _ member)]

/-- The marks of JSON, and the minus, which begin no other token. -/
def isMark (c : UInt8) : Bool := c = 123 || c = 125 || c = 91 || c = 93 || c = 44 || c = 58 || c = 45

theorem nextToken_mark {c : UInt8} (mark : isMark c = true) (text : Bytes) :
    nextToken (c :: text) = some (.char c, text) := by
  simp only [isMark, Bool.or_eq_true, decide_eq_true_eq] at mark
  rcases mark with (((((rfl | rfl) | rfl) | rfl) | rfl) | rfl) | rfl <;> exact nextToken_eq rfl rfl

theorem nextToken_string {text rest gstring : Bytes}
    (scanned : scanDq (text.length + 1) [] text = some (some gstring, rest)) :
    nextToken (34 :: text) = some (.string (gstring.takeWhile (· ≠ 0)), rest) := by
  refine nextToken_eq ?_ rfl
  show (scanDq (text.length + 1) [] text).map _ = _
  rw [scanned]
  rfl

end Tokens

end Gebr.Json
