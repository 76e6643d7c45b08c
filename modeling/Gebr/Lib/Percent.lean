/-
**Percent encoding of byte strings.**

Unreserved characters and the valid UTF-8 characters of several bytes stand for themselves; any
other byte is a percent sign and two hexadecimal digits.

* `gUriEscapeStringKeeping`, `gUriEscapeString`: a text escaped, where some reserved bytes stand for
  themselves too, and where none do.
* `gUriUnescapeString`: a text read back.
* `unescape_escape`: what is escaped is read back, for a C string.
* `escapeKeeping_bytes`: the bytes that an escaped text can have; it has no separators.
-/

import Gebr.Lib.CString
import Gebr.Lib.Utf8

namespace Gebr.Lib.Percent

open Gebr.Lib.CString Gebr.Lib.Utf8

section Definitions

/-- A digit of `0123456789ABCDEF`. -/
def hexDigit (n : ℕ) : UInt8 := if n < 10 then digit n else UInt8.ofNat (55 + n)

/-- `g_ascii_xdigit_value`. -/
def gAsciiXdigitValue (b : UInt8) : Option ℕ :=
  if 48 ≤ b ∧ b ≤ 57 then some (b.toNat - 48)
  else if 65 ≤ b ∧ b ≤ 70 then some (b.toNat - 55)
  else if 97 ≤ b ∧ b ≤ 102 then some (b.toNat - 87)
  else none

/-- A letter, a digit, or one of `-._~`. -/
def isUnreserved (b : UInt8) : Bool :=
  isDigit b || (65 ≤ b && b ≤ 90) || (97 ≤ b && b ≤ 122) || b = 45 || b = 46 || b = 95 || b = 126

/-- How many bytes are left of the character that the machine is in. -/
def restOfChar : Place → List UInt8 → Option ℕ
  | .between, _ => some 0
  | .within _ _ _, [] => none
  | .within low high more, b :: s =>
    match step (.within low high more) b with
    | none => none
    | some place => (restOfChar place s).map (· + 1)

/-- How many bytes follow the first one of a valid character of several bytes
(`g_utf8_get_char_validated`). -/
def bytesAfter (b : UInt8) (s : List UInt8) : Option ℕ :=
  if b < 0x80 then none
  else
    match leadByte b with
    | none => none
    | some place => restOfChar place s

/-- `g_uri_escape_string` with UTF-8 allowed and the reserved bytes that are to stand for
themselves, of which so many bytes are to be copied first. -/
def escapeKeeping (reserved : List UInt8) : ℕ → List UInt8 → List UInt8
  | _, [] => []
  | copied + 1, b :: s => b :: escapeKeeping reserved copied s
  | 0, b :: s =>
    match bytesAfter b s with
    | some copied => b :: escapeKeeping reserved copied s
    | none =>
      if isUnreserved b ∨ b ∈ reserved then b :: escapeKeeping reserved 0 s
      else 37 :: hexDigit (b.toNat / 16) :: hexDigit (b.toNat % 16) :: escapeKeeping reserved 0 s

def gUriEscapeStringKeeping (reserved unescaped : List UInt8) : List UInt8 :=
  escapeKeeping reserved 0 unescaped

/-- The same without reserved characters. -/
def gUriEscapeString (unescaped : List UInt8) : List UInt8 := gUriEscapeStringKeeping [] unescaped

/-- `g_uri_unescape_string`, without illegal characters: `none` for its `NULL`, which a percent sign
without two digits gives, and an escaped zero. -/
def gUriUnescapeString : List UInt8 → Option (List UInt8)
  | [] => some []
  | b :: s =>
    if b = 37 then
      match s with
      | first :: second :: s =>
        match gAsciiXdigitValue first, gAsciiXdigitValue second with
        | some high, some low =>
          if high * 16 + low = 0 then none
          else (gUriUnescapeString s).map (UInt8.ofNat (high * 16 + low) :: ·)
        | _, _ => none
      | _ => none
    else (gUriUnescapeString s).map (b :: ·)

end Definitions

section Lemmas

variable {b : UInt8} {s : List UInt8}

theorem gAsciiXdigitValue_hexDigit : ∀ n < 16, gAsciiXdigitValue (hexDigit n) = some n := by decide

theorem isUnreserved_hexDigit : ∀ n < 16, isUnreserved (hexDigit n) = true := by decide

theorem unescape_byte (nonzero : b ≠ 0) (s : List UInt8) :
    gUriUnescapeString (37 :: hexDigit (b.toNat / 16) :: hexDigit (b.toNat % 16) :: s) =
      (gUriUnescapeString s).map (b :: ·) := by
  have bound : b.toNat < 256 := b.toNat_lt
  have high : b.toNat / 16 < 16 := by omega
  have low : b.toNat % 16 < 16 := by omega
  have whole : b.toNat / 16 * 16 + b.toNat % 16 = b.toNat := by omega
  have positive : b.toNat ≠ 0 := fun zero => nonzero (UInt8.toNat_inj.1 zero)
  rw [gUriUnescapeString, if_pos rfl]
  simp only [gAsciiXdigitValue_hexDigit _ high, gAsciiXdigitValue_hexDigit _ low, whole,
    if_neg positive, UInt8.ofNat_toNat]

theorem unescape_plain (plain : b ≠ 37) (s : List UInt8) :
    gUriUnescapeString (b :: s) = (gUriUnescapeString s).map (b :: ·) := by
  conv_lhs => unfold gUriUnescapeString
  rw [if_neg plain]

/-- A place of the machine where only continuation bytes go on. -/
def HighPlace : Place → Prop
  | .between => True
  | .within low _ _ => 0x80 ≤ low

theorem highPlace_ite {kind : Prop} [Decidable kind] {here others : Option Place}
    (good : ∀ place ∈ here, HighPlace place) (later : ∀ place ∈ others, HighPlace place) :
    ∀ place ∈ (if kind then here else others), HighPlace place := by
  split
  · exact good
  · exact later

theorem highPlace_some {low up : UInt8} (above : 0x80 ≤ low) (more : ℕ) :
    ∀ place ∈ some (Place.within low up more), HighPlace place := by
  intro place member
  obtain rfl := Option.some.inj member
  exact above

theorem leadByte_high {place : Place} (lead : leadByte b = some place) : HighPlace place := by
  have first : ∀ place ∈ some Place.between, HighPlace place := by
    intro place member
    obtain rfl := Option.some.inj member
    exact trivial
  have all : ∀ place ∈ leadByte b, HighPlace place := by
    unfold leadByte
    refine highPlace_ite first (highPlace_ite nofun ?_)
    repeat' refine highPlace_ite (highPlace_some (by decide) _) ?_
    exact nofun
  exact all place lead
/-- The bytes that are left of a character are above ASCII. -/
theorem high_of_restOfChar {place : Place} (high : HighPlace place) {n : ℕ}
    (rest : restOfChar place s = some n) : ∀ c ∈ s.take n, 0x80 ≤ c := by
  induction s generalizing place n with
  | nil => exact fun c member => absurd member (by simp)
  | cons b s ih =>
    cases place with
    | between =>
      obtain rfl := Option.some.inj rest
      exact fun c member => absurd member List.not_mem_nil
    | within low up more =>
      rw [restOfChar] at rest
      split at rest
      · exact nomatch rest
      · rename_i next taken
        obtain ⟨fewer, inner, rfl⟩ := Option.map_eq_some_iff.1 rest
        rw [step.eq_def] at taken
        simp only at taken
        split at taken
        · rename_i within
          have above : 0x80 ≤ b := UInt8.le_trans high within.1
          have after : HighPlace next := by
            cases more with
            | zero =>
              obtain rfl := Option.some.inj taken
              exact trivial
            | succ more =>
              obtain rfl := Option.some.inj taken
              exact (by decide : (0x80 : UInt8) ≤ 0x80)
          intro c member
          rw [List.take_succ_cons, List.mem_cons] at member
          rcases member with rfl | member
          · exact above
          · exact ih after inner c member
        · exact nomatch taken

/-- A character of several bytes is above ASCII. -/
theorem high_of_bytesAfter {n : ℕ} (after : bytesAfter b s = some n) :
    0x80 ≤ b ∧ ∀ c ∈ s.take n, 0x80 ≤ c := by
  unfold bytesAfter at after
  split at after
  · exact nomatch after
  · rename_i above
    split at after
    · exact nomatch after
    · rename_i place lead
      exact ⟨UInt8.not_lt.1 above, high_of_restOfChar (leadByte_high lead) after⟩

theorem plain_of_high (high : 0x80 ≤ b) : b ≠ 37 := by
  rintro rfl
  exact absurd high (by decide)

theorem plain_of_isUnreserved (unreserved : isUnreserved b = true) : b ≠ 37 := by
  rintro rfl
  exact absurd unreserved (by decide)

/-- What is escaped is read back, whatever stands for itself besides: all but the percent sign
may. -/
theorem unescape_escapeKeeping {reserved : List UInt8} (signs : 37 ∉ reserved)
    (nonzero : ∀ c ∈ s, c ≠ 0) {copied : ℕ} (high : ∀ c ∈ s.take copied, 0x80 ≤ c) :
    gUriUnescapeString (escapeKeeping reserved copied s) = some s := by
  induction s generalizing copied with
  | nil => cases copied <;> rfl
  | cons b s ih =>
    have rest : ∀ c ∈ s, c ≠ 0 := fun c member => nonzero c (List.mem_cons_of_mem b member)
    cases copied with
    | succ copied =>
      have above : 0x80 ≤ b := high b (by simp)
      rw [escapeKeeping, unescape_plain (plain_of_high above),
        ih rest fun c member => high c (by simp [member])]
      rfl
    | zero =>
      rw [escapeKeeping]
      split
      · rename_i copied after
        obtain ⟨above, more⟩ := high_of_bytesAfter after
        rw [unescape_plain (plain_of_high above), ih rest more]
        rfl
      · have none : ∀ c ∈ s.take 0, 0x80 ≤ c := fun c member => absurd member List.not_mem_nil
        split
        · rename_i kept
          have plain : b ≠ 37 := kept.elim plain_of_isUnreserved (ne_of_mem_of_not_mem · signs)
          rw [unescape_plain plain, ih rest none]
          rfl
        · rw [unescape_byte (nonzero b List.mem_cons_self), ih rest none]
          rfl

/-- **What is escaped is read back.** -/
theorem unescape_escape (nonzero : ∀ c ∈ s, c ≠ 0) :
    gUriUnescapeString (gUriEscapeString s) = some s :=
  unescape_escapeKeeping List.not_mem_nil nonzero fun _ member => absurd member List.not_mem_nil

/-- **The bytes of an escaped text.** -/
theorem escapeKeeping_bytes (reserved : List UInt8) {copied : ℕ}
    (high : ∀ c ∈ s.take copied, 0x80 ≤ c) : ∀ c ∈ escapeKeeping reserved copied s, 0x80 ≤ c ∨
    isUnreserved c = true ∨ c = 37 ∨ c ∈ reserved := by
  induction s generalizing copied with
  | nil => cases copied <;> exact fun c member => absurd member List.not_mem_nil
  | cons b s ih =>
    have none : ∀ c ∈ s.take 0, 0x80 ≤ c := fun c member => absurd member List.not_mem_nil
    cases copied with
    | succ copied =>
      intro c member
      rw [escapeKeeping, List.mem_cons] at member
      rcases member with rfl | member
      · exact Or.inl (high c (by simp))
      · exact ih (fun d taken => high d (by simp [taken])) c member
    | zero =>
      intro c member
      rw [escapeKeeping] at member
      split at member
      · rename_i copied after
        obtain ⟨above, more⟩ := high_of_bytesAfter after
        rcases List.mem_cons.1 member with rfl | member
        · exact Or.inl above
        · exact ih more c member
      · split at member
        · rename_i kept
          rcases List.mem_cons.1 member with rfl | member
          · exact Or.inr (kept.imp_right Or.inr)
          · exact ih none c member
        · have bound : b.toNat < 256 := b.toNat_lt
          simp only [List.mem_cons] at member
          rcases member with rfl | rfl | rfl | member
          · exact Or.inr (Or.inr (Or.inl rfl))
          · exact Or.inr (Or.inl (isUnreserved_hexDigit _ (by omega)))
          · exact Or.inr (Or.inl (isUnreserved_hexDigit _ (by omega)))
          · exact ih none c member

theorem not_mem_escapeKeeping {reserved : List UInt8} (low : b < 0x80)
    (special : isUnreserved b = false) (other : b ≠ 37) (clean : b ∉ reserved) (s : List UInt8) :
    b ∉ gUriEscapeStringKeeping reserved s := by
  intro member
  have none : ∀ c ∈ s.take 0, 0x80 ≤ c := fun _ never => absurd never List.not_mem_nil
  rcases escapeKeeping_bytes reserved none b member with high | unreserved | percent | kept
  · exact absurd low (UInt8.not_lt.2 high)
  · exact absurd (special.symm.trans unreserved) Bool.false_ne_true
  · exact other percent
  · exact clean kept

/-- A reserved ASCII character other than the percent sign is not in an escaped text. -/
theorem not_mem_escape (low : b < 0x80) (special : isUnreserved b = false) (other : b ≠ 37)
    (s : List UInt8) : b ∉ gUriEscapeString s :=
  not_mem_escapeKeeping low special other List.not_mem_nil s

/-- A reserved ASCII character that is kept stands for itself. -/
theorem escapeKeeping_cons {reserved : List UInt8} (low : b < 0x80) (kept : b ∈ reserved)
    (s : List UInt8) :
    gUriEscapeStringKeeping reserved (b :: s) = b :: gUriEscapeStringKeeping reserved s := by
  have one : bytesAfter b s = none := if_pos low
  unfold gUriEscapeStringKeeping
  rw [escapeKeeping, one]
  dsimp only
  rw [if_pos (.inr kept)]

end Lemmas

end Gebr.Lib.Percent
