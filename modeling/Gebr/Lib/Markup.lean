/-
**Text that is escaped for markup, and broken into lines.**

A character becomes an entity or its UTF-8 bytes; only the space itself is written with a space.

* `gMarkupEscapeText`: the escaped text.
* `split_at_space`: a space in the escaped text is a space of the text.
* `gStrrstrLen`: the last place of a byte in the front of a text.
* `Broken`: the escaped text, with marks in front of some of its spaces.
* `broken_twice` — **two marks, each put in front of a space by its place in the escaped text**.
-/

import Gebr.Lib.CString
import Mathlib.Data.Nat.Digits.Defs
import Mathlib.Tactic.Common

namespace Gebr.Lib.Markup

open Gebr.Lib.CString

section Definitions

def utf8 (text : List Char) : List UInt8 := text.flatMap String.utf8EncodeChar

/-- `%x`, of a number that is not zero. -/
def hexadecimal (n : ℕ) : List UInt8 :=
  (Nat.digits 16 n).reverse.map fun d => UInt8.ofNat (if d < 10 then 48 + d else 87 + d)

/-- A control character that is written as a number. -/
def isControl (n : ℕ) : Bool :=
  (0x1 ≤ n && n ≤ 0x8) || (0xb ≤ n && n ≤ 0xc) || (0xe ≤ n && n ≤ 0x1f) || (0x7f ≤ n && n ≤ 0x84) ||
    (0x86 ≤ n && n ≤ 0x9f)

/-- What `g_markup_escape_text` makes of a character. -/
def escapeChar (c : Char) : List UInt8 :=
  if c.toNat = 38 then ascii "&amp;"
  else if c.toNat = 60 then ascii "&lt;"
  else if c.toNat = 62 then ascii "&gt;"
  else if c.toNat = 39 then ascii "&#39;"
  else if c.toNat = 34 then ascii "&quot;"
  else if isControl c.toNat = true then ascii "&#x" ++ hexadecimal c.toNat ++ ascii ";"
  else String.utf8EncodeChar c

/-- `g_markup_escape_text`. -/
def gMarkupEscapeText (text : List Char) : List UInt8 := text.flatMap escapeChar

/-- The last place below a bound. -/
def lastBelow (b : UInt8) (s : List UInt8) : ℕ → Option ℕ
  | 0 => none
  | place + 1 => if s[place]? = some b then some place else lastBelow b s place

/-- `g_strrstr_len` of a single byte. -/
def gStrrstrLen (s : List UInt8) (len : ℕ) (b : UInt8) : Option ℕ := lastBelow b s (min len s.length)

/-- `g_string_insert`. -/
def gStringInsert (s : List UInt8) (place : ℕ) (text : List UInt8) : List UInt8 :=
  if place ≤ s.length then s.take place ++ text ++ s.drop place else s

/-- **The escaped text, with marks in front of some of its spaces.** -/
inductive Broken (mark : List UInt8) : List Char → List UInt8 → Prop
  | nil : Broken mark [] []
  | char {text : List Char} {shown : List UInt8} (c : Char) (rest : Broken mark text shown) :
      Broken mark (c :: text) (escapeChar c ++ shown)
  | space {text : List Char} {shown : List UInt8} (rest : Broken mark (' ' :: text) shown) :
      Broken mark (' ' :: text) (mark ++ shown)

end Definitions

section Escape

variable {c : Char} {text front back : List Char}

theorem ofNat_ne_space {n : ℕ} (small : n < 256) (other : n ≠ 32) : 32 ≠ UInt8.ofNat n := by
  intro same
  have number := congrArg UInt8.toNat same
  rw [UInt8.toNat_ofNat_of_lt' small] at number
  exact other number.symm

theorem not_mem_utf8EncodeChar (other : c ≠ ' ') : 32 ∉ String.utf8EncodeChar c := by
  have number : c.val.toNat ≠ 32 := fun same => other (Char.ext (UInt32.toNat_inj.1 same))
  unfold String.utf8EncodeChar
  dsimp only
  split
  · simp only [List.mem_singleton]
    exact ofNat_ne_space (by omega) number
  split
  · simp only [List.mem_cons, List.not_mem_nil, or_false, not_or]
    exact ⟨ofNat_ne_space (by omega) (by omega), ofNat_ne_space (by omega) (by omega)⟩
  split
  · simp only [List.mem_cons, List.not_mem_nil, or_false, not_or]
    exact ⟨ofNat_ne_space (by omega) (by omega), ofNat_ne_space (by omega) (by omega),
      ofNat_ne_space (by omega) (by omega)⟩
  · simp only [List.mem_cons, List.not_mem_nil, or_false, not_or]
    exact ⟨ofNat_ne_space (by omega) (by omega), ofNat_ne_space (by omega) (by omega),
      ofNat_ne_space (by omega) (by omega), ofNat_ne_space (by omega) (by omega)⟩

theorem not_mem_hexadecimal (n : ℕ) : 32 ∉ hexadecimal n := by
  intro member
  obtain ⟨d, digit, space⟩ := List.mem_map.1 member
  have small : d < 16 := Nat.digits_lt_base (by decide) (List.mem_reverse.1 digit)
  refine ofNat_ne_space ?_ ?_ space.symm
  · split <;> omega
  · split <;> omega

@[simp] theorem escapeChar_space : escapeChar ' ' = [32] := by decide

theorem not_mem_escapeChar (other : c ≠ ' ') : 32 ∉ escapeChar c := by
  unfold escapeChar
  split_ifs with amp lt gt apos quot control
  · decide
  · decide
  · decide
  · decide
  · decide
  · simp only [List.mem_append, not_or]
    exact ⟨⟨by decide, not_mem_hexadecimal _⟩, by decide⟩
  · exact not_mem_utf8EncodeChar other

theorem escapeChar_ne_nil (c : Char) : escapeChar c ≠ [] := by
  unfold escapeChar
  split_ifs
  · decide
  · decide
  · decide
  · decide
  · decide
  · exact List.append_ne_nil_of_right_ne_nil _ (by decide)
  · exact String.utf8EncodeChar_ne_nil

@[simp] theorem gMarkupEscapeText_cons (c : Char) (text : List Char) :
    gMarkupEscapeText (c :: text) = escapeChar c ++ gMarkupEscapeText text := rfl

@[simp] theorem gMarkupEscapeText_append (front back : List Char) :
    gMarkupEscapeText (front ++ back) = gMarkupEscapeText front ++ gMarkupEscapeText back :=
  List.flatMap_append

theorem gMarkupEscapeText_eq_nil (none : gMarkupEscapeText text = []) : text = [] := by
  cases text with
  | nil => rfl
  | cons c text => exact absurd (List.append_eq_nil_iff.1 none).1 (escapeChar_ne_nil c)

/-- **A space in the escaped text is a space of the text.** -/
theorem split_at_space {place : ℕ} (space : (gMarkupEscapeText text)[place]? = some 32) :
    ∃ front back, text = front ++ ' ' :: back ∧ (gMarkupEscapeText front).length = place := by
  induction text generalizing place with
  | nil => exact absurd space nofun
  | cons c text ih =>
    rw [gMarkupEscapeText_cons] at space
    by_cases here : place < (escapeChar c).length
    · rw [List.getElem?_append_left here] at space
      have member := List.mem_of_getElem? space
      obtain rfl : c = ' ' := not_not.1 fun other => not_mem_escapeChar other member
      rw [escapeChar_space, List.length_singleton, Nat.lt_one_iff] at here
      exact ⟨[], text, rfl, here.symm⟩
    · rw [List.getElem?_append_right (Nat.not_lt.1 here)] at space
      obtain ⟨front, back, rfl, size⟩ := ih space
      refine ⟨c :: front, back, rfl, ?_⟩
      rw [gMarkupEscapeText_cons, List.length_append, size]
      omega

end Escape

section Search

variable {b : UInt8} {s : List UInt8} {bound len place : ℕ}

theorem lastBelow_some (found : lastBelow b s bound = some place) :
    s[place]? = some b ∧ place < bound ∧ ∀ later, place < later → later < bound →
    s[later]? ≠ some b := by
  induction bound with
  | zero => exact absurd found nofun
  | succ bound ih =>
    unfold lastBelow at found
    split at found
    · rename_i here
      obtain rfl := Option.some.inj found
      exact ⟨here, Nat.lt_succ_self _, fun later more less =>
        absurd more (Nat.not_lt.2 (Nat.lt_succ_iff.1 less))⟩
    · rename_i other
      obtain ⟨there, less, last⟩ := ih found
      refine ⟨there, less.trans (Nat.lt_succ_self _), fun later more less => ?_⟩
      rcases Nat.lt_succ_iff_lt_or_eq.1 less with before | rfl
      · exact last later more before
      · exact other

theorem lastBelow_none (missing : lastBelow b s bound = none) :
    ∀ place < bound, s[place]? ≠ some b := by
  induction bound with
  | zero => exact fun place less => absurd less (Nat.not_lt_zero _)
  | succ bound ih =>
    unfold lastBelow at missing
    split at missing
    · exact absurd missing nofun
    · rename_i other
      intro place less
      rcases Nat.lt_succ_iff_lt_or_eq.1 less with before | rfl
      · exact ih missing place before
      · exact other

theorem gStrrstrLen_isSome_iff (s : List UInt8) (len : ℕ) (b : UInt8) :
    (gStrrstrLen s len b).isSome ↔ b ∈ s.take len := by
  rw [List.mem_take_iff_getElem]
  unfold gStrrstrLen
  cases search : lastBelow b s (min len s.length) with
  | none =>
    refine iff_of_false Bool.false_ne_true ?_
    rintro ⟨place, less, here⟩
    exact lastBelow_none search place less (List.getElem?_eq_some_iff.2 ⟨_, here⟩)
  | some place =>
    obtain ⟨there, less, -⟩ := lastBelow_some search
    obtain ⟨inside, here⟩ := List.getElem?_eq_some_iff.1 there
    exact iff_of_true rfl ⟨place, less, here⟩

/-- The last place in a longer front is not before that in a shorter one. -/
theorem gStrrstrLen_le {more other : ℕ} (le : len ≤ more) (found : gStrrstrLen s len b = some place)
    (next : gStrrstrLen s more b = some other) : place ≤ other := by
  obtain ⟨there, less, -⟩ := lastBelow_some found
  obtain ⟨-, -, last⟩ := lastBelow_some next
  by_contra before
  exact last place (Nat.not_le.1 before) (by omega) there

theorem gStringInsert_append (front back mark : List UInt8) :
    gStringInsert (front ++ back) front.length mark = front ++ mark ++ back := by
  have inside : front.length ≤ (front ++ back).length := by simp
  unfold gStringInsert
  rw [if_pos inside, List.take_left, List.drop_left]

end Search

section Lines

variable {mark : List UInt8} {text : List Char} {shown : List UInt8} {place other : ℕ}

theorem Broken.append (front : List Char) (rest : Broken mark text shown) :
    Broken mark (front ++ text) (gMarkupEscapeText front ++ shown) := by
  induction front with
  | nil => exact rest
  | cons c front ih =>
    rw [gMarkupEscapeText_cons, List.append_assoc]
    exact ih.char c

theorem broken_never (mark : List UInt8) (text : List Char) :
    Broken mark text (gMarkupEscapeText text) := by
  simpa using (Broken.nil : Broken mark [] []).append text

/-- **One mark in front of a space.** -/
theorem broken_once (mark : List UInt8) (space : (gMarkupEscapeText text)[place]? = some 32) :
    Broken mark text (gStringInsert (gMarkupEscapeText text) place mark) := by
  obtain ⟨front, back, rfl, rfl⟩ := split_at_space space
  rw [gMarkupEscapeText_append, gStringInsert_append, List.append_assoc]
  exact (broken_never mark (' ' :: back)).space.append front

/-- **Two marks, each put in front of a space by its place in the escaped text.** -/
theorem broken_twice (mark : List UInt8) (space : (gMarkupEscapeText text)[place]? = some 32)
    (next : (gMarkupEscapeText text)[other]? = some 32) (le : place ≤ other) :
    Broken mark text
      (gStringInsert (gStringInsert (gMarkupEscapeText text) place mark) (other + mark.length)
      mark) := by
  obtain ⟨front, back, rfl, rfl⟩ := split_at_space space
  obtain ⟨longer, rest, same, rfl⟩ := split_at_space next
  obtain ⟨middle, rfl, tail⟩ : ∃ middle, longer = front ++ middle ∧ ' ' :: back = middle ++
      ' ' :: rest := by
    rcases List.append_eq_append_iff.1 same with ⟨middle, more, tail⟩ | ⟨middle, less, tail⟩
    · exact ⟨middle, more, tail⟩
    · rw [less, gMarkupEscapeText_append, List.length_append] at le
      obtain rfl := gMarkupEscapeText_eq_nil
        (List.eq_nil_of_length_eq_zero (by omega : (gMarkupEscapeText middle).length = 0))
      refine ⟨[], ?_, tail.symm⟩
      rw [less]
      simp
  have size : (gMarkupEscapeText (front ++ middle)).length + mark.length =
      (gMarkupEscapeText front ++ mark ++ gMarkupEscapeText middle).length := by
    simp only [gMarkupEscapeText_append, List.length_append]
    omega
  rw [gMarkupEscapeText_append, gStringInsert_append, tail, gMarkupEscapeText_append middle,
    ← List.append_assoc (gMarkupEscapeText front ++ mark), size, gStringInsert_append]
  have last := ((broken_never mark (' ' :: rest)).space).append middle
  rw [← tail] at last
  have whole := last.space.append front
  rw [tail] at whole
  simpa only [List.append_assoc] using whole

end Lines

end Gebr.Lib.Markup
