/-
**UTF-8 validity of a byte string, as a run of a small machine.**

* `validate`: a byte string is valid when the machine reads all of it and ends between characters.
* `validate_append`: after a valid text, what follows is valid exactly when the whole is. A text is
  thus cut into valid pieces exactly at the places where each prefix is valid.
* `validate_ascii`: a text in ASCII is valid.
-/

import Gebr.Lib.Run

namespace Gebr.Lib.Utf8

/-- Where the machine stands: between characters, or before a continuation byte of the given
range, with so many plain continuation bytes to follow. -/
inductive Place where
  | between
  | within (low high : UInt8) (more : ℕ)
  deriving DecidableEq, Repr

/-- The first byte of a character. The ranges of the second byte leave out overlong forms,
surrogates and everything above `U+10FFFF`. -/
def leadByte (byte : UInt8) : Option Place :=
  if byte < 0x80 then some .between
  else if byte < 0xC2 then none
  else if byte < 0xE0 then some (.within 0x80 0xBF 0)
  else if byte = 0xE0 then some (.within 0xA0 0xBF 1)
  else if byte = 0xED then some (.within 0x80 0x9F 1)
  else if byte < 0xF0 then some (.within 0x80 0xBF 1)
  else if byte = 0xF0 then some (.within 0x90 0xBF 2)
  else if byte < 0xF4 then some (.within 0x80 0xBF 2)
  else if byte = 0xF4 then some (.within 0x80 0x8F 2)
  else none

/-- One byte. -/
def step : Place → UInt8 → Option Place
  | .between, byte => leadByte byte
  | .within low high more, byte =>
    if low ≤ byte ∧ byte ≤ high then
      match more with
      | 0 => some .between
      | more + 1 => some (.within 0x80 0xBF more)
    else none

/-- **The byte string is valid UTF-8.** -/
def validate (bytes : List UInt8) : Bool := Run.run step .between bytes = some .between

@[simp] theorem validate_nil : validate [] = true := rfl

/-- **After a valid text the rest is valid exactly when the whole is.** -/
theorem validate_append {text : List UInt8} (valid : validate text = true) (rest : List UInt8) :
    validate (text ++ rest) = validate rest := by
  unfold validate at valid ⊢
  rw [Run.run_append, of_decide_eq_true valid, Option.bind_some]

theorem validate_ascii {text : List UInt8} (low : ∀ byte ∈ text, byte < 0x80) :
    validate text = true := by
  induction text with
  | nil => rfl
  | cons byte text ih =>
    rw [List.forall_mem_cons] at low
    have one : validate [byte] = true := by
      have lead : leadByte byte = some .between := if_pos low.1
      unfold validate
      rw [Run.run_cons, show step .between byte = some .between from lead]
      rfl
    rw [← List.singleton_append, validate_append one, ih low.2]

end Gebr.Lib.Utf8
