/-
**Lines on a channel of GLib.**

A channel holds text in UTF-8. A byte that belongs to no character is an error for the one who reads
it, and nothing from there on is written by the one who writes it.

* `characters`: the characters at the front of a byte string.
* `writeChars`: what is written of a text.
* `readLines`: the lines that are read, one after another; the last one has to be ended before an
  error.
* `characters_valid`, `readLines_valid` — **a text in UTF-8 is written and read as a whole**.
-/

import Gebr.Lib.LineBreaks
import Gebr.Lib.Utf8

namespace Gebr.Lib.Channel

open Gebr.Lib.LineBreaks Gebr.Lib.Utf8

section Model

/-- The characters at the front of a text; `char` are the bytes of one that has begun. -/
def charactersFrom (place : Place) (char : List UInt8) : List UInt8 → List UInt8
  | [] => []
  | byte :: text =>
    match Utf8.step place byte with
    | none => []
    | some .between => char ++ byte :: charactersFrom .between [] text
    | some (.within low high more) => charactersFrom (.within low high more) (char ++ [byte]) text

/-- The characters at the front of a byte string, up to a byte that belongs to none. -/
def characters (text : List UInt8) : List UInt8 := charactersFrom .between [] text

/-- What `g_io_channel_write_chars` and a flush write of a text, where it ends with a character. -/
def writeChars (text : List UInt8) : List UInt8 := characters text

/-- A line whose end is known. A carriage return at the end of what is there is not known to be one:
a line feed may follow. -/
def Ended (line : List UInt8) : Prop :=
  line.getLast? = some 10 ∨ line.getLast? = some 0 ∨ paragraph <:+ line

instance (line : List UInt8) : Decidable (Ended line) := inferInstanceAs (Decidable (_ ∨ _))

/-- The lines that `g_io_channel_read_line` gives until the text is at its end, or an error
comes. -/
def readLines (text : List UInt8) : List (List UInt8) :=
  let whole := lines gBreaks (characters text)
  if validate text = true then whole
  else
    match whole.getLast? with
    | none => []
    | some line => if Ended line then whole else whole.dropLast

end Model

section Valid

variable {text : List UInt8}

/-- All is characters, behind the bytes of one that has begun. -/
theorem charactersFrom_run (place : Place) (char : List UInt8)
    (ends : Run.run Utf8.step place text = some .between) (begun : place = .between → char = []) :
    charactersFrom place char text = char ++ text := by
  induction text generalizing place char with
  | nil =>
    rw [begun (Option.some.inj ends)]
    rfl
  | cons byte text ih =>
    obtain ⟨next, taken, rest⟩ := Option.bind_eq_some_iff.1 ends
    unfold charactersFrom
    rw [taken]
    cases next with
    | between =>
      dsimp only
      rw [ih .between [] rest fun _ => rfl, List.nil_append]
    | within low high more =>
      dsimp only
      rw [ih _ _ rest Place.noConfusion, List.append_assoc, List.singleton_append]

/-- **A text in UTF-8 is all characters.** -/
theorem characters_valid (valid : validate text = true) : characters text = text :=
  charactersFrom_run .between [] (of_decide_eq_true valid) fun _ => rfl

/-- **A text in UTF-8 is read to its end.** -/
theorem readLines_valid (valid : validate text = true) : readLines text = lines gBreaks text := by
  rw [readLines, if_pos valid, characters_valid valid]

/-- A byte that belongs to no character is an error, and a line before it that has not ended is
lost. -/
example : readLines ([97, 10, 98] ++ 0xE9 :: [10]) = [[97, 10]] := by decide

end Valid

end Gebr.Lib.Channel
