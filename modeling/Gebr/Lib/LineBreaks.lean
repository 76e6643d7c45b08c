/-
**A text that is read line by line, where there are several line breaks.**

* `Breaks`: how long the line break at the front of a text is.
* `readLine`, `lines`: the first line of a text, with its break, and all lines.
* `Closes`: an item that ends every line, whatever follows it.
* `lines_append` — **what is behind such an item is read on its own**; `lines_flatMap`: what was
  written as lines.
* `gBreaks`: the line breaks of GLib's channels. `readLine_iff`, `lines_oneLine`: the texts that are
  one line.
-/

import Mathlib.Data.List.Infix

namespace Gebr.Lib.LineBreaks

section Model

variable {α : Type} [DecidableEq α]

/-- Line breaks: how many items the break at the front of a text has, 0 when there is none. -/
structure Breaks (α : Type) where
  length : List α → ℕ
  le : ∀ text, length text ≤ text.length

/-- The first line of a text, with its line break, and the rest. -/
def readLine (breaks : Breaks α) : List α → List α × List α
  | [] => ([], [])
  | b :: text =>
    if breaks.length (b :: text) = 0 then (b :: (readLine breaks text).1, (readLine breaks text).2)
    else ((b :: text).take (breaks.length (b :: text)), (b :: text).drop (breaks.length (b :: text)))

/-- Line after line; `fuel` bounds how many there are. -/
def linesLoop (breaks : Breaks α) : ℕ → List α → List (List α)
  | 0, _ => []
  | fuel + 1, text =>
    if text = [] then [] else (readLine breaks text).1 :: linesLoop breaks fuel
      (readLine breaks text).2

/-- The lines of a text, with their line breaks. -/
def lines (breaks : Breaks α) (text : List α) : List (List α) := linesLoop breaks text.length text

/-- An item that ends every line. -/
structure Closes (breaks : Breaks α) (newline : α) : Prop where
  ends : 0 < breaks.length [newline]
  behind : ∀ text rest, breaks.length (text ++ newline :: rest) = breaks.length (text ++ [newline])

end Model

section Lines

variable {α : Type} {breaks : Breaks α} {newline : α}

theorem readLine_append (text : List α) :
    (readLine breaks text).1 ++ (readLine breaks text).2 = text := by
  induction text with
  | nil => rfl
  | cons b text ih =>
    unfold readLine
    split_ifs
    · exact congrArg (b :: ·) ih
    · exact List.take_append_drop _ _

theorem readLine_ne_nil {text : List α} (some_item : text ≠ []) : (readLine breaks text).1 ≠ [] := by
  cases text with
  | nil => exact absurd rfl some_item
  | cons b text =>
    unfold readLine
    split_ifs with none
    · exact List.cons_ne_nil b _
    · exact fun empty => (List.take_eq_nil_iff.1 empty).elim none some_item

theorem readLine_length {text : List α} (some_item : text ≠ []) :
    (readLine breaks text).2.length < text.length := by
  have all := congrArg List.length (@readLine_append α breaks text)
  have first := List.length_pos_iff.2 (@readLine_ne_nil α breaks text some_item)
  rw [List.length_append] at all
  omega

theorem readLine_cons {b : α} {text : List α} (none : breaks.length (b :: text) = 0) :
    readLine breaks (b :: text) = (b :: (readLine breaks text).1, (readLine breaks text).2) := by
  rw [readLine, if_pos none]

theorem readLine_break {b : α} {text : List α} (some_break : breaks.length (b :: text) ≠ 0) :
    readLine breaks (b :: text) =
      ((b :: text).take (breaks.length (b :: text)),
      (b :: text).drop (breaks.length (b :: text))) := by
  rw [readLine, if_neg some_break]

/-- **Items that begin no line break** go before the first line. -/
theorem readLine_plain {front : List α} (plain : ∀ b ∈ front, ∀ text, breaks.length (b :: text) = 0)
    (text : List α) :
    readLine breaks (front ++ text) =
    (front ++ (readLine breaks text).1, (readLine breaks text).2) := by
  induction front with
  | nil => rfl
  | cons b front ih =>
    rw [List.forall_mem_cons] at plain
    rw [List.cons_append, readLine_cons (plain.1 _), ih plain.2]
    rfl

/-- A line break at the front is read alone, whatever is behind it. -/
theorem readLine_break_append {b : α} {front rest : List α}
    (some_break : breaks.length (b :: front) ≠ 0)
    (same : breaks.length (b :: (front ++ rest)) = breaks.length (b :: front)) :
      readLine breaks (b :: (front ++ rest)) =
      ((readLine breaks (b :: front)).1, (readLine breaks (b :: front)).2 ++ rest) := by
  have fits := breaks.le (b :: front)
  rw [readLine_break (same ▸ some_break), readLine_break some_break, same, ← List.cons_append,
    List.take_append_of_le_length fits, List.drop_append_of_le_length fits]

/-- **The first line is not changed** by what is behind an item that ends every line. -/
theorem readLine_closed (closes : Closes breaks newline) (text rest : List α) :
    readLine breaks (text ++ newline :: rest) =
      ((readLine breaks (text ++ [newline])).1, (readLine breaks (text ++ [newline])).2 ++ rest) := by
  induction text with
  | nil =>
    exact @readLine_break_append α breaks newline [] rest (Nat.ne_of_gt closes.ends)
      (closes.behind [] rest)
  | cons b text ih =>
    have same : breaks.length (b :: (text ++ newline :: rest)) =
        breaks.length (b :: (text ++ [newline])) :=
      closes.behind (b :: text) rest
    show readLine breaks (b :: (text ++ newline :: rest)) =
      ((readLine breaks (b :: (text ++ [newline]))).1,
        (readLine breaks (b :: (text ++ [newline]))).2 ++ rest)
    by_cases none : breaks.length (b :: (text ++ [newline])) = 0
    · rw [readLine_cons (same.trans none), readLine_cons none, ih]
    · have whole : text ++ newline :: rest = text ++ [newline] ++ rest :=
        List.append_cons text newline rest
      rw [whole] at same ⊢
      exact readLine_break_append none same

theorem linesLoop_eq [DecidableEq α] {fuel more : ℕ} {text : List α} (enough : text.length ≤ fuel)
    (longer : text.length ≤ more) : linesLoop breaks fuel text = linesLoop breaks more text := by
  induction fuel generalizing text more with
  | zero =>
    rw [List.length_eq_zero_iff.1 (Nat.le_zero.1 enough)]
    cases more <;> rfl
  | succ fuel ih =>
    cases more with
    | zero =>
      rw [List.length_eq_zero_iff.1 (Nat.le_zero.1 longer)]
      rfl
    | succ more =>
      unfold linesLoop
      split_ifs with none
      · rfl
      · have less := @readLine_length α breaks text none
        rw [ih (Nat.le_of_lt_succ (Nat.lt_of_lt_of_le less enough))
          (Nat.le_of_lt_succ (Nat.lt_of_lt_of_le less longer))]

variable [DecidableEq α]

theorem lines_cons {text : List α} (some_item : text ≠ []) :
    lines breaks text = (readLine breaks text).1 :: lines breaks (readLine breaks text).2 := by
  have positive := List.length_pos_iff.2 some_item
  obtain ⟨fuel, length⟩ := Nat.exists_eq_succ_of_ne_zero (Nat.ne_of_gt positive)
  rw [lines, length, linesLoop, if_neg some_item]
  congr 1
  have less := @readLine_length α breaks text some_item
  exact linesLoop_eq (by omega) (Nat.le_refl _)

omit [DecidableEq α] in
/-- What is behind the first line ends as the text does. -/
theorem readLine_rest (text : List α) :
    (readLine breaks (text ++ [newline])).2 = [] ∨
      ∃ rest, (readLine breaks (text ++ [newline])).2 = rest ++ [newline] ∧ rest.length <
      text.length := by
  rcases List.eq_nil_or_concat (readLine breaks (text ++ [newline])).2 with empty | ⟨rest, last, same⟩
  · exact Or.inl empty
  · rw [List.concat_eq_append] at same
    have all := @readLine_append α breaks (text ++ [newline])
    have less := @readLine_length α breaks (text ++ [newline])
      (List.append_ne_nil_of_right_ne_nil _ (List.cons_ne_nil _ _))
    rw [same, ← List.append_assoc] at all
    obtain ⟨-, ends⟩ := List.append_inj' all rfl
    rw [same, List.length_append, List.length_append] at less
    rw [same, ends]
    exact Or.inr ⟨rest, rfl, Nat.lt_of_add_lt_add_right less⟩

/-- **What is behind an item that ends every line is read on its own.** -/
theorem lines_append (closes : Closes breaks newline) (text rest : List α) :
    lines breaks (text ++ newline :: rest) = lines breaks (text ++ [newline]) ++
    lines breaks rest := by
  induction length : text.length using Nat.strong_induction_on generalizing text with
  | h n ih =>
    rw [lines_cons (List.append_ne_nil_of_right_ne_nil text (List.cons_ne_nil newline rest)),
      lines_cons (List.append_ne_nil_of_right_ne_nil text (List.cons_ne_nil newline [])),
        readLine_closed closes,
      List.cons_append]
    congr 1
    rcases @readLine_rest α breaks newline text with empty | ⟨later, same, less⟩
    · rw [empty]
      rfl
    · rw [same, List.append_assoc, List.singleton_append]
      exact ih later.length (length ▸ less) later rfl

/-- **What was written with such an item behind each** is read piece by piece. -/
theorem lines_flatMap (closes : Closes breaks newline) (pieces : List (List α)) :
    lines breaks (pieces.flatMap (· ++ [newline])) = pieces.flatMap fun piece => lines breaks
    (piece ++ [newline]) := by
  induction pieces with
  | nil => rfl
  | cons piece pieces ih =>
    rw [List.flatMap_cons, List.flatMap_cons, ← ih, List.append_assoc, List.singleton_append,
      lines_append closes]

end Lines

section GLib

/-- The paragraph separator, in UTF-8. -/
def paragraph : List UInt8 := [0xE2, 0x80, 0xA9]

/-- The break at the front of a text, where a channel detects it: a line feed, a carriage return,
both, a NUL, or the paragraph separator. -/
def gBreakLength : List UInt8 → ℕ
  | [] => 0
  | b :: rest =>
    if b = 10 then 1
    else if b = 13 then if rest.head? = some 10 then 2 else 1
    else if b = 0 then 1
    else if paragraph <+: b :: rest then 3
    else 0

theorem gBreakLength_le (text : List UInt8) : gBreakLength text ≤ text.length := by
  cases text with
  | nil => exact Nat.le_refl 0
  | cons b rest =>
    rw [List.length_cons, gBreakLength]
    split_ifs with _ _ pair _ here
    · exact Nat.le_add_left 1 _
    · cases rest with
      | nil => cases pair
      | cons c rest => exact Nat.le_add_left 2 _
    · exact Nat.le_add_left 1 _
    · exact Nat.le_add_left 1 _
    · exact here.length_le
    · exact Nat.zero_le _

/-- The line breaks of `g_io_channel_read_line_string` without a line terminator. -/
def gBreaks : Breaks UInt8 := ⟨gBreakLength, gBreakLength_le⟩

/-- The separator is at the front of a text or not, whatever is behind a line feed. -/
theorem paragraph_begins (text rest : List UInt8) :
    paragraph <+: text ++ 10 :: rest ↔ paragraph <+: text := by
  constructor
  · intro begins
    rcases text with _ | ⟨a, _ | ⟨b, _ | ⟨c, text⟩⟩⟩ <;>
      simp [paragraph, List.cons_prefix_cons] at begins ⊢
    exact begins
  · exact fun begins => begins.trans (List.prefix_append text _)

/-- **A line feed ends every line.** -/
theorem closes_gBreaks : Closes gBreaks 10 where
  ends := Nat.one_pos
  behind text rest := by
    show gBreakLength _ = gBreakLength _
    cases text with
    | nil => rfl
    | cons b text =>
      have head : (text ++ 10 :: rest).head? = (text ++ [10]).head? := by
        cases text <;> rfl
      have same : paragraph <+: b :: (text ++ 10 :: rest) ↔ paragraph <+: b :: (text ++ [10]) :=
        (paragraph_begins (b :: text) rest).trans (paragraph_begins (b :: text) []).symm
      rw [List.cons_append, List.cons_append, gBreakLength, gBreakLength, head]
      simp only [same]

/-- A byte that begins no line break. -/
def Plain (b : UInt8) : Prop := b ≠ 10 ∧ b ≠ 13 ∧ b ≠ 0 ∧ b ≠ 0xE2

instance (b : UInt8) : Decidable (Plain b) := inferInstanceAs (Decidable (_ ∧ _))

theorem gBreakLength_plain {b : UInt8} (plain : Plain b) (text : List UInt8) :
    gBreaks.length (b :: text) = 0 := by
  obtain ⟨feed, carriage, nul, separator⟩ := plain
  have clean : ¬ paragraph <+: b :: text := fun begins =>
    separator (List.cons_prefix_cons.1 begins).1.symm
  show gBreakLength (b :: text) = 0
  rw [gBreakLength, if_neg feed, if_neg carriage, if_neg nul, if_neg clean]

/-- A text without a line break, but for a carriage return at its end. -/
structure OneLine (text : List UInt8) : Prop where
  feed : 10 ∉ text
  carriage : 13 ∉ text.dropLast
  nul : 0 ∉ text
  separator : ¬ paragraph <:+: text

instance (text : List UInt8) : Decidable (OneLine text) :=
  decidable_of_iff (10 ∉ text ∧ 13 ∉ text.dropLast ∧ 0 ∉ text ∧ ¬ paragraph <:+: text)
    ⟨fun ⟨feed, carriage, nul, separator⟩ => ⟨feed, carriage, nul, separator⟩,
      fun single => ⟨single.feed, single.carriage, single.nul, single.separator⟩⟩

theorem oneLine_cons {b : UInt8} {text : List UInt8} (feed : b ≠ 10) (carriage : b ≠ 13) (nul : b ≠ 0)
    (clean : ¬ paragraph <+: b :: text) : OneLine (b :: text) ↔ OneLine text := by
  have last : 13 ∈ (b :: text).dropLast ↔ 13 ∈ text.dropLast := by
    cases text with
    | nil => rfl
    | cons c text =>
      rw [List.dropLast_cons_cons, List.mem_cons]
      exact or_iff_right (Ne.symm carriage)
  constructor
  · rintro ⟨noFeed, noCarriage, noNul, noSeparator⟩
    exact ⟨fun member => noFeed (List.mem_cons_of_mem b member), fun member =>
      noCarriage (last.2 member), fun member => noNul (List.mem_cons_of_mem b member), fun inside =>
        noSeparator (inside.trans (List.suffix_cons b text).isInfix)⟩
  · rintro ⟨noFeed, noCarriage, noNul, noSeparator⟩
    refine ⟨fun member => ?_, fun member => noCarriage (last.1 member), fun member => ?_,
      fun inside => ?_⟩
    · exact (List.mem_cons.1 member).elim (fun same => feed same.symm) noFeed
    · exact (List.mem_cons.1 member).elim (fun same => nul same.symm) noNul
    · exact (List.infix_cons_iff.1 inside).elim clean noSeparator

/-- **The texts that are one line.** -/
theorem readLine_iff (text : List UInt8) :
    (readLine gBreaks (text ++ [10])).2 = [] ↔ OneLine text := by
  induction text with
  | nil => exact iff_of_true rfl ⟨List.not_mem_nil, List.not_mem_nil, List.not_mem_nil, by decide⟩
  | cons b text ih =>
    have behind (rest : List UInt8) : rest ++ [10] ≠ [] := List.append_ne_nil_of_right_ne_nil _
      (List.cons_ne_nil 10 [])
    -- A break of one byte ends the line before the text does.
    have short (one : gBreaks.length (b :: (text ++ [10])) = 1) :
        (readLine gBreaks (b :: (text ++ [10]))).2 = text ++ [10] := by
      rw [readLine_break (one ▸ Nat.one_ne_zero), one]
      rfl
    have length : gBreaks.length (b :: (text ++ [10])) = gBreakLength (b :: (text ++ [10])) := rfl
    rw [List.cons_append]
    by_cases feed : b = 10
    · rw [short (by rw [length, gBreakLength, if_pos feed])]
      exact iff_of_false (behind text) fun single => single.feed (feed ▸ List.mem_cons_self)
    by_cases carriage : b = 13
    · cases text with
      | nil =>
        rw [carriage]
        exact iff_of_true rfl ⟨by decide, by decide, by decide, by decide⟩
      | cons c text =>
        have early : ¬ OneLine (b :: c :: text) := fun single =>
          single.carriage (carriage ▸ List.mem_cons_self)
        by_cases pair : c = 10
        · have two : gBreaks.length (b :: (c :: text ++ [10])) = 2 := by
            rw [carriage, pair]
            rfl
          rw [readLine_break (two ▸ Nat.succ_ne_zero 1), two]
          exact iff_of_false (behind text) early
        · have one : gBreaks.length (b :: (c :: text ++ [10])) = 1 := by
            rw [length, gBreakLength, if_neg feed, if_pos carriage, if_neg]
            exact fun head => pair (Option.some.inj head)
          rw [short one]
          exact iff_of_false (behind _) early
    by_cases nul : b = 0
    · rw [short (by rw [length, gBreakLength, if_neg feed, if_neg carriage, if_pos nul])]
      exact iff_of_false (behind text) fun single => single.nul (nul ▸ List.mem_cons_self)
    by_cases here : paragraph <+: b :: (text ++ [10])
    · have three : gBreaks.length (b :: (text ++ [10])) = 3 := by
        rw [length, gBreakLength, if_neg feed, if_neg carriage, if_neg nul, if_pos here]
      have begins : paragraph <+: b :: text := (paragraph_begins (b :: text) []).1 here
      obtain ⟨rest, same⟩ := begins
      rw [readLine_break (three ▸ Nat.succ_ne_zero 2), three, ← List.cons_append, ← same]
      exact iff_of_false (behind rest) fun single => single.separator ⟨[], rest, rfl⟩
    · have none : gBreaks.length (b :: (text ++ [10])) = 0 := by
        rw [length, gBreakLength, if_neg feed, if_neg carriage, if_neg nul, if_neg here]
      rw [readLine_cons none, ih, oneLine_cons feed carriage nul fun begins =>
        here ((paragraph_begins (b :: text) []).2 begins)]

variable {front back text : List UInt8}

/-- **A text that is one line** is read as a whole. -/
theorem lines_oneLine (single : OneLine text) : lines gBreaks (text ++ [10]) = [text ++ [10]] := by
  have all := @readLine_append UInt8 gBreaks (text ++ [10])
  have nothing := (readLine_iff text).2 single
  rw [nothing, List.append_nil] at all
  rw [lines_cons (List.append_ne_nil_of_right_ne_nil text (List.cons_ne_nil 10 [])), nothing, all]
  rfl

/-- The end of a line is one line. -/
theorem OneLine.of_append_right (single : OneLine (front ++ back)) : OneLine back where
  feed := fun member => single.feed (List.mem_append_right front member)
  carriage := fun member => by
    have some_byte : back ≠ [] := by
      rintro rfl
      cases member
    refine single.carriage ?_
    rw [List.dropLast_append_of_ne_nil some_byte]
    exact List.mem_append_right front member
  nul := fun member => single.nul (List.mem_append_right front member)
  separator := fun inside => single.separator (inside.trans (List.suffix_append front back).isInfix)

/-- The beginning of a line is one line, also with another byte behind it. -/
theorem OneLine.of_append_left (single : OneLine (front ++ back)) (some_byte : back ≠ []) {b : UInt8}
    (plain : Plain b) (other : b ≠ 0xA9) : OneLine (front ++ [b]) where
  feed := fun member => (List.mem_append.1 member).elim
    (fun inside => single.feed (List.mem_append_left back inside)) fun last =>
      plain.1 (List.mem_singleton.1 last).symm
  carriage := by
    rw [List.dropLast_concat]
    intro member
    refine single.carriage ?_
    rw [List.dropLast_append_of_ne_nil some_byte]
    exact List.mem_append_left _ member
  nul := fun member => (List.mem_append.1 member).elim
    (fun inside => single.nul (List.mem_append_left back inside)) fun last =>
      plain.2.2.1 (List.mem_singleton.1 last).symm
  separator := by
    rintro ⟨before, after, same⟩
    rcases List.eq_nil_or_concat after with rfl | ⟨after, last, rfl⟩
    · rw [List.append_nil] at same
      have ends := congrArg List.getLast? same
      rw [List.getLast?_append_of_ne_nil _ (show paragraph ≠ [] from List.cons_ne_nil _ _),
        List.getLast?_append_of_ne_nil _ (List.cons_ne_nil b [])] at ends
      exact other (Option.some.inj ends).symm
    · rw [List.concat_eq_append, ← List.append_assoc] at same
      obtain ⟨rfl, -⟩ := List.append_inj' same rfl
      exact single.separator
        ((List.infix_append before paragraph after).trans (List.prefix_append _ back).isInfix)

end GLib

end Gebr.Lib.LineBreaks
