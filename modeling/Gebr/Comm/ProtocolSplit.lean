/-
**The splitter of arguments on any text.**

`gebr_comm_protocol_split_new` reads a length with `sscanf`, whose answer tells the end of the text
but not a missing number, goes on behind the next separator without asking whether there is one, and
takes as many bytes as the length says when there are so many.

* `splitChecked`: the splitter, which ends where it would use what is not there (`Misuse`).
* `splitChecked_eq`: otherwise it is `gebrCommProtocolSplitNew`.
* `splitChecked_field`: one part, at a field and its separator.
* `Shaped`: the texts whose lengths are numbers, up to the part that is blank, too long or the last
  one.
* `splits_iff` — **the splitter gives as many parts as were asked for, or none, and uses nothing
  that is missing, just on these**.
* `missing_separator`: a text without a separator.
-/

import Gebr.Comm.Protocol

namespace Gebr.Comm

open Gebr.Lib.CString

section Model

/-- `gebr_comm_protocol_split_new`, which ends where it misuses something. -/
def splitChecked (parts : ℕ) (iarg : Bytes) : Except Misuse (Option (List Bytes)) :=
  match splitNew 0 parts iarg with
  | ([], split) => .ok split
  | (misuse :: _, _) => .error misuse

/-- `gebr_comm_protocol_socket_oldmsg_split`. -/
def gebrCommProtocolSocketOldmsgSplit (arguments : Bytes) (parts : ℕ) :
    Except Misuse (Option (List Bytes)) :=
  splitChecked parts (arguments.takeWhile (· ≠ 0))

end Model

section Statement

/-- The splitter gives a list of as many parts as were asked for, or none, and nothing is
misused. -/
def Splits (arguments : Bytes) (parts : ℕ) : Prop :=
  ∃ result, gebrCommProtocolSocketOldmsgSplit arguments parts = .ok result ∧
    ∀ list ∈ result, list.length = parts

/-- The number of a field, and whether the field is that number alone, with blanks or a plus in
front. -/
def readLength (field : Bytes) : Option (ℕ × Bool) :=
  (scanLength field).map fun (length, after) => (length, after = some [])

/-- The texts whose every field, up to the part where the splitter ends, is the length of a part. -/
inductive Shaped : ℕ → Bytes → Prop where
  /-- Nothing is asked for. -/
  | none (text : Bytes) : Shaped 0 text
  /-- The text has ended. -/
  | blank (parts : ℕ) {text : Bytes} (blank : ∀ b ∈ text, isSpace b = true) : Shaped (parts + 1) text
  /-- The number is more than what is left, be it a length or not. -/
  | tooLong (parts : ℕ) {field rest : Bytes} {length : ℕ} {plain : Bool} (clean : 124 ∉ field)
      (read : readLength field = some (length, plain)) (exceeds : rest.length < length) :
      Shaped (parts + 1) (field ++ 124 :: rest)
  /-- A part, and nothing more to split after it. -/
  | last {parts : ℕ} {field arg rest : Bytes} (clean : 124 ∉ field)
      (read : readLength field = some (arg.length, true)) (ends : parts = 0 ∨ rest.length < 2) :
      Shaped (parts + 1) (field ++ 124 :: (arg ++ rest))
  /-- A part, a byte between, and the other parts. -/
  | next {parts : ℕ} {field arg rest : Bytes} {b : UInt8} (clean : 124 ∉ field)
      (read : readLength field = some (arg.length, true)) (others : Shaped parts rest) :
      Shaped (parts + 1) (field ++ 124 :: (arg ++ b :: rest))

end Statement

section Fields

variable {parts : ℕ} {field sep : Bytes}

theorem dropWhile_isDigit_append (s rest : Bytes) :
    (s ++ 124 :: rest).takeWhile isDigit = s.takeWhile isDigit ∧
      (s ++ 124 :: rest).dropWhile isDigit = s.dropWhile isDigit ++ 124 :: rest := by
  induction s with
  | nil => exact ⟨rfl, rfl⟩
  | cons b s ih =>
    by_cases good : isDigit b = true
    · simp only [List.cons_append, List.takeWhile_cons_of_pos good, List.dropWhile_cons_of_pos good,
        ih, and_self]
    · simp only [List.cons_append, List.takeWhile_cons_of_neg good, List.dropWhile_cons_of_neg good,
        and_self]

/-- The separator is no part of what `sscanf` reads. -/
theorem scanLength_append (field sep : Bytes) :
    scanLength (field ++ 124 :: sep) =
      (scanLength field).map fun (length, after) => (length, after.map (· ++ 124 :: sep)) := by
  have blanks : (field ++ 124 :: sep).dropWhile isSpace = field.dropWhile isSpace ++ 124 :: sep := by
    induction field with
    | nil => rfl
    | cons b field ih =>
      by_cases space : isSpace b = true
      · simp only [List.cons_append, List.dropWhile_cons_of_pos space, ih]
      · simp only [List.cons_append, List.dropWhile_cons_of_neg space]
  have sign : ∀ s : Bytes, takeSign (s ++ 124 :: sep) =
      ((takeSign s).1, (takeSign s).2 ++ 124 :: sep) := by
    intro s
    unfold takeSign
    cases s with
    | nil => rfl
    | cons b s =>
      simp only [List.cons_append]
      split <;> split <;> simp_all
  unfold scanLength
  rw [blanks, sign]
  simp only [(dropWhile_isDigit_append _ sep).1, (dropWhile_isDigit_append _ sep).2]
  split_ifs <;> rfl

/-- **One part**, at a field and its separator. -/
theorem splitChecked_field (clean : 124 ∉ field) (parts : ℕ) (sep : Bytes) :
    splitChecked (parts + 1) (field ++ 124 :: sep) =
      match readLength field with
      | none => .error .unset
      | some (argSize, plain) =>
        if sep.length < argSize then .ok none
        else if plain = false then .error .notALength
        else if parts = 0 then .ok (some [sep.take argSize])
        else
          match sep.drop argSize with
          | [] => .ok none
          | [_] => .ok none
          | _ :: iarg => (splitChecked parts iarg).map (Option.map (sep.take argSize :: ·)) := by
  have more : (field ++ 124 :: sep).dropWhile isSpace ≠ [] := by
    intro none
    exact absurd (List.dropWhile_eq_nil_iff.1 none 124 (by simp)) (by decide)
  unfold splitChecked
  rw [splitNew, if_neg more, dropWhile_ne clean, scanLength_append]
  unfold readLength
  cases scanLength field with
  | none =>
    dsimp only [Option.map_none, misused]
    split_ifs
    · rfl
    · rfl
    · rcases sep.drop _ with _ | ⟨b, _ | ⟨b', iarg⟩⟩
      all_goals rfl
  | some read =>
    obtain ⟨argSize, after⟩ := read
    have plain : after.map (· ++ 124 :: sep) = some (124 :: sep) ↔ after = some [] := by
      rw [Option.map_eq_some_iff]
      constructor
      · rintro ⟨front, rfl, same⟩
        rw [List.append_left_eq_self.1 same]
      · rintro rfl
        exact ⟨[], rfl, rfl⟩
    dsimp only [Option.map_some, Option.getD_some]
    by_cases exceeds : sep.length < argSize
    · have unused : misused sep (some (argSize, after.map (· ++ 124 :: sep))) = [] :=
        if_pos (.inl exceeds)
      rw [if_pos exceeds, if_pos exceeds, unused]
    · rw [if_neg exceeds, if_neg exceeds]
      by_cases same : after = some []
      · have used : misused sep (some (argSize, after.map (· ++ 124 :: sep))) = [] :=
          if_pos (.inr (plain.2 same))
        simp only [used, decide_eq_true same, Bool.true_eq_false, if_false]
        split_ifs
        · rfl
        · rcases sep.drop argSize with _ | ⟨b, _ | ⟨b', iarg⟩⟩
          · rfl
          · rfl
          · dsimp only [List.nil_append]
            obtain ⟨misuses, split⟩ := splitNew 0 parts (b' :: iarg)
            cases misuses <;> rfl
      · have misuse : misused sep (some (argSize, after.map (· ++ 124 :: sep))) = [.notALength] :=
          if_neg (not_or_intro exceeds (plain.not.2 same))
        simp only [misuse, decide_eq_false same, if_true]
        split_ifs
        · rfl
        · rcases sep.drop argSize with _ | ⟨b, _ | ⟨b', iarg⟩⟩
          all_goals rfl

theorem splitChecked_blank (parts : ℕ) {iarg : Bytes} (blank : ∀ b ∈ iarg, isSpace b = true) :
    splitChecked (parts + 1) iarg = .ok none := by
  rw [splitChecked, splitNew, if_pos (List.dropWhile_eq_nil_iff.2 blank)]

/-- Without a separator a text that is not blank is read through `NULL`. -/
theorem splitChecked_clean (parts : ℕ) {iarg : Bytes} (clean : 124 ∉ iarg)
    (filled : ¬ ∀ b ∈ iarg, isSpace b = true) : splitChecked (parts + 1) iarg = .error .separator := by
  have none : iarg.dropWhile (· ≠ 124) = [] := by
    rw [List.dropWhile_eq_nil_iff]
    exact fun b member => decide_eq_true fun same => clean (same ▸ member)
  rw [splitChecked, splitNew, if_neg fun empty => filled (List.dropWhile_eq_nil_iff.1 empty), none]

end Fields

section Splits

variable {parts : ℕ} {text : Bytes}

theorem exists_field (member : 124 ∈ text) :
    ∃ field sep : Bytes, 124 ∉ field ∧ text = field ++ 124 :: sep := by
  obtain ⟨field, sep, rfl, clean⟩ := List.eq_append_cons_of_mem member
  exact ⟨field, sep, clean, rfl⟩

/-- What is given where nothing is misused. -/
theorem splitNew_of_split {result : Option (List Bytes)}
    (split : splitChecked parts text = .ok result) : splitNew 0 parts text = ([], result) := by
  rw [splitChecked] at split
  generalize splitNew 0 parts text = found at split
  obtain ⟨misuses, other⟩ := found
  cases misuses with
  | nil =>
    obtain rfl := Except.ok.inj split
    rfl
  | cons misuse misuses => cases split

/-- **Where nothing is misused, the splitter is the one that the messages go through**, whatever a
number that was not read leaves behind. -/
theorem splitChecked_eq (stale : ℕ) {result : Option (List Bytes)}
    (split : splitChecked parts text = .ok result) :
    gebrCommProtocolSplitNew stale parts text = result := by
  have given := splitNew_of_split split
  rw [gebrCommProtocolSplitNew, splitNew_stale (congrArg Prod.fst given), given]

theorem drop_arg (arg rest : Bytes) : (arg ++ rest).take arg.length = arg ∧
    (arg ++ rest).drop arg.length = rest :=
  ⟨List.take_left, List.drop_left⟩

/-- **A shaped text is split** without a misuse. -/
theorem Shaped.split (shaped : Shaped parts text) :
    ∃ result, splitChecked parts text = .ok result := by
  induction shaped with
  | none text => exact ⟨_, rfl⟩
  | blank parts blank => exact ⟨_, splitChecked_blank parts blank⟩
  | tooLong parts clean read exceeds =>
    rw [splitChecked_field clean, read]
    dsimp only
    rw [if_pos exceeds]
    exact ⟨_, rfl⟩
  | @last parts field arg rest clean read ends =>
    rw [splitChecked_field clean, read]
    dsimp only
    rw [if_neg (by simp), if_neg (by decide), (drop_arg arg rest).1, (drop_arg arg rest).2]
    split
    · exact ⟨_, rfl⟩
    · rename_i more
      have short := ends.resolve_left more
      rcases rest with _ | ⟨_, _ | ⟨_, _⟩⟩
      · exact ⟨_, rfl⟩
      · exact ⟨_, rfl⟩
      · simp only [List.length_cons] at short
        omega
  | @next parts field arg rest b clean read others ih =>
    rw [splitChecked_field clean, read]
    dsimp only
    rw [if_neg (by simp), if_neg (by decide), (drop_arg arg (b :: rest)).1,
      (drop_arg arg (b :: rest)).2]
    split
    · exact ⟨_, rfl⟩
    · obtain ⟨result, later⟩ := ih
      cases rest with
      | nil => exact ⟨_, rfl⟩
      | cons b' rest =>
        dsimp only
        rw [later]
        exact ⟨_, rfl⟩

/-- **Only a shaped text is split** without a misuse. -/
theorem shaped_of_split {result : Option (List Bytes)} (split : splitChecked parts text = .ok result) :
    Shaped parts text := by
  induction parts generalizing text result with
  | zero => exact .none text
  | succ parts ih =>
    by_cases separated : 124 ∈ text
    · obtain ⟨field, sep, clean, rfl⟩ := exists_field separated
      rw [splitChecked_field clean] at split
      cases read : readLength field with
      | none =>
        rw [read] at split
        cases split
      | some length =>
        obtain ⟨argSize, plain⟩ := length
        by_cases exceeds : sep.length < argSize
        · exact .tooLong parts clean read exceeds
        · rw [read] at split
          dsimp only at split
          rw [if_neg exceeds] at split
          cases plain with
          | false =>
            rw [if_pos rfl] at split
            cases split
          | true =>
            -- the part is there, and the text goes on behind it
            have arg : (sep.take argSize).length = argSize :=
              List.length_take_of_le (Nat.not_lt.1 exceeds)
            have whole := List.take_append_drop argSize sep
            rw [← arg] at read
            rw [if_neg Bool.noConfusion] at split
            by_cases last : parts = 0
            · rw [← whole]
              exact .last clean read (.inl last)
            · rw [if_neg last] at split
              rcases rest : sep.drop argSize with _ | ⟨b, _ | ⟨b', iarg⟩⟩
              all_goals
                rw [rest] at split whole
                rw [← whole]
              · exact .last clean read (.inr Nat.zero_lt_two)
              · exact .last clean read (.inr Nat.one_lt_two)
              · cases later : splitChecked parts (b' :: iarg) with
                | error misuse =>
                  dsimp only at split
                  rw [later] at split
                  cases split
                | ok others => exact .next clean read (ih later)
    · by_cases blank : ∀ b ∈ text, isSpace b = true
      · exact .blank parts blank
      · rw [splitChecked_clean parts separated blank] at split
        cases split

/-- **Argument splitting is total just on shaped texts.** For every text and every number of parts,
the splitter gives a list of exactly so many parts or none, and uses neither a separator that is
missing, nor a length that is no number or negative, just when each field of the text up to the end
of the splitting is the length of a part, or a number that is more than what is left. -/
theorem splits_iff (arguments : Bytes) (parts : ℕ) :
    Splits arguments parts ↔ Shaped parts (arguments.takeWhile (· ≠ 0)) := by
  constructor
  · rintro ⟨result, split, -⟩
    exact shaped_of_split split
  · intro shaped
    obtain ⟨result, split⟩ := shaped.split
    refine ⟨result, split, ?_⟩
    rintro list rfl
    exact splitNew_length (splitChecked_eq 0 split)

example : gebrCommProtocolSocketOldmsgSplit (ascii "3|a b 0|") 2 = .ok (some [ascii "a b", []]) := by
  decide +kernel

/-- **A text without a separator** is read through `NULL`; a field without a number leaves its
length unset, and a minus in front of `2 ^ 64 - 1` makes it a length of one. -/
theorem missing_separator :
    gebrCommProtocolSocketOldmsgSplit (ascii "hello") 1 = .error .separator ∧
      gebrCommProtocolSocketOldmsgSplit (ascii "|hello") 1 = .error .unset ∧
      gebrCommProtocolSocketOldmsgSplit (ascii "-18446744073709551615|hello") 1 =
        .error .notALength ∧
      ¬ ∀ arguments parts, Splits arguments parts := by
  have first : gebrCommProtocolSocketOldmsgSplit (ascii "hello") 1 = .error .separator := by
    decide +kernel
  refine ⟨first, by decide +kernel, by decide +kernel, fun all => ?_⟩
  obtain ⟨result, split, -⟩ := all (ascii "hello") 1
  rw [first] at split
  cases split

end Splits

end Gebr.Comm
