/-
**A text between double quotes, as a POSIX shell reads it.**

* `readQuoted`: what is read behind the opening quote, and how it ends.
* `spell`: how bytes and references in braces are written one after another.
* `Safe`: nothing but the references is special to the shell where it stands.
* `readQuoted_spell_iff`: **what is written is read as it is meant if and only if it is safe.**
-/

import Mathlib.Data.List.TakeWhile

namespace Gebr.Lib.DoubleQuotes

section Reading

/-- A byte that stands for itself, or an expansion of what is between braces. -/
inductive Chunk
  | byte (b : UInt8)
  | reference (body : List UInt8)
  deriving DecidableEq

/-- How the reading of a quoted text ends. -/
inductive Ending
  /-- With the closing quote, and what is behind it. -/
  | closed (rest : List UInt8)
  | unclosed
  /-- With a command, or an expansion that is no name in braces. -/
  | expands (rest : List UInt8)
  deriving DecidableEq

/-- The bytes that a backslash takes their meaning from: `$`, the backquote, `"`, `\` and a line
end. -/
def isEscapable (b : UInt8) : Bool := b = 36 || b = 96 || b = 34 || b = 92 || b = 10

/-- The bytes behind a `$` that begin an expansion: letters, digits, `_`, the special parameters,
`{` and `(`. -/
def isExpanding (b : UInt8) : Bool :=
  (97 ≤ b && b ≤ 122) || (65 ≤ b && b ≤ 90) || (48 ≤ b && b ≤ 57) || b = 95 ||
    b = 64 || b = 42 || b = 35 || b = 63 || b = 45 || b = 36 || b = 33 || b = 123 || b = 40

/-- The bytes between braces in which the shell looks for nothing more: no brace, no quote, no `\`,
no `$` and no backquote. -/
def isPlain (b : UInt8) : Bool :=
  !(b = 123 || b = 125 || b = 34 || b = 39 || b = 92 || b = 36 || b = 96)

/-- A byte in front of what is read. -/
def cons (chunk : Chunk) (read : List Chunk × Ending) : List Chunk × Ending :=
  (chunk :: read.1, read.2)

/-- What is between braces, up to the closing one, and what is behind it. -/
def splitBody (s : List UInt8) : Option (List UInt8 × List UInt8) :=
  match s.dropWhile isPlain with
  | 125 :: rest => if s.takeWhile isPlain = [] then none else some (s.takeWhile isPlain, rest)
  | _ => none

theorem splitBody_eq_some {s body rest : List UInt8} (split : splitBody s = some (body, rest)) :
    s = body ++ 125 :: rest := by
  unfold splitBody at split
  split at split
  case h_1 found =>
    split_ifs at split
    obtain ⟨rfl, rfl⟩ := Prod.mk.inj (Option.some.inj split)
    rw [← found, List.takeWhile_append_dropWhile]
  case h_2 => exact nomatch split

/-- **What a shell reads behind an opening double quote.** A `$` that begins no expansion is
kept. -/
def readQuoted : List UInt8 → List Chunk × Ending
  | [] => ([], .unclosed)
  | b :: s =>
    if b = 34 then ([], .closed s)
    else if b = 96 then ([], .expands s)
    else if b = 92 then
      match s with
      | [] => ([.byte 92], .unclosed)
      | c :: s =>
        if c = 10 then readQuoted s
        else if isEscapable c then cons (.byte c) (readQuoted s)
        else cons (.byte 92) (readQuoted (c :: s))
    else if b = 36 then
      match s with
      | [] => ([.byte 36], .unclosed)
      | c :: s =>
        if c = 123 then
          match _split : splitBody s with
          | none => ([], .expands s)
          | some (body, rest) => cons (.reference body) (readQuoted rest)
        else if isExpanding c then ([], .expands (c :: s))
        else cons (.byte 36) (readQuoted (c :: s))
    else cons (.byte b) (readQuoted s)
termination_by s => s.length
decreasing_by
  all_goals simp only [List.length_cons]
  case _ => omega
  case _ => omega
  case _ => omega
  case _ =>
    rw [splitBody_eq_some _split, List.length_append, List.length_cons]
    omega
  case _ => omega
  case _ => omega

end Reading

section Writing

def Chunk.spell : Chunk → List UInt8
  | .byte b => [b]
  | .reference body => 36 :: 123 :: body ++ [125]

/-- How chunks are written one after another. -/
def spell (chunks : List Chunk) : List UInt8 := chunks.flatMap Chunk.spell

/-- A byte that means nothing to the shell in front of another one. -/
def Kept (b next : UInt8) : Prop :=
  b ≠ 34 ∧ b ≠ 96 ∧ (b = 92 → isEscapable next = false) ∧ (b = 36 → isExpanding next = false)

/-- **Chunks that the shell reads as they are meant**: each byte is kept in front of the next one,
the closing quote at the end, and each reference has a plain body. -/
def Safe : List Chunk → Prop
  | [] => True
  | .byte b :: chunks => Kept b ((spell chunks).headD 34) ∧ Safe chunks
  | .reference body :: chunks => (body ≠ [] ∧ ∀ b ∈ body, isPlain b = true) ∧ Safe chunks

instance (b next : UInt8) : Decidable (Kept b next) := inferInstanceAs (Decidable (_ ∧ _ ∧ _ ∧ _))

instance Safe.decidable : ∀ chunks, Decidable (Safe chunks)
  | [] => isTrue trivial
  | .byte _ :: chunks => @instDecidableAnd _ _ _ (Safe.decidable chunks)
  | .reference _ :: chunks => @instDecidableAnd _ _ _ (Safe.decidable chunks)

theorem spell_append (front back : List Chunk) : spell (front ++ back) = spell front ++ spell back :=
  List.flatMap_append

theorem spell_bytes (text : List UInt8) : spell (text.map .byte) = text := by
  rw [spell, List.flatMap_map]
  exact List.flatMap_singleton' text

end Writing

section Correctness

variable {b c : UInt8} {s : List UInt8}

theorem readQuoted_quote : readQuoted (34 :: s) = ([], .closed s) := by
  rw [readQuoted.eq_def]
  rfl

theorem readQuoted_backquote : readQuoted (96 :: s) = ([], .expands s) := by
  rw [readQuoted.eq_def]
  rfl

theorem readQuoted_continued : readQuoted (92 :: 10 :: s) = readQuoted s := by
  rw [readQuoted.eq_def]
  rfl

theorem readQuoted_escaped (escapable : isEscapable c = true) (lineEnd : c ≠ 10) :
    readQuoted (92 :: c :: s) = cons (.byte c) (readQuoted s) := by
  rw [readQuoted.eq_def]
  show (if c = 10 then _ else if isEscapable c = true then _ else _) = _
  rw [if_neg lineEnd, if_pos escapable]

theorem readQuoted_braces : readQuoted (36 :: 123 :: s) =
    match splitBody s with
    | none => ([], .expands s)
    | some (body, rest) => cons (.reference body) (readQuoted rest) := by
  rw [readQuoted.eq_def]
  show (match _split : splitBody s with
    | none => _
    | some (body, rest) => _) = _
  split <;> simp only [*]

theorem readQuoted_expanding (expanding : isExpanding c = true) (brace : c ≠ 123) :
    readQuoted (36 :: c :: s) = ([], .expands (c :: s)) := by
  rw [readQuoted.eq_def]
  show (if c = 123 then _ else if isExpanding c = true then _ else _) = _
  rw [if_neg brace, if_pos expanding]

theorem readQuoted_kept (kept : Kept b c) :
    readQuoted (b :: c :: s) = cons (.byte b) (readQuoted (c :: s)) := by
  obtain ⟨quote, backquote, backslash, dollar⟩ := kept
  rw [readQuoted.eq_def]
  simp only
  rw [if_neg quote, if_neg backquote]
  by_cases slash : b = 92
  · have lineEnd : c ≠ 10 := by rintro rfl; exact absurd (backslash slash) (by decide)
    rw [if_pos slash, if_neg lineEnd, if_neg (Bool.eq_false_iff.1 (backslash slash)), slash]
  · rw [if_neg slash]
    by_cases sign : b = 36
    · have brace : c ≠ 123 := by rintro rfl; exact absurd (dollar sign) (by decide)
      rw [if_pos sign, if_neg brace, if_neg (Bool.eq_false_iff.1 (dollar sign)), sign]
    · rw [if_neg sign]

theorem cons_eq_iff {chunk : Chunk} {read : List Chunk × Ending} {chunks : List Chunk}
    {ending : Ending} : cons chunk read = (chunks, ending) ↔ ∃ tail, chunks = chunk :: tail ∧ read =
    (tail, ending) := by
  constructor
  · rintro same
    obtain ⟨rfl, rfl⟩ := Prod.mk.inj same
    exact ⟨read.1, rfl, rfl⟩
  · rintro ⟨tail, rfl, rfl⟩
    rfl

@[simp] theorem spell_cons (chunk : Chunk) (chunks : List Chunk) :
    spell (chunk :: chunks) = chunk.spell ++ spell chunks := rfl

/-- A byte that is read, when one byte or two were there for it. -/
theorem length_spell_byte {chunks : List Chunk} {rest t : List UInt8} {read : List Chunk × Ending}
    (same : cons (.byte b) read = (chunks, .closed rest)) (shorter : ∀ {tail : List Chunk},
      read = (tail, .closed rest) → (spell tail).length + 1 + rest.length ≤ t.length) :
    (spell chunks).length + 1 + rest.length ≤ t.length + 1 := by
  obtain ⟨tail, rfl, read⟩ := cons_eq_iff.1 same
  have le := shorter read
  simp only [spell_cons, Chunk.spell, List.length_append, List.length_singleton]
  omega

/-- No more is read than was there. -/
theorem length_spell_le {t rest : List UInt8} {chunks : List Chunk}
    (read : readQuoted t = (chunks, .closed rest)) :
    (spell chunks).length + 1 + rest.length ≤ t.length := by
  fun_induction readQuoted t generalizing chunks with
  | case1 => cases read
  | case2 s =>
    cases read
    simp only [spell, List.flatMap_nil, List.length_nil, List.length_cons]
    omega
  | case3 => cases read
  | case4 => cases read
  | case5 s _ _ ih =>
    have le := ih read
    simp only [List.length_cons]
    omega
  | case6 c s _ _ _ _ ih => exact (length_spell_byte read ih).trans (Nat.le_succ _)
  | case7 c s _ _ _ _ ih => exact length_spell_byte read ih
  | case8 => cases read
  | case9 => cases read
  | case10 s body rest' split _ _ _ ih =>
    obtain ⟨tail, rfl, behind⟩ := cons_eq_iff.1 read
    have le := ih behind
    rw [splitBody_eq_some split]
    simp only [spell_cons, Chunk.spell, List.length_append, List.length_cons, List.length_nil]
    omega
  | case11 => cases read
  | case12 c s _ _ _ _ _ ih => exact length_spell_byte read ih
  | case13 c s _ _ _ _ ih => exact length_spell_byte read ih

theorem splitBody_plain {s body rest : List UInt8} (split : splitBody s = some (body, rest)) :
    body ≠ [] ∧ ∀ b ∈ body, isPlain b = true := by
  unfold splitBody at split
  split at split
  case h_1 =>
    split_ifs at split with empty
    obtain ⟨rfl, rfl⟩ := Prod.mk.inj (Option.some.inj split)
    exact ⟨empty, fun b member => List.mem_takeWhile_imp member⟩
  case h_2 => exact nomatch split

theorem splitBody_of_plain {body : List UInt8} (given : body ≠ [])
    (plain : ∀ b ∈ body, isPlain b = true) (rest : List UInt8) :
    splitBody (body ++ 125 :: rest) = some (body, rest) := by
  rw [splitBody, List.dropWhile_append_of_pos plain, List.takeWhile_append_of_pos plain,
    List.dropWhile_cons_of_neg (by decide), List.takeWhile_cons_of_neg (by decide), List.append_nil]
  exact if_neg given

/-- What is behind a chunk begins with the next one, or with the closing quote. -/
theorem spell_append_quote (chunks : List Chunk) (rest : List UInt8) :
    ∃ tail, spell chunks ++ 34 :: rest = (spell chunks).headD 34 :: tail := by
  cases spell chunks with
  | nil => exact ⟨rest, rfl⟩
  | cons b s => exact ⟨s ++ 34 :: rest, rfl⟩

/-- **A byte that is read as itself is kept.** -/
theorem kept_of_read {chunks : List Chunk} {rest : List UInt8}
    (read : readQuoted (b :: (spell chunks ++ 34 :: rest)) = (.byte b :: chunks, .closed rest)) :
    Kept b ((spell chunks).headD 34) := by
  obtain ⟨tail, same⟩ := spell_append_quote chunks rest
  have lengths := congrArg List.length same
  simp only [List.length_append, List.length_cons] at lengths
  rw [same] at read
  generalize (spell chunks).headD 34 = c at read
  -- where a byte or two are taken away, too little is left for what was meant
  have enough : ∀ {t : List UInt8}, (spell (.byte b :: chunks)).length + 1 + rest.length ≤ t.length →
      tail.length + 1 < t.length := by
    intro t le
    simp only [spell_cons, Chunk.spell, List.length_append, List.length_singleton] at le
    omega
  refine ⟨?_, ?_, ?_, ?_⟩
  · rintro rfl
    rw [readQuoted_quote] at read
    cases read
  · rintro rfl
    rw [readQuoted_backquote] at read
    cases read
  · rintro rfl
    rw [← Bool.not_eq_true]
    intro escapable
    by_cases lineEnd : c = 10
    · rw [lineEnd, readQuoted_continued] at read
      exact absurd (enough (length_spell_le read)) (by omega)
    · rw [readQuoted_escaped escapable lineEnd] at read
      have le := length_spell_byte read length_spell_le
      exact absurd (enough (t := c :: tail) le) (Nat.lt_irrefl _)
  · rintro rfl
    rw [← Bool.not_eq_true]
    intro expanding
    by_cases brace : c = 123
    · rw [brace, readQuoted_braces] at read
      split at read
      · cases read
      · obtain ⟨_, heads, -⟩ := cons_eq_iff.1 read
        cases heads
    · rw [readQuoted_expanding expanding brace] at read
      cases read

/-- **What is written between quotes is read as it is meant, and up to the closing one, if and only
if it is safe.** -/
theorem readQuoted_spell_iff (chunks : List Chunk) (rest : List UInt8) :
    readQuoted (spell chunks ++ 34 :: rest) = (chunks, .closed rest) ↔ Safe chunks := by
  induction chunks with
  | nil => exact iff_of_true readQuoted_quote trivial
  | cons chunk chunks ih =>
    cases chunk with
    | byte b =>
      have step : Kept b ((spell chunks).headD 34) → readQuoted (b :: (spell chunks ++ 34 :: rest)) =
          cons (.byte b) (readQuoted (spell chunks ++ 34 :: rest)) := by
        intro kept
        obtain ⟨tail, same⟩ := spell_append_quote chunks rest
        rw [same]
        exact readQuoted_kept kept
      rw [Safe, ← ih]
      constructor
      · intro read
        have kept := kept_of_read read
        obtain ⟨tail, heads, behind⟩ := cons_eq_iff.1 ((step kept).symm.trans read)
        obtain rfl : chunks = tail := (List.cons.inj heads).2
        exact ⟨kept, behind⟩
      · rintro ⟨kept, behind⟩
        exact (step kept).trans (by rw [behind, cons])
    | reference body =>
      have written : spell (.reference body :: chunks) ++ 34 :: rest =
          36 :: 123 :: (body ++ 125 :: (spell chunks ++ 34 :: rest)) := by
        simp only [spell_cons, Chunk.spell, List.append_assoc, List.cons_append, List.nil_append]
      rw [Safe, ← ih, written, readQuoted_braces]
      constructor
      · intro read
        split at read
        · cases read
        · rename_i body' rest' split
          obtain ⟨tail, heads, behind⟩ := cons_eq_iff.1 read
          obtain ⟨same, rfl⟩ := List.cons.inj heads
          obtain rfl : body = body' := Chunk.reference.inj same
          have parts := List.append_cancel_left (splitBody_eq_some split)
          obtain rfl : spell chunks ++ 34 :: rest = rest' := (List.cons.inj parts).2
          exact ⟨splitBody_plain split, behind⟩
      · rintro ⟨⟨given, plain⟩, behind⟩
        rw [splitBody_of_plain given plain]
        show cons _ (readQuoted _) = _
        rw [behind, cons]

end Correctness

end Gebr.Lib.DoubleQuotes
