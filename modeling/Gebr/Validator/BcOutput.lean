/-
**What is read of the output of bc.**

bc breaks a long line with a backslash; the validator joins the lines again, looks for the messages
of bc among them, and takes out what a nested string has left behind its value.

* `readLine`, `readLoop`, `evalInternal`: the loop over the lines, and what comes of it.
* `bcPrint`, `bcLines`: what bc prints for a text, and the lines that the channel gives of it.
* `evalInternal_ok_iff` — **when something is read**: no line before the cookie is an error, and one
  of them is counted as a result.
* `bcLines_eq`: one line of text is read as it was broken by bc.
* `evalInternal_bcLines` — **a text is read as it was printed** if it is one line, none of the lines
  that are printed is a message, and it has no backslash at its end.
* `Spoils`: what becomes of a text with nested strings when it is cleaned.
-/

import Gebr.Lib.Channel
import Gebr.Validator.StringExpr

namespace Gebr.Validator.BcOutput

open Gebr.Lib.Channel (readLines readLines_valid)
open Gebr.Lib.CString (ascii)
open Gebr.Lib.LineBreaks (OneLine closes_gBreaks lines_flatMap lines_oneLine)
open Gebr.Lib.Utf8 (validate)
open Gebr.Validator.StringExpr (Text)

section Model

/-- What `gebr_arith_expr_eval_internal` finds wrong. -/
inductive EvalError where
  | invalid
  | runtime
  /-- Expression does not evaluate to a value. -/
  | noValue
  /-- Expression returned multiple results. -/
  | multiple
  deriving DecidableEq, Repr

/-- `EVAL_COOKIE`. -/
def evalCookie : Text := ascii "GEBR-EVAL-COOKIE" ++ [10]

/-- How a message of bc about the expression begins. -/
def syntaxMessage : Text := ascii "(standard_in) "

def runtimeMessage : Text := ascii "Runtime error (func"

def warningMessage : Text := ascii "Runtime warning (func"

/-- The line is broken: a backslash is before its end. (Of an empty line the byte before it is read,
which is none of the text.) -/
def Broken (text : Text) : Prop := 2 ≤ text.length ∧ text[text.length - 2]? = some 92

instance (line : Text) : Decidable (Broken line) := inferInstanceAs (Decidable (_ ∧ _))

/-- What a line does to the loop that reads it. -/
inductive Reading where
  | cookie
  | error (error : EvalError)
  /-- What was put together, and the number of results. -/
  | goesOn (buffer : Text) (results : ℕ)
  deriving DecidableEq

/-- The body of the loop, on a line with its line end. -/
def readLine (buffer : Text) (results : ℕ) (line : Text) : Reading :=
  if line = evalCookie then .cookie
  else if syntaxMessage.isPrefixOf line then .error .invalid
  else if runtimeMessage.isPrefixOf line then .error .runtime
  else if warningMessage.isPrefixOf line then .goesOn buffer results
  else if Broken line then .goesOn (buffer ++ line.take (line.length - 2)) results
  else .goesOn (buffer ++ line) (results + 1)

/-- The loop over the lines. -/
def readLoop (buffer : Text) (results : ℕ) : List Text → Except EvalError (Text × ℕ)
  | [] => .ok (buffer, results)
  | line :: lines =>
    match readLine buffer results line with
    | .cookie => .ok (buffer, results)
    | .error error => .error error
    | .goesOn buffer results => readLoop buffer results lines

/-- What is returned after the loop. -/
def finish (buffer : Text) (results : ℕ) : Except EvalError Text :=
  if results = 0 then .error .noValue
  else if 1 < results then .error .multiple
  else .ok buffer.dropLast

/-- `gebr_arith_expr_eval_internal` on the lines that bc answers, up to the cookie. -/
def evalInternal (lines : List Text) : Except EvalError Text :=
  match readLoop [] 0 (lines ++ [evalCookie]) with
  | .error error => .error error
  | .ok (buffer, results) => finish buffer results

/-- The loop of `clean_string`: at a backspace the byte after it takes the place of the one before
it. -/
def cleanLoop (front : Text) : Text → Text
  | [] => front
  | b :: rest =>
    if b = 8 then
      match rest with
      | [] => front.dropLast
      | c :: rest => cleanLoop (front.dropLast ++ [c]) rest
    else cleanLoop (front ++ [b]) rest

/-- `clean_string`. -/
def cleanString (text : Text) : Text := cleanLoop [] text

/-- How bc breaks a line that is too long: its pieces, of which none is empty. -/
structure LineBreaks where
  breaks : Text → List Text
  flatten : ∀ text, (breaks text).flatten = text
  nonempty : ∀ text, ∀ piece ∈ breaks text, piece ≠ []

/-- No line is too long. -/
def LineBreaks.whole : LineBreaks where
  breaks := fun text => if text = [] then [] else [text]
  flatten := by
    intro text
    by_cases none : text = []
    · rw [if_pos none, none]
      rfl
    · rw [if_neg none, List.flatten_singleton]
  nonempty := by
    intro text piece member
    by_cases none : text = []
    · rw [if_pos none] at member
      cases member
    · rw [if_neg none] at member
      rwa [List.mem_singleton.1 member]

/-- The lines of the pieces of a line: all but the last end with a backslash. -/
def rawLines : List Text → List Text
  | [] => [[10]]
  | [piece] => [piece ++ [10]]
  | piece :: other :: pieces => (piece ++ [92, 10]) :: rawLines (other :: pieces)

/-- What bc prints for a text and a line end after it. -/
def bcPrint (wrap : LineBreaks) (text : Text) : Text :=
  (text.splitOn 10).flatMap fun line => (rawLines (wrap.breaks line)).flatten

/-- The lines that `read_bc_line` gets of it, until there are no more or one of them cannot be
read. -/
def bcLines (wrap : LineBreaks) (text : Text) : List Text := readLines (bcPrint wrap text)

end Model

section Lines

/-- A line that looks like a message about an error. -/
def ErrorLine (line : Text) : Prop :=
  syntaxMessage.isPrefixOf line = true ∨ runtimeMessage.isPrefixOf line = true

/-- A line that looks like a warning. -/
def WarningLine (line : Text) : Prop := warningMessage.isPrefixOf line = true

instance (line : Text) : Decidable (ErrorLine line) := inferInstanceAs (Decidable (_ ∨ _))

instance (line : Text) : Decidable (WarningLine line) := inferInstanceAs (Decidable (_ = _))

/-- A line that counts as a result. -/
def Counted (line : Text) : Prop := ¬ WarningLine line ∧ ¬ Broken line

instance (line : Text) : Decidable (Counted line) := inferInstanceAs (Decidable (_ ∧ _))

/-- The lines before the first one that is the cookie. -/
def beforeCookie (lines : List Text) : List Text := lines.takeWhile fun line => line ≠ evalCookie

/-- **What can be read**: no line before the cookie is an error, and one of them is counted. -/
def Readable (lines : List Text) : Prop :=
  (∀ line ∈ beforeCookie lines, ¬ ErrorLine line) ∧
    (beforeCookie lines).countP (fun line => Counted line) = 1

instance (lines : List Text) : Decidable (Readable lines) := inferInstanceAs (Decidable (_ ∧ _))

variable {buffer line : Text} {results : ℕ} {lines : List Text}

theorem readLine_cookie : readLine buffer results evalCookie = .cookie := if_pos rfl

/-- A line that looks like an error ends the loop. -/
theorem readLine_error (other : line ≠ evalCookie) (bad : ErrorLine line) :
    ∃ error, readLine buffer results line = .error error := by
  rw [readLine, if_neg other]
  by_cases first : syntaxMessage.isPrefixOf line = true
  · exact ⟨.invalid, if_pos first⟩
  · exact ⟨.runtime, by rw [if_neg first, if_pos (bad.resolve_left first)]⟩

theorem readLine_clean (other : line ≠ evalCookie) (clean : ¬ ErrorLine line) :
    readLine buffer results line =
      if WarningLine line then .goesOn buffer results
      else if Broken line then .goesOn (buffer ++ line.take (line.length - 2)) results
      else .goesOn (buffer ++ line) (results + 1) := by
  rw [readLine, if_neg other, if_neg fun first => clean (.inl first),
    if_neg fun second => clean (.inr second)]
  rfl

theorem readLoop_cookie : readLoop buffer results (evalCookie :: lines) = .ok (buffer, results) := by
  rw [readLoop, readLine_cookie]

theorem readLoop_error (other : line ≠ evalCookie) (bad : ErrorLine line) :
    ∃ error, readLoop buffer results (line :: lines) = .error error := by
  obtain ⟨error, read⟩ := @readLine_error buffer line results other bad
  exact ⟨error, by rw [readLoop, read]⟩

theorem readLoop_warning (other : line ≠ evalCookie) (clean : ¬ ErrorLine line)
    (warns : WarningLine line) :
    readLoop buffer results (line :: lines) = readLoop buffer results lines := by
  rw [readLoop, readLine_clean other clean, if_pos warns]

/-- A line that goes on. -/
theorem readLoop_broken (other : line ≠ evalCookie) (clean : ¬ ErrorLine line)
    (calm : ¬ WarningLine line) (broken : Broken line) :
    readLoop buffer results (line :: lines) =
      readLoop (buffer ++ line.take (line.length - 2)) results lines := by
  rw [readLoop, readLine_clean other clean, if_neg calm, if_pos broken]

/-- A line that is counted. -/
theorem readLoop_counted (other : line ≠ evalCookie) (clean : ¬ ErrorLine line)
    (counted : Counted line) :
    readLoop buffer results (line :: lines) = readLoop (buffer ++ line) (results + 1) lines := by
  rw [readLoop, readLine_clean other clean, if_neg counted.1, if_neg counted.2]

theorem beforeCookie_cons (other : line ≠ evalCookie) :
    beforeCookie (line :: lines) = line :: beforeCookie lines :=
  List.takeWhile_cons_of_pos (decide_eq_true other)

@[simp] theorem beforeCookie_cookie : beforeCookie (evalCookie :: lines) = [] :=
  List.takeWhile_cons_of_neg (by simp)

/-- The number of results is the number of lines that count. -/
theorem readLoop_results (clean : ∀ line ∈ beforeCookie lines, ¬ ErrorLine line) :
    ∃ text, readLoop buffer results (lines ++ [evalCookie]) =
      .ok (text, results + (beforeCookie lines).countP fun line => Counted line) := by
  induction lines generalizing buffer results with
  | nil => exact ⟨buffer, readLoop_cookie⟩
  | cons line lines ih =>
    rw [List.cons_append]
    by_cases cookie : line = evalCookie
    · subst cookie
      exact ⟨buffer, by rw [readLoop_cookie, beforeCookie_cookie]; rfl⟩
    · rw [beforeCookie_cons cookie] at clean ⊢
      have here := clean line List.mem_cons_self
      have later : ∀ line ∈ beforeCookie lines, ¬ ErrorLine line :=
        fun other member => clean other (List.mem_cons_of_mem line member)
      by_cases counted : Counted line
      · obtain ⟨text, read⟩ := @ih (buffer ++ line) (results + 1) later
        refine ⟨text, ?_⟩
        have one : (line :: beforeCookie lines).countP (fun line => Counted line) =
            (beforeCookie lines).countP (fun line => Counted line) + 1 :=
          List.countP_cons_of_pos (decide_eq_true counted)
        rw [readLoop_counted cookie here counted, read, one, Nat.add_right_comm, Nat.add_assoc]
      · have none : (line :: beforeCookie lines).countP (fun line => Counted line) =
            (beforeCookie lines).countP (fun line => Counted line) :=
          List.countP_cons_of_neg (by simpa using counted)
        rw [none]
        by_cases warns : WarningLine line
        · rw [readLoop_warning cookie here warns]
          exact ih later
        · have broken : Broken line := by
            by_contra whole
            exact counted ⟨warns, whole⟩
          rw [readLoop_broken cookie here warns broken]
          exact ih later

theorem readLoop_fails (bad : ∃ line ∈ beforeCookie lines, ErrorLine line) :
    ∃ error, readLoop buffer results (lines ++ [evalCookie]) = .error error := by
  induction lines generalizing buffer results with
  | nil => obtain ⟨line, member, -⟩ := bad; cases member
  | cons line lines ih =>
    rw [List.cons_append]
    by_cases cookie : line = evalCookie
    · subst cookie
      obtain ⟨other, member, -⟩ := bad
      rw [beforeCookie_cookie] at member
      cases member
    · by_cases here : ErrorLine line
      · exact readLoop_error cookie here
      · have later : ∃ line ∈ beforeCookie lines, ErrorLine line := by
          obtain ⟨other, member, error⟩ := bad
          rw [beforeCookie_cons cookie] at member
          rcases List.mem_cons.1 member with rfl | member
          · exact absurd error here
          · exact ⟨other, member, error⟩
        by_cases warns : WarningLine line
        · rw [readLoop_warning cookie here warns]
          exact ih later
        · by_cases broken : Broken line
          · rw [readLoop_broken cookie here warns broken]
            exact ih later
          · rw [readLoop_counted cookie here ⟨warns, broken⟩]
            exact ih later

/-- **When something is read.** -/
theorem evalInternal_ok_iff (lines : List Text) :
    (∃ result, evalInternal lines = .ok result) ↔ Readable lines := by
  unfold evalInternal finish Readable
  by_cases clean : ∀ line ∈ beforeCookie lines, ¬ ErrorLine line
  · obtain ⟨text, read⟩ := @readLoop_results [] 0 lines clean
    rw [read, and_iff_right clean]
    dsimp only
    rw [Nat.zero_add]
    constructor
    · rintro ⟨result, ok⟩
      split at ok
      · cases ok
      · split at ok
        · cases ok
        · omega
    · intro one
      exact ⟨text.dropLast, by rw [one]; rfl⟩
  · have bad : ∃ line ∈ beforeCookie lines, ErrorLine line := by
      simpa only [not_forall, not_not, exists_prop] using clean
    obtain ⟨error, read⟩ := @readLoop_fails [] 0 lines bad
    rw [read]
    refine ⟨?_, fun readable => absurd readable.1 clean⟩
    rintro ⟨_, ok⟩
    cases ok

end Lines

section Exact

/-- A line that is none of the text. -/
def Message (line : Text) : Prop := line = evalCookie ∨ ErrorLine line ∨ WarningLine line

instance (line : Text) : Decidable (Message line) := inferInstanceAs (Decidable (_ ∨ _))

variable {buffer piece text : Text} {results : ℕ} {lines pieces : List Text} {wrap : LineBreaks}

theorem broken_append (piece : Text) : Broken (piece ++ [92, 10]) := by
  have long : (piece ++ [92, 10]).length = piece.length + 2 := List.length_append
  refine ⟨by omega, ?_⟩
  rw [long, Nat.add_sub_cancel, List.getElem?_append_right (le_refl _), Nat.sub_self]
  rfl

theorem not_broken (whole : piece.getLast? ≠ some 92) : ¬ Broken (piece ++ [10]) := by
  rintro ⟨long, back⟩
  have more : (piece ++ [10]).length = piece.length + 1 := List.length_append
  rw [more] at long back
  apply whole
  rw [List.getLast?_eq_getElem?, ← back, List.getElem?_append_left (by omega)]
  congr 1

/-- **The pieces of a line are joined again.** -/
theorem readLoop_rawLines (plain : ∀ line ∈ rawLines pieces, ¬ Message line)
    (whole : ∀ piece ∈ pieces.getLast?, piece.getLast? ≠ some 92) :
    readLoop buffer results (rawLines pieces ++ lines) =
      readLoop (buffer ++ pieces.flatten ++ [10]) (results + 1) lines := by
  induction pieces generalizing buffer with
  | nil =>
    have calm := plain [10] List.mem_cons_self
    rw [rawLines, List.singleton_append, readLoop_counted (fun same => calm (.inl same))
      (fun bad => calm (.inr (.inl bad))) ⟨fun warns => calm (.inr (.inr warns)), by decide⟩,
      List.flatten_nil, List.append_nil]
  | cons piece pieces ih =>
    cases pieces with
    | nil =>
      have calm := plain (piece ++ [10]) List.mem_cons_self
      have ends := whole piece rfl
      rw [rawLines, List.singleton_append, readLoop_counted (fun same => calm (.inl same))
        (fun bad => calm (.inr (.inl bad))) ⟨fun warns => calm (.inr (.inr warns)), not_broken ends⟩]
      simp
    | cons other pieces =>
      have calm := plain (piece ++ [92, 10]) List.mem_cons_self
      have long : (piece ++ [92, 10]).length - 2 = piece.length := by simp
      have later := @ih (buffer ++ piece)
        (fun line member => plain line (List.mem_cons_of_mem _ member))
          (fun last member => whole last (by rwa [List.getLast?_cons_cons]))
      rw [rawLines, List.cons_append, readLoop_broken (fun same => calm (.inl same))
        (fun bad => calm (.inr (.inl bad))) (fun warns => calm (.inr (.inr warns)))
        (broken_append piece), long, List.take_left, later]
      simp

theorem getLast?_flatten (piece : Text) (member : piece ∈ pieces.getLast?)
    (nonempty : ∀ piece ∈ pieces, piece ≠ []) : pieces.flatten.getLast? = piece.getLast? := by
  obtain ⟨front, rfl⟩ : ∃ front, pieces = front ++ [piece] :=
    ⟨pieces.dropLast, (List.dropLast_append_getLast? piece member).symm⟩
  have given := nonempty piece (by simp)
  rw [List.flatten_append, List.flatten_singleton, List.getLast?_append_of_ne_nil _ given]

/-- The bodies of the lines of a text that is one line are one line each. -/
theorem rawLines_bodies (single : OneLine pieces.flatten) (nonempty : ∀ piece ∈ pieces, piece ≠ []) :
    ∃ bodies : List Text, rawLines pieces = bodies.map (· ++ [10]) ∧ ∀ body ∈ bodies,
    OneLine body := by
  induction pieces with
  | nil => exact ⟨[[]], rfl, List.forall_mem_singleton.2 single⟩
  | cons piece pieces ih =>
    cases pieces with
    | nil =>
      refine ⟨[piece], rfl, List.forall_mem_singleton.2 ?_⟩
      rwa [List.flatten_cons, List.flatten_nil, List.append_nil] at single
    | cons other pieces =>
      rw [List.forall_mem_cons] at nonempty
      rw [List.flatten_cons] at single
      have later : (other :: pieces).flatten ≠ [] := by
        rw [List.flatten_cons]
        exact List.append_ne_nil_of_left_ne_nil (nonempty.2 other List.mem_cons_self) _
      obtain ⟨bodies, raw, all⟩ := ih (single.of_append_right) nonempty.2
      refine ⟨(piece ++ [92]) :: bodies, ?_,
        List.forall_mem_cons.2 ⟨single.of_append_left later (by decide) (by decide), all⟩⟩
      rw [rawLines, raw, List.map_cons, List.append_assoc]
      rfl

/-- **One line of text is read as bc has broken it**, as long as no character is broken. -/
theorem bcLines_eq (single : OneLine text) (valid : validate (bcPrint wrap text) = true) :
    bcLines wrap text = rawLines (wrap.breaks text) := by
  have print : bcPrint wrap text = (rawLines (wrap.breaks text)).flatten := by
    rw [bcPrint, List.splitOn_eq_singleton single.feed, List.flatMap_singleton]
  obtain ⟨bodies, raw, all⟩ :=
    @rawLines_bodies (wrap.breaks text) ((wrap.flatten text).symm ▸ single) (wrap.nonempty text)
  rw [bcLines, readLines_valid valid, print, raw, ← List.flatMap_def, lines_flatMap closes_gBreaks]
  exact (List.flatMap_congr fun body member => lines_oneLine (all body member)).trans
    List.map_eq_flatMap.symm

/-- A text that bc prints on one line in UTF-8, which is no message and does not end with a
backslash. -/
structure Printable (wrap : LineBreaks) (text : Text) : Prop where
  line : OneLine text
  valid : validate (bcPrint wrap text) = true
  plain : ∀ line ∈ bcLines wrap text, ¬ Message line
  whole : text.getLast? ≠ some 92

/-- **A text is read as it was printed.** -/
theorem evalInternal_bcLines (printable : Printable wrap text) :
    evalInternal (bcLines wrap text) = .ok text := by
  obtain ⟨line, valid, plain, whole⟩ := printable
  have joined := wrap.flatten text
  rw [bcLines_eq line valid] at plain ⊢
  have ends : ∀ piece ∈ (wrap.breaks text).getLast?, piece.getLast? ≠ some 92 := by
    intro piece member
    rw [← getLast?_flatten piece member (wrap.nonempty text), joined]
    exact whole
  unfold evalInternal
  rw [readLoop_rawLines plain ends, readLoop_cookie, joined]
  exact congrArg Except.ok List.dropLast_concat

end Exact

section Clean

variable {front text raw clean : Text}

/-- A text, with what nested strings leave in it, is cleaned to another one, whatever is before and
after it. -/
structure Spoils (raw clean : Text) : Prop where
  begins : raw.head? ≠ some 8
  cleans : ∀ front rest : Text, rest.head? ≠ some 8 →
    cleanLoop front (raw ++ rest) = cleanLoop (front ++ clean) rest

theorem cleanLoop_cons {b : UInt8} (front rest : Text) (other : b ≠ 8) :
    cleanLoop front (b :: rest) = cleanLoop (front ++ [b]) rest := by
  conv_lhs => unfold cleanLoop
  rw [if_neg other]

theorem cleanLoop_backspace (front : Text) (b : UInt8) {rest : Text} (begins : rest.head? ≠ some 8) :
    cleanLoop (front ++ [b]) (8 :: rest) = cleanLoop front rest := by
  conv_lhs => unfold cleanLoop
  rw [if_pos rfl, List.dropLast_concat]
  cases rest with
  | nil => rfl
  | cons c rest =>
    have other : c ≠ 8 := fun same => begins (congrArg some same)
    rw [cleanLoop_cons front rest other]

/-- A text without backspaces is clean. -/
theorem spoils_text (plain : 8 ∉ text) : Spoils text text := by
  refine ⟨?_, ?_⟩
  · cases text with
    | nil => exact nofun
    | cons b text => exact fun same => plain (Option.some.inj same ▸ List.mem_cons_self)
  · intro front rest _
    induction text generalizing front with
    | nil => rw [List.nil_append, List.append_nil]
    | cons b text ih =>
      have other : b ≠ 8 := fun same => plain (same ▸ List.mem_cons_self)
      rw [List.cons_append, cleanLoop_cons front _ other,
        ih fun member => plain (List.mem_cons_of_mem b member), List.append_assoc,
        List.singleton_append]

theorem Spoils.append {raw' clean' : Text} (first : Spoils raw clean) (second : Spoils raw' clean') :
    Spoils (raw ++ raw') (clean ++ clean') := by
  refine ⟨?_, fun front rest begins => ?_⟩
  · cases raw with
    | nil => exact second.begins
    | cons b raw => exact first.begins
  · have later : (raw' ++ rest).head? ≠ some 8 := by
      cases raw' with
      | nil => exact begins
      | cons b raw' => exact second.begins
    rw [List.append_assoc, first.cleans front _ later, second.cleans _ _ begins, List.append_assoc]

/-- **A nested string** leaves a byte and a backspace, and both go. -/
theorem Spoils.nested (inner : Spoils raw clean) {printed : UInt8} (plain : printed ≠ 8) :
    Spoils (raw ++ [printed, 8]) clean := by
  refine ⟨?_, fun front rest begins => ?_⟩
  · cases raw with
    | nil => exact fun same => plain (Option.some.inj same)
    | cons b raw => exact inner.begins
  · have other : ([printed, 8] ++ rest).head? ≠ some 8 := fun same => plain (Option.some.inj same)
    rw [List.append_assoc, inner.cleans front _ other, List.cons_append,
      cleanLoop_cons _ _ plain, List.singleton_append, cleanLoop_backspace _ _ begins]

/-- The cleaning of the whole. -/
theorem Spoils.cleanString_eq (spoils : Spoils raw clean) : cleanString raw = clean := by
  have whole := spoils.cleans [] [] nofun
  rw [List.append_nil, List.nil_append] at whole
  exact whole

end Clean

end Gebr.Validator.BcOutput
