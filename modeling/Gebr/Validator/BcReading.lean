/-
**The reading of an answer of bc**, to its end.

`gebr_arith_expr_eval_internal` writes the expression and the cookie, and reads lines until the
cookie has come. After an error it reads on, to have the cookie out of the way.

* `settles_unique`: a machine comes to rest in one state.
* `State`, `step`: the two loops, line by line (`readLine`), on an output that ends or stays away.
* `outcome`, `settles_outcome`: where the loops come to rest.
* `Answers`: there is a result or an error, and nothing is left over of the output.
* `answers_iff` — **when there is**: the cookie comes last, or bc has ended without an error; and an
  error has a colon.
* `error_then_end`: an error, and then the end of bc.
-/

import Mathlib.Logic.Function.Iterate
import Gebr.Validator.BcOutput

namespace Gebr.Validator.BcReading

open Gebr.Lib.CString (ascii)
open Gebr.Validator.BcOutput
open Gebr.Validator.StringExpr (Text)

section Settles

variable {σ : Type*} {step : σ → σ} {start rest other : σ}

/-- A machine comes to rest in a state. -/
def Settles (step : σ → σ) (start rest : σ) : Prop := (∃ n, step^[n] start = rest) ∧ step rest = rest

theorem settles_self (fixed : step start = start) : Settles step start start := ⟨⟨0, rfl⟩, fixed⟩

theorem settles_step (later : Settles step (step start) rest) : Settles step start rest := by
  obtain ⟨⟨n, reaches⟩, fixed⟩ := later
  exact ⟨⟨n + 1, reaches⟩, fixed⟩

/-- **A machine comes to rest in one state.** -/
theorem settles_unique (one : Settles step start rest) (two : Settles step start other) :
    rest = other := by
  obtain ⟨⟨n, first⟩, fixed⟩ := one
  obtain ⟨⟨m, second⟩, fixed'⟩ := two
  rw [← Function.iterate_fixed fixed m, ← first, ← Function.iterate_add_apply, add_comm,
    Function.iterate_add_apply, second, Function.iterate_fixed fixed' n]

end Settles

section Model

/-- What comes after the lines: bc has ended, or it waits for more of its input. -/
inductive Ending where
  | eof
  | silent
  deriving DecidableEq, Repr

/-- What is being done. -/
inductive State where
  | reading (lines : List Text) (buffer : Text) (results : ℕ)
  /-- `exception_and_flush`. -/
  | flushing (lines : List Text) (error : EvalError)
  | done (answer : Except EvalError Text) (left : List Text)
  /-- A message without a colon is used. -/
  | crashed
  deriving DecidableEq

/-- An error, whose message is looked for behind a colon. -/
def complain (line : Text) (lines : List Text) (error : EvalError) : State :=
  if 58 ∈ line then .flushing lines error else .crashed

/-- One turn of the loops. At the end of the output the first one ends; the second one compares the
line that it has not got with the cookie, and goes on. While bc is silent the reading of a line goes
on. -/
def step (ending : Ending) : State → State
  | .reading [] buffer results =>
    match ending with
    | .eof => .done (finish buffer results) []
    | .silent => .reading [] buffer results
  | .reading (line :: lines) buffer results =>
    match readLine buffer results line with
    | .cookie => .done (finish buffer results) lines
    | .error error => complain line lines error
    | .goesOn buffer results => .reading lines buffer results
  | .flushing [] error => .flushing [] error
  | .flushing (line :: lines) error =>
    if line = evalCookie then .done (.error error) lines else .flushing lines error
  | .done answer left => .done answer left
  | .crashed => .crashed

/-- Where the second loop comes to rest. -/
def flushed (error : EvalError) : List Text → State
  | [] => .flushing [] error
  | line :: lines => if line = evalCookie then .done (.error error) lines else flushed error lines

/-- Where it comes to rest after an error. -/
def complained (line : Text) (lines : List Text) (error : EvalError) : State :=
  if 58 ∈ line then flushed error lines else .crashed

/-- Where the first loop comes to rest. -/
def outcome (ending : Ending) : Text → ℕ → List Text → State
  | buffer, results, [] =>
    match ending with
    | .eof => .done (finish buffer results) []
    | .silent => .reading [] buffer results
  | buffer, results, line :: lines =>
    match readLine buffer results line with
    | .cookie => .done (finish buffer results) lines
    | .error error => complained line lines error
    | .goesOn buffer results => outcome ending buffer results lines

/-- **There is a result or an error**, and nothing of the output is left over. -/
def Answers (ending : Ending) (lines : List Text) : Prop :=
  ∃ answer, Settles (step ending) (.reading lines [] 0) (.done answer [])

/-- The first line that is an error has a colon, if it comes before the cookie. -/
def FirstNamed : List Text → Prop
  | [] => True
  | line :: lines => line = evalCookie ∨ if ErrorLine line then 58 ∈ line else FirstNamed lines

/-- The first cookie is the last line. -/
def CookieLast (lines : List Text) : Prop :=
  ∃ before, evalCookie ∉ before ∧ lines = before ++ [evalCookie]

/-- The cookie comes, as the last line, and the first error has a colon; or it does not come, bc has
ended, and there is no error. -/
def Proper (ending : Ending) (lines : List Text) : Prop :=
  (CookieLast lines ∧ FirstNamed lines) ∨
    (ending = .eof ∧ evalCookie ∉ lines ∧ ∀ line ∈ lines, ¬ ErrorLine line)

end Model

section Rest

variable {ending : Ending} {buffer line : Text} {results : ℕ} {lines : List Text} {error : EvalError}

theorem settles_flushed : Settles (step ending) (.flushing lines error) (flushed error lines) := by
  induction lines with
  | nil => exact settles_self rfl
  | cons line lines ih =>
    apply settles_step
    rw [step, flushed]
    split_ifs
    · exact settles_self rfl
    · exact ih

theorem settles_complained :
    Settles (step ending) (complain line lines error) (complained line lines error) := by
  unfold complain complained
  split_ifs
  · exact settles_flushed
  · exact settles_self rfl

/-- **Where the loops come to rest.** -/
theorem settles_outcome :
    Settles (step ending) (.reading lines buffer results) (outcome ending buffer results lines) := by
  induction lines generalizing buffer results with
  | nil =>
    cases ending with
    | eof => exact settles_step (settles_self rfl)
    | silent => exact settles_self rfl
  | cons line lines ih =>
    apply settles_step
    rw [step, outcome]
    cases readLine buffer results line with
    | cookie => exact settles_self rfl
    | error error => exact settles_complained
    | goesOn buffer results => exact ih

theorem answers_iff_outcome : Answers ending lines ↔ ∃ answer, outcome ending [] 0 lines =
    .done answer [] := by
  refine exists_congr fun answer =>
    ⟨fun settles => settles_unique settles_outcome settles, fun same => ?_⟩
  exact same ▸ settles_outcome

theorem cookieLast_cons (other : line ≠ evalCookie) :
    CookieLast (line :: lines) ↔ CookieLast lines := by
  constructor
  · rintro ⟨before, free, split⟩
    cases before with
    | nil => exact absurd (List.cons.inj split).1 other
    | cons first before =>
      exact ⟨before, fun member => free (List.mem_cons_of_mem first member), (List.cons.inj split).2⟩
  · rintro ⟨before, free, rfl⟩
    refine ⟨line :: before, ?_, rfl⟩
    rw [List.mem_cons, not_or]
    exact ⟨Ne.symm other, free⟩

theorem cookieLast_cookie : CookieLast (evalCookie :: lines) ↔ lines = [] := by
  constructor
  · rintro ⟨before, free, split⟩
    cases before with
    | nil => exact (List.cons.inj split).2
    | cons first before => exact absurd ((List.cons.inj split).1 ▸ List.mem_cons_self) free
  · rintro rfl
    exact ⟨[], List.not_mem_nil, rfl⟩

theorem not_cookieLast_nil : ¬ CookieLast [] := by
  rintro ⟨before, -, split⟩
  exact absurd split.symm (List.append_ne_nil_of_right_ne_nil before (List.cons_ne_nil _ _))

/-- The second loop ends, with nothing left over, where the cookie is last. -/
theorem flushed_iff : (∃ answer, flushed error lines = .done answer []) ↔ CookieLast lines := by
  induction lines with
  | nil => exact iff_of_false (fun ⟨_, same⟩ => State.noConfusion same) not_cookieLast_nil
  | cons line lines ih =>
    rw [flushed]
    split_ifs with cookie
    · subst cookie
      rw [cookieLast_cookie]
      constructor
      · rintro ⟨_, same⟩
        exact (State.done.inj same).2
      · rintro rfl
        exact ⟨_, rfl⟩
    · rw [cookieLast_cons cookie, ih]

theorem complained_iff : (∃ answer, complained line lines error = .done answer []) ↔
    58 ∈ line ∧ CookieLast lines := by
  unfold complained
  split_ifs with colon
  · rw [flushed_iff, and_iff_right colon]
  · refine iff_of_false ?_ fun both => colon both.1
    rintro ⟨_, same⟩
    cases same

/-- The condition, after a line that is no error. -/
theorem proper_cons (other : line ≠ evalCookie) (clean : ¬ ErrorLine line) :
    Proper ending (line :: lines) ↔ Proper ending lines := by
  unfold Proper
  rw [cookieLast_cons other, FirstNamed, or_iff_right other, if_neg clean, List.forall_mem_cons,
    and_iff_right clean, List.mem_cons, not_or, and_iff_right (Ne.symm other)]

/-- The condition, after a line that is an error. -/
theorem proper_error (other : line ≠ evalCookie) (bad : ErrorLine line) :
    Proper ending (line :: lines) ↔ 58 ∈ line ∧ CookieLast lines := by
  unfold Proper
  rw [cookieLast_cons other, FirstNamed, or_iff_right other, if_pos bad, and_comm]
  exact or_iff_left fun ended => ended.2.2 line List.mem_cons_self bad

theorem outcome_iff :
    (∃ answer, outcome ending buffer results lines = .done answer []) ↔ Proper ending lines := by
  induction lines generalizing buffer results with
  | nil =>
    unfold outcome Proper
    cases ending with
    | eof =>
      exact iff_of_true ⟨_, rfl⟩
        (.inr ⟨rfl, List.not_mem_nil, fun _ member => absurd member List.not_mem_nil⟩)
    | silent =>
      refine iff_of_false (fun ⟨_, same⟩ => State.noConfusion same) ?_
      rintro (⟨last, -⟩ | ⟨ended, -⟩)
      · exact not_cookieLast_nil last
      · cases ended
  | cons line lines ih =>
    by_cases cookie : line = evalCookie
    · subst cookie
      rw [outcome, readLine_cookie]
      unfold Proper
      rw [cookieLast_cookie]
      constructor
      · rintro ⟨_, same⟩
        exact .inl ⟨(State.done.inj same).2, .inl rfl⟩
      · rintro (⟨rfl, -⟩ | ⟨-, free, -⟩)
        · exact ⟨_, rfl⟩
        · exact absurd List.mem_cons_self free
    · rw [outcome]
      by_cases bad : ErrorLine line
      · obtain ⟨error, read⟩ := @readLine_error buffer line results cookie bad
        rw [proper_error cookie bad, read]
        exact complained_iff
      · rw [proper_cons cookie bad, readLine_clean cookie bad]
        split_ifs
        · exact ih
        · exact ih
        · exact ih

/-- **When there is an answer** and nothing is left over. -/
theorem answers_iff (ending : Ending) (lines : List Text) :
    Answers ending lines ↔ Proper ending lines :=
  answers_iff_outcome.trans outcome_iff

/-- With the cookie at the end the loops give what is read of the lines before it. -/
theorem outcome_readLoop (free : evalCookie ∉ lines) (named : FirstNamed lines) :
    outcome ending buffer results (lines ++ [evalCookie]) = .done
      (match readLoop buffer results (lines ++ [evalCookie]) with
        | .error error => .error error
        | .ok (buffer, results) => finish buffer results) [] := by
  have flush : ∀ lines error, evalCookie ∉ lines →
      flushed error (lines ++ [evalCookie]) = .done (.error error) [] := by
    intro lines error free
    induction lines with
    | nil => rfl
    | cons line lines ih =>
      rw [List.mem_cons, not_or] at free
      rw [List.cons_append, flushed, if_neg (Ne.symm free.1)]
      exact ih free.2
  induction lines generalizing buffer results with
  | nil => rw [List.nil_append, outcome, readLine_cookie, readLoop_cookie]
  | cons line lines ih =>
    rw [List.mem_cons, not_or] at free
    have other : line ≠ evalCookie := Ne.symm free.1
    have rest := named.resolve_left other
    rw [List.cons_append, outcome, readLoop]
    by_cases bad : ErrorLine line
    · rw [if_pos bad] at rest
      obtain ⟨error, read⟩ := @readLine_error buffer line results other bad
      rw [read]
      show complained line (lines ++ [evalCookie]) error = _
      rw [complained, if_pos rest, flush lines error free.2]
    · rw [if_neg bad] at rest
      rw [readLine_clean other bad]
      split_ifs
      · exact ih free.2 rest
      · exact ih free.2 rest
      · exact ih free.2 rest

/-- **The loops refine** what is known of an answer that ends with the cookie. -/
theorem settles_evalInternal (free : evalCookie ∉ lines) (named : FirstNamed lines) :
    Settles (step ending) (.reading (lines ++ [evalCookie]) [] 0) (.done (evalInternal lines) []) := by
  have same : outcome ending [] 0 (lines ++ [evalCookie]) = .done (evalInternal lines) [] :=
    outcome_readLoop free named
  exact same ▸ settles_outcome

/-- What bc says before it ends. -/
def negativeRoot : Text :=
  ascii "Runtime error (func=(main), adr=3): Square root of a negative number\n"

/-- **An error, and then the end of bc**: the second loop does not end. -/
theorem error_then_end :
    (∀ n, (step .eof)^[n + 1] (.reading [negativeRoot] [] 0) = .flushing [] .runtime) ∧
      ¬ Answers .eof [negativeRoot] := by
  have first : step .eof (.reading [negativeRoot] [] 0) = .flushing [] .runtime := by decide +kernel
  have fixed : step .eof (.flushing [] .runtime) = .flushing [] .runtime := rfl
  constructor
  · intro n
    rw [Function.iterate_succ_apply, first, Function.iterate_fixed fixed]
  · rintro ⟨answer, settles⟩
    have same := settles_unique settles (settles_step (first ▸ settles_self fixed))
    cases same

end Rest

end Gebr.Validator.BcReading
