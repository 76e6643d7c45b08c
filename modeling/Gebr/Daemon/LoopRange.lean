/-
**The values that the generated loop runs through.**

For a parallelizable loop flow `job_assembly_cmdline` writes a loop over batches, each a subshell
that starts the command in the background for the values of its batch and waits for them. The lines
of the expressions and of the string variables, and the tests that empty the output files, stand
inside the inner loop. So what they do to the variables of the shell meets the loop's own:
`counter`, which has a name that a dictionary may use too, and `exec`, which stands in front of each
binary.

* `jobLoop`: the loop, as the shell reads it; `prelude`: the lines before the command.
* `Covers`: the flow's command was started once for each value, and no other one in its place, no
  more often than the number of processes between two waits.
* `LeavesLoop`: at each turn the lines before the command leave the counter and the test of the next
  turn as they are, and `exec` so that it still starts the command; `leavesLoop_of_plain`.
* `meetsRange_iff` — **the loop covers its range, for every number of steps and of processes, just
  when the lines before the command leave the loop**.
* `counter_overwritten`: a loop that does not cover its range.
-/

import Gebr.Geoxml.CanonizeDict
import Gebr.Lib.Numerals
import Gebr.Lib.Shell

namespace Gebr.Daemon.LoopRange

open Gebr.Geoxml (Text)
open Gebr.Geoxml.Canonize (gebrExprIsNameValid)
open Gebr.Lib.CString (ascii strtol)
open Gebr.Lib.Numerals (printInt)
open Gebr.Lib.Shell

section Model

/-- The variables of the shell: the numbers that the loops read, the text in front of the binaries,
and the other ones. -/
@[ext] structure LoopVars where
  proc : ℤ
  outter : ℤ
  counter : ℤ
  exec : Text
  others : Text → Text

/-- What the script sets off: a command line put in the background, with the counter it finds and
whether it is the flow's own command, and the wait for all of them. -/
inductive Event where
  | start (counter : ℤ) (own : Bool)
  | wait
  deriving DecidableEq, Repr

/-- The arithmetic of the shell is that of 64 bits with a sign. -/
def arith (x : ℤ) : ℤ := Int.bmod x (2 ^ 64)

/-- Lines of the script, by what they do to the variables, and nothing where they fail or do not
end. Of what they set off only the commands of the flow and the waits are events. -/
abbrev Line : Type := LoopVars → Option (List Event × LoopVars)

def Line.andThen (first second : Line) : Line := fun vars =>
  (first vars).bind fun one => (second one.2).map fun two => (one.1 ++ two.1, two.2)

/-- A string variable of the dictionaries. `expand` is what the shell makes of the quoted value:
what its expansions set off and change (`$((counter=0))`, `${x:=0}`), and its text. There is no text
where a quote in the value ends the word; the variables are then those after the whole line. -/
structure StringVariable where
  keyword : Text
  valid : gebrExprIsNameValid keyword = true
  expand : LoopVars → Option (List Event × LoopVars × Option Text)

/-- A parallelizable loop flow. `exprBuf` are the lines of the expressions, `tests` those that empty
the output files at the counter zero. `command` is whether the line of the command starts the
programs, with a text for `$exec` (which is not read for programs that MPI starts): `nice` does. -/
structure Flow where
  niceness : ℤ
  exprBuf : Line
  strings : List StringVariable
  tests : Line
  command : Text → Bool
  niced : command (ascii "nice -n " ++ printInt niceness) = true

-- What the arithmetic of the shell reads in a text; nothing, where that is an error.
variable (number : Text → LoopVars → Option ℤ)

/-- `name=text`. -/
def setVariable (name text : Text) (vars : LoopVars) : Option LoopVars :=
  if name = ascii "counter" then (number text vars).map fun value => { vars with counter := value }
  else if name = ascii "_outter" then (number text vars).map fun value => { vars with outter := value }
  else if name = ascii "PROC" then (number text vars).map fun value => { vars with proc := value }
  else if name = ascii "exec" then some { vars with exec := text }
  else some { vars with others := Function.update vars.others name text }

/-- `%s="%s"` of `define_bc_variables`. -/
def StringVariable.assign (var : StringVariable) : Line := fun vars =>
  (var.expand vars).bind fun (events, after, text) =>
    match text with
    | none => some (events, after)
    | some text => (setVariable number var.keyword text after).map fun final => (events, final)

/-- The lines of `str_buf`. -/
def strBuf : List StringVariable → Line
  | [] => fun vars => some ([], vars)
  | var :: strings => (var.assign number).andThen (strBuf strings)

variable (flow : Flow)

/-- The lines before the command. -/
def prelude : Line := flow.exprBuf.andThen ((strBuf number flow.strings).andThen flow.tests)

/-- `$exec binary …` in `( … ) &`. -/
def commandLine (vars : LoopVars) : Event := .start vars.counter (flow.command vars.exec)

/-- `counter=$_outter; counter < $_outter+$PROC && counter < n; counter++`. -/
def innerLoop (n : ℤ) : Script LoopVars Event :=
  .loop (fun vars => vars.counter < arith (vars.outter + vars.proc) && vars.counter < n)
    (fun vars => { vars with counter := arith (vars.counter + 1) })
    (.seq (.line (prelude number flow)) (.emit (commandLine flow)))

/-- `(for ((…)) do … done; wait)`: one batch. -/
def batch (n : ℤ) : Script LoopVars Event :=
  .subshell (.seq (.seq (.act fun vars => { vars with counter := vars.outter })
    (innerLoop number flow n)) (.emit fun _ => .wait))

/-- `_outter < n; _outter+=$PROC`, over the batches. -/
def outerLoop (n : ℤ) : Script LoopVars Event :=
  .loop (fun vars => vars.outter < n)
    (fun vars => { vars with outter := arith (vars.outter + vars.proc) }) (batch number flow n)

/-- The other variables, after `NICE`. -/
def withNice (others : Text → Text) : Text → Text :=
  Function.update others (ascii "NICE") (printInt flow.niceness)

/-- `exec="nice -n $NICE"`. -/
def niceText : Text := ascii "nice -n " ++ printInt flow.niceness

/-- The loop that `job_assembly_cmdline` writes for a parallelizable flow: `PROC`, `NICE` and `exec`
are set before it. -/
def jobLoop (n nprocs : ℤ) : Script LoopVars Event :=
  .seq (.act fun vars => { vars with proc := nprocs })
    (.seq (.act fun vars => { vars with others := withNice flow vars.others, exec := niceText flow })
      (.seq (.act fun vars => { vars with outter := 0 }) (outerLoop number flow n)))

end Model

section Statement

/-- The commands in the background, by the counter and whether each is the flow's own. -/
def starts (events : List Event) : List (ℤ × Bool) :=
  events.filterMap fun event =>
    match event with
    | .start counter own => some (counter, own)
    | .wait => none

/-- The most commands that are started between two waits, `running` of them before the events. -/
def peak : ℕ → List Event → ℕ
  | running, [] => running
  | running, .start _ _ :: events => peak (running + 1) events
  | running, .wait :: events => max running (peak 0 events)

/-- The flow's own command, started for a value. -/
def ownStart (value : ℕ) : ℤ × Bool := (value, true)

/-- The flow's command was started once for each value below `n` and for no other, and nothing in
its place, never more than `p` times between two waits. -/
structure Covers (n p : ℕ) (events : List Event) : Prop where
  once : (starts events).Perm ((List.range n).map ownStart)
  few : peak 0 events ≤ p

variable (number : Text → LoopVars → Option ℤ) (flow : Flow)

/-- The loop of a flow ends and covers its range, for every number of steps and of processes that an
`int` holds. -/
def MeetsRange : Prop :=
  ∀ n p : ℕ, n < 2 ^ 31 → 1 ≤ p → p < 2 ^ 31 → ∀ vars, ∃ events final,
    Runs (jobLoop number flow n p) vars events final ∧ Covers n p events

/-- The variables after a turn. -/
def nextTurn (vars : LoopVars) : LoopVars :=
  match prelude number flow vars with
  | some (_, after) => { after with counter := arith (after.counter + 1) }
  | none => vars

/-- The variables before the turn `i` of the batch `k`. -/
def atTurn (others : Text → Text) (p k i : ℕ) : LoopVars :=
  (nextTurn number flow)^[i] ⟨p, (k * p : ℕ), (k * p : ℕ), niceText flow, withNice flow others⟩

/-- At the turn `i` of the batch `k`, the lines before the command end, start no command of their
own, leave the counter, and leave `exec` so that it starts the command. -/
def LeavesTurn (others : Text → Text) (p k i : ℕ) : Prop :=
  ∃ events after, prelude number flow (atTurn number flow others p k i) = some (events, after) ∧
    starts events = [] ∧ after.counter = (k * p + i : ℕ) ∧ flow.command after.exec = true

/-- After it, the next value is within the batch just when the batch has one more. -/
def LeavesTest (others : Text → Text) (p k i : ℕ) : Prop :=
  ((k * p + i + 1 : ℕ) : ℤ) < arith ((atTurn number flow others p k (i + 1)).outter +
    (atTurn number flow others p k (i + 1)).proc) ↔ i + 1 < p

/-- **The lines before the command leave the loop**, at the turn of each value that an `int`
holds. -/
structure LeavesLoop : Prop where
  turn : ∀ others p k i, i < p → p < 2 ^ 31 → k * p + i + 1 < 2 ^ 31 →
    LeavesTurn number flow others p k i
  test : ∀ others p k i, i < p → p < 2 ^ 31 → k * p + i + 2 < 2 ^ 31 →
    LeavesTest number flow others p k i

end Statement

section Lines

variable {number : Text → LoopVars → Option ℤ} {flow : Flow}

theorem arith_of_small {x : ℤ} (low : -2 ^ 63 ≤ x) (high : x < 2 ^ 63) : arith x = x := by
  unfold arith
  rw [Int.bmod_def]
  split <;> omega

@[simp] theorem starts_nil : starts [] = [] := rfl

@[simp] theorem starts_append (events others : List Event) :
    starts (events ++ others) = starts events ++ starts others := List.filterMap_append

@[simp] theorem starts_cons_start (counter : ℤ) (own : Bool) (events : List Event) :
    starts (.start counter own :: events) = (counter, own) :: starts events := rfl

@[simp] theorem starts_cons_wait (events : List Event) : starts (.wait :: events) = starts events :=
  rfl

@[simp] theorem starts_commandLine (vars : LoopVars) (events : List Event) :
    starts (commandLine flow vars :: events) = (vars.counter, flow.command vars.exec) ::
    starts events :=
  rfl

/-- The line ends, starts no command of the flow, and leaves what the loops read and `exec`. -/
def Line.Keeps (line : Line) : Prop :=
  ∀ vars, ∃ events others, line vars = some (events, { vars with others := others }) ∧
    starts events = []

theorem Line.Keeps.andThen {first second : Line} (one : first.Keeps) (two : second.Keeps) :
    (first.andThen second).Keeps := by
  intro vars
  obtain ⟨before, others, ran, quiet⟩ := one vars
  obtain ⟨after, final, ran', quiet'⟩ := two { vars with others := others }
  refine ⟨before ++ after, final, ?_, ?_⟩
  · unfold Line.andThen
    rw [ran, Option.bind_some, ran']
    rfl
  · rw [starts_append, quiet, quiet', List.append_nil]

/-- A string variable of another name, whose value is one word without effects on the loop. -/
structure StringVariable.Plain (var : StringVariable) : Prop where
  counter : var.keyword ≠ ascii "counter"
  exec : var.keyword ≠ ascii "exec"
  word : ∀ vars, ∃ events others text,
    var.expand vars = some (events, { vars with others := others }, some text) ∧ starts events = []

/-- The other two variables of the loops have names that no dictionary can use. -/
theorem StringVariable.keyword_ne (var : StringVariable) :
    var.keyword ≠ ascii "_outter" ∧ var.keyword ≠ ascii "PROC" := by
  constructor
  all_goals
    intro same
    have valid := var.valid
    rw [same] at valid
    exact absurd valid (by decide)

theorem StringVariable.Plain.keeps {var : StringVariable} (plain : var.Plain) :
    (var.assign number).Keeps := by
  intro vars
  obtain ⟨events, others, text, expands, quiet⟩ := plain.word vars
  refine ⟨events, Function.update others var.keyword text, ?_, quiet⟩
  unfold StringVariable.assign setVariable
  rw [expands, Option.bind_some]
  dsimp only
  rw [if_neg plain.counter, if_neg var.keyword_ne.1, if_neg var.keyword_ne.2, if_neg plain.exec]
  rfl

theorem strBuf_keeps {strings : List StringVariable} (plain : ∀ var ∈ strings, var.Plain) :
    (strBuf number strings).Keeps := by
  induction strings with
  | nil => exact fun vars => ⟨[], vars.others, rfl, rfl⟩
  | cons var strings ih =>
    have rest := ih fun other member => plain other (List.mem_cons_of_mem _ member)
    exact (plain var List.mem_cons_self).keeps.andThen rest

/-- Where the lines keep what the loops read, the turns of a batch count its values. -/
theorem atTurn_of_keeps (keeps : (prelude number flow).Keeps) (others : Text → Text) {p k i : ℕ}
    (small : k * p + i < 2 ^ 31) : ∃ rest,
      atTurn number flow others p k i = ⟨p, (k * p : ℕ), (k * p + i : ℕ), niceText flow, rest⟩ := by
  induction i with
  | zero => exact ⟨_, rfl⟩
  | succ i ih =>
    obtain ⟨rest, here⟩ := ih (by omega)
    obtain ⟨events, after, ran, -⟩ := keeps (atTurn number flow others p k i)
    refine ⟨after, ?_⟩
    rw [atTurn, Function.iterate_succ_apply', ← atTurn, nextTurn, ran, here]
    have counts : arith (((k * p + i : ℕ) : ℤ) + 1) = ((k * p + (i + 1) : ℕ) : ℤ) :=
      (arith_of_small (by omega) (by omega)).trans (Int.natCast_succ _).symm
    dsimp only
    rw [counts]

/-- **Plain strings leave the loop**, where the lines of the expressions and the tests do. -/
theorem leavesLoop_of_plain (expressions : flow.exprBuf.Keeps) (tests : flow.tests.Keeps)
    (plain : ∀ var ∈ flow.strings, var.Plain) : LeavesLoop number flow := by
  have keeps : (prelude number flow).Keeps := expressions.andThen ((strBuf_keeps plain).andThen tests)
  constructor
  · intro others p k i _ _ small
    obtain ⟨rest, here⟩ := atTurn_of_keeps keeps others (show k * p + i < 2 ^ 31 by omega)
    obtain ⟨events, after, ran, quiet⟩ := keeps (atTurn number flow others p k i)
    refine ⟨events, _, ran, quiet, ?_, ?_⟩
    · rw [here]
    · rw [here]
      exact flow.niced
  · intro others p k i _ few small
    obtain ⟨rest, there⟩ := atTurn_of_keeps keeps others (show k * p + (i + 1) < 2 ^ 31 by omega)
    have sum : arith ((k * p : ℕ) + (p : ℕ)) = (k * p : ℕ) + (p : ℕ) :=
      arith_of_small (by omega) (by omega)
    rw [LeavesTest, there, sum]
    omega

end Lines

section Traces

theorem starts_length_of_perm {n : ℕ} {events : List Event}
    (once : (starts events).Perm ((List.range n).map ownStart)) : (starts events).length = n := by
  rw [once.length_eq, List.length_map, List.length_range]

theorem peak_append_wait (running : ℕ) (events after : List Event) :
    peak running (events ++ .wait :: after) ≤ max (running + (starts events).length)
    (peak 0 after) := by
  induction events generalizing running with
  | nil => exact le_rfl
  | cons event events ih =>
    cases event with
    | start counter own =>
      have later := ih (running + 1)
      rw [starts_cons_start, List.length_cons, List.cons_append, peak]
      omega
    | wait =>
      have later := ih 0
      rw [starts_cons_wait, List.cons_append, peak]
      omega

variable {p : ℕ} {inner : ℕ → List Event}

/-- The batches, each with its wait. -/
def withWaits (inner : ℕ → List Event) (count : ℕ) : List Event :=
  (List.range count).flatMap fun k => inner k ++ [.wait]

/-- No batch starts more commands than there are processes. -/
theorem peak_withWaits {count : ℕ} (few : ∀ k < count, (starts (inner k)).length ≤ p) :
    peak 0 (withWaits inner count) ≤ p := by
  have walk : ∀ batches : List ℕ, (∀ k ∈ batches, (starts (inner k)).length ≤ p) →
      peak 0 (batches.flatMap fun k => inner k ++ [.wait]) ≤ p := by
    intro batches few
    induction batches with
    | nil => exact Nat.zero_le p
    | cons k batches ih =>
      have here := peak_append_wait 0 (inner k) (batches.flatMap fun k => inner k ++ [.wait])
      have bound := few k List.mem_cons_self
      have later := ih fun k member => few k (List.mem_cons_of_mem _ member)
      rw [List.flatMap_cons, List.append_assoc, List.singleton_append]
      omega
  exact walk _ fun k member => few k (List.mem_range.1 member)

/-- The batches up to a value start all values below it. -/
theorem starts_withWaits {n count : ℕ} (within : ∀ k < count, k * p < n)
    (each : ∀ k < count, starts (inner k) =
      (List.range' (k * p) (min p (n - k * p))).map ownStart) :
    starts (withWaits inner count) = (List.range (min n (count * p))).map ownStart := by
  induction count with
  | zero => simp [withWaits]
  | succ count ih =>
    have here := within count (Nat.lt_succ_self count)
    have before := ih (fun k less => within k (Nat.lt_succ_of_lt less))
      fun k less => each k (Nat.lt_succ_of_lt less)
    have joined : List.range (min n ((count + 1) * p)) =
        List.range (count * p) ++ List.range' (count * p) (min p (n - count * p)) := by
      rw [List.range_eq_range', List.range_eq_range', Nat.succ_mul]
      have lengths : min n (count * p + p) = count * p + min p (n - count * p) := by omega
      rw [lengths, ← List.range'_append]
      simp
    rw [Nat.min_eq_right here.le, withWaits] at before
    rw [withWaits, List.range_succ, List.flatMap_append, starts_append, before, joined,
      List.map_append]
    simp [each count (Nat.lt_succ_self count)]

/-- The events of turns that start one command each. -/
theorem starts_flatMap {turns : ℕ → List Event} {first count : ℕ}
    (each : ∀ i < count, starts (turns i) = [ownStart (first + i)]) :
    starts ((List.range count).flatMap turns) = (List.range' first count).map ownStart := by
  induction count with
  | zero => rfl
  | succ count ih =>
    rw [List.range_succ, List.flatMap_append, starts_append,
      ih fun i less => each i (Nat.lt_succ_of_lt less), List.range'_concat, List.map_append]
    simp [each count (Nat.lt_succ_self count)]

end Traces

section Batches

variable (number : Text → LoopVars → Option ℤ) (flow : Flow) (others : Text → Text)

/-- The events of the turn `i` of the batch `k`. -/
def turnEvents (p k i : ℕ) : List Event :=
  match prelude number flow (atTurn number flow others p k i) with
  | some (events, after) => events ++ [commandLine flow after]
  | none => []

/-- The events of the batch `k` up to its wait. -/
def innerEvents (n p k : ℕ) : List Event :=
  (List.range (min p (n - k * p))).flatMap (turnEvents number flow others p k)

/-- The variables of the script before the batch `k`. -/
def beforeBatch (p k : ℕ) (counter : ℤ) : LoopVars :=
  ⟨p, (k * p : ℕ), counter, niceText flow, withNice flow others⟩

/-- In the batch `k` of `n` values the lines before the command leave the loop. -/
structure LeavesBatch (n p k : ℕ) : Prop where
  turn : ∀ i < p, k * p + i < n → LeavesTurn number flow others p k i
  test : ∀ i < p, k * p + i + 1 < n → LeavesTest number flow others p k i

variable {number flow others} {n p k i : ℕ} {vars final : LoopVars} {events : List Event}

theorem runs_body :
    Runs (.seq (.line (prelude number flow)) (.emit (commandLine flow))) vars events final ↔
      ∃ before, prelude number flow vars = some (before, final) ∧
        events = before ++ [commandLine flow final] := by
  rw [runs_seq]
  constructor
  · rintro ⟨before, middle, after, lines, command, rfl⟩
    obtain ⟨rfl, rfl⟩ := runs_emit.1 command
    exact ⟨before, runs_line.1 lines, rfl⟩
  · rintro ⟨before, ran, rfl⟩
    exact ⟨before, final, _, .line ran, runs_emit.2 ⟨rfl, rfl⟩, rfl⟩

theorem atTurn_succ {after : LoopVars}
    (ran : prelude number flow (atTurn number flow others p k i) = some (events, after)) :
    atTurn number flow others p k (i + 1) = { after with counter := arith (after.counter + 1) } := by
  rw [atTurn, Function.iterate_succ_apply', ← atTurn, nextTurn, ran]

/-- A turn that leaves the loop starts the command once, for its value. -/
theorem starts_turn (leaves : LeavesTurn number flow others p k i) :
    starts (turnEvents number flow others p k i) = [ownStart (k * p + i)] := by
  obtain ⟨events, after, ran, quiet, counter, own⟩ := leaves
  rw [turnEvents, ran]
  dsimp only
  rw [starts_append, quiet, starts_commandLine, counter, own]
  rfl

theorem counter_atTurn (small : k * p + i < 2 ^ 31)
    (turns : ∀ j < i, LeavesTurn number flow others p k j) :
    (atTurn number flow others p k i).counter = (k * p + i : ℕ) := by
  cases i with
  | zero => rfl
  | succ i =>
    obtain ⟨events, after, ran, -, counter, -⟩ := turns i (Nat.lt_succ_self i)
    rw [atTurn_succ ran]
    dsimp only
    rw [counter]
    exact (arith_of_small (by omega) (by omega)).trans (Int.natCast_succ _).symm

theorem goes_atTurn (few : p < 2 ^ 31) (inside : i < p) (small : k * p + i < 2 ^ 31)
    (turns : ∀ j < i, LeavesTurn number flow others p k j)
    (test : ∀ j, j + 1 = i → LeavesTest number flow others p k j) :
    (atTurn number flow others p k i).counter <
      arith ((atTurn number flow others p k i).outter + (atTurn number flow others p k i).proc) := by
  rw [counter_atTurn small turns]
  cases i with
  | zero =>
    show ((k * p + 0 : ℕ) : ℤ) < arith ((k * p : ℕ) + (p : ℕ))
    rw [arith_of_small (by omega) (by omega)]
    omega
  | succ i => exact (test i rfl).2 inside

/-- A turn of the loop over the values of a batch. -/
theorem innerLoop_turn (below : vars.counter < arith (vars.outter + vars.proc))
    (within : vars.counter < n) :
    Runs (innerLoop number flow n) vars events final ↔ ∃ before after rest,
      prelude number flow vars = some (before, after) ∧
        Runs (innerLoop number flow n) { after with counter := arith (after.counter + 1) } rest final ∧
          events = before ++ commandLine flow after :: rest := by
  have goes : (decide (vars.counter < arith (vars.outter + vars.proc)) &&
      decide (vars.counter < (n : ℤ))) = true := by
    rw [Bool.and_eq_true]
    exact ⟨decide_eq_true below, decide_eq_true within⟩
  refine (runs_loop_of (by exact goes)).trans ⟨?_, ?_⟩
  · rintro ⟨turn, after, rest, body, later, rfl⟩
    obtain ⟨before, ran, rfl⟩ := runs_body.1 body
    exact ⟨before, after, rest, ran, later, List.append_assoc _ _ _⟩
  · rintro ⟨before, after, rest, ran, later, rfl⟩
    exact ⟨_, after, rest, runs_body.2 ⟨before, ran, rfl⟩, later, List.append_cons _ _ _⟩

/-- The loop over the values of a batch ends where its test fails. -/
theorem innerLoop_done
    (stops : ¬ (vars.counter < arith (vars.outter + vars.proc) ∧ vars.counter < (n : ℤ))) :
    Runs (innerLoop number flow n) vars events final ↔ events = [] ∧ final = vars := by
  have fails : (decide (vars.counter < arith (vars.outter + vars.proc)) &&
      decide (vars.counter < (n : ℤ))) = false := by
    rw [Bool.and_eq_false_iff, decide_eq_false_iff_not, decide_eq_false_iff_not]
    exact not_and_or.1 stops
  exact runs_loop_of_not (by exact fails)

theorem outerLoop_turn (within : vars.outter < n) :
    Runs (outerLoop number flow n) vars events final ↔ ∃ inner values after,
      Runs (innerLoop number flow n) { vars with counter := vars.outter } values inner ∧
        Runs (outerLoop number flow n) { vars with outter := arith (vars.outter + vars.proc) } after
          final ∧ events = values ++ [.wait] ++ after := by
  refine (runs_loop_of (by exact decide_eq_true within)).trans ⟨?_, ?_⟩
  · rintro ⟨turn, middle, after, inside, later, rfl⟩
    obtain ⟨⟨inner, body⟩, rfl⟩ := runs_subshell.1 inside
    obtain ⟨values, ended, waits, loop, wait, rfl⟩ := runs_seq.1 body
    obtain ⟨rfl, rfl⟩ := runs_emit.1 wait
    exact ⟨_, values, after, runs_act_seq.1 loop, later, rfl⟩
  · rintro ⟨inner, values, after, loop, later, rfl⟩
    refine ⟨_, vars, after, runs_subshell.2 ⟨⟨inner, runs_seq.2 ?_⟩, rfl⟩, later, rfl⟩
    exact ⟨values, inner, _, runs_act_seq.2 loop, runs_emit.2 ⟨rfl, rfl⟩, rfl⟩

/-- The first turns of a batch start its first values. -/
theorem innerLoop_unroll {count : ℕ} (small : n < 2 ^ 31) (few : p < 2 ^ 31) (inside : count ≤ p)
    (within : k * p + count ≤ n) (turns : ∀ j < count, LeavesTurn number flow others p k j)
    (tests : ∀ j, j + 1 < count → LeavesTest number flow others p k j) :
    Runs (innerLoop number flow n) (atTurn number flow others p k 0) events final ↔ ∃ rest,
      Runs (innerLoop number flow n) (atTurn number flow others p k count) rest final ∧
        events = (List.range count).flatMap (turnEvents number flow others p k) ++ rest := by
  refine runs_loop_unroll (atTurn number flow others p k) _ fun i less => ⟨?_, ?_⟩
  · have earlier : ∀ j < i, LeavesTurn number flow others p k j := fun j before =>
      turns j (before.trans less)
    have goes := goes_atTurn few (less.trans_le inside) (show k * p + i < 2 ^ 31 by omega) earlier
      fun j next => tests j (next ▸ less)
    have counter := counter_atTurn (show k * p + i < 2 ^ 31 by omega) earlier
    rw [Bool.and_eq_true, decide_eq_true_iff, decide_eq_true_iff]
    refine ⟨goes, ?_⟩
    rw [counter]
    omega
  · obtain ⟨before, after, ran, -⟩ := turns i less
    refine ⟨after, runs_body.2 ⟨before, ran, ?_⟩, (atTurn_succ ran).symm⟩
    rw [turnEvents, ran]

/-- **A batch** starts each of its values once, and waits. -/
theorem batch_runs (small : n < 2 ^ 31) (some_proc : 1 ≤ p) (few : p < 2 ^ 31) (within : k * p < n)
    (leaves : LeavesBatch number flow others n p k) (counter : ℤ) :
    Runs (batch number flow n) (beforeBatch flow others p k counter)
      (innerEvents number flow others n p k ++ [.wait]) (beforeBatch flow others p k counter) := by
  obtain ⟨count, size⟩ : ∃ count, count = min p (n - k * p) := ⟨_, rfl⟩
  have turns : ∀ j < count, LeavesTurn number flow others p k j := fun j less =>
    leaves.turn j (by omega) (by omega)
  have ends : ¬ ((atTurn number flow others p k count).counter <
      arith ((atTurn number flow others p k count).outter +
        (atTurn number flow others p k count).proc) ∧
            (atTurn number flow others p k count).counter < (n : ℤ)) := by
    rw [counter_atTurn (by omega) turns]
    rintro ⟨goes, more⟩
    -- a value is left, so that the batch is full
    have full : count = p := by omega
    obtain ⟨last, here⟩ := Nat.exists_eq_add_of_le' (show 1 ≤ count by omega)
    rw [here] at goes more
    have next := (leaves.test last (by omega) (by omega)).1 goes
    omega
  have inner := (innerLoop_unroll small few (by omega) (by omega) turns
    fun j next => leaves.test j (by omega) (by omega)).2
      ⟨[], (innerLoop_done ends).2 ⟨rfl, rfl⟩, rfl⟩
  rw [List.append_nil, size] at inner
  exact .subshell (.seq (runs_act_seq.2 inner) (runs_emit.2 ⟨rfl, rfl⟩))

theorem starts_innerEvents (leaves : LeavesBatch number flow others n p k) :
    starts (innerEvents number flow others n p k) =
      (List.range' (k * p) (min p (n - k * p))).map ownStart :=
  starts_flatMap fun i less => starts_turn (leaves.turn i (by omega) (by omega))

theorem outerLoop_unroll {count : ℕ} (small : n < 2 ^ 31) (some_proc : 1 ≤ p) (few : p < 2 ^ 31)
    (leaves : ∀ k < count, k * p < n ∧ LeavesBatch number flow others n p k) (counter : ℤ) :
    Runs (outerLoop number flow n) (beforeBatch flow others p 0 counter) events final ↔ ∃ rest,
      Runs (outerLoop number flow n) (beforeBatch flow others p count counter) rest final ∧
        events = withWaits (innerEvents number flow others n p) count ++ rest := by
  refine runs_loop_unroll (fun k => beforeBatch flow others p k counter) _
    fun k less => ⟨?_, beforeBatch flow others p k counter, ?_, ?_⟩
  · exact decide_eq_true (Int.ofNat_lt.2 (leaves k less).1)
  · exact batch_runs small some_proc few (leaves k less).1 (leaves k less).2 counter
  · have next : arith ((k * p : ℕ) + (p : ℕ)) = ((k + 1) * p : ℕ) := by
      have here := (leaves k less).1
      rw [Nat.succ_mul]
      exact (arith_of_small (by omega) (by omega)).trans (Int.natCast_add _ _).symm
    unfold beforeBatch
    dsimp only
    rw [next]

theorem runs_jobLoop : Runs (jobLoop number flow n p) vars events final ↔
    Runs (outerLoop number flow n) (beforeBatch flow vars.others p 0 vars.counter) events final := by
  have zero : (0 : ℤ) = ((0 * p : ℕ) : ℤ) := by
    rw [Nat.zero_mul]
    rfl
  rw [jobLoop, runs_act_seq, runs_act_seq, runs_act_seq, beforeBatch, ← zero]

end Batches

section Range

variable {number : Text → LoopVars → Option ℤ} {flow : Flow} {others : Text → Text} {n p k i : ℕ}

/-- **The loop covers its range** when the lines before the command leave it. -/
theorem meetsRange_of_leaves (leaves : LeavesLoop number flow) : MeetsRange number flow := by
  intro n p small some_proc few vars
  have batches : ∀ k < (n + p - 1) / p, k * p < n ∧ LeavesBatch number flow vars.others n p k := by
    intro k less
    have least := Nat.mul_le_of_le_div _ _ _ (show k + 1 ≤ (n + p - 1) / p from less)
    rw [Nat.succ_mul] at least
    refine ⟨by omega, fun i inside within => ?_, fun i inside within => ?_⟩
    · exact leaves.turn _ p k i inside few (by omega)
    · exact leaves.test _ p k i inside few (by omega)
  have past : n ≤ (n + p - 1) / p * p := by
    have split := Nat.div_add_mod' (n + p - 1) p
    have less := Nat.mod_lt (n + p - 1) some_proc
    omega
  have each := fun k less => starts_innerEvents (batches k less).2
  refine ⟨_, _, runs_jobLoop.2
    ((outerLoop_unroll small some_proc few batches _).2 ⟨[], .done ?_, rfl⟩), ?_, ?_⟩
  · exact decide_eq_false (Int.not_lt.2 (Int.ofNat_le.2 past))
  · rw [List.append_nil, starts_withWaits (fun k less => (batches k less).1) each,
      Nat.min_eq_left past]
  · rw [List.append_nil]
    refine peak_withWaits fun k less => ?_
    rw [each k less, List.length_map, List.length_range']
    exact Nat.min_le_left _ _

/-- **The loop up to a turn**: where the values before it leave the loop, a run comes to the turn
with their commands started. -/
theorem runs_to_turn {counter : ℤ} {final : LoopVars} {events : List Event} (small : n < 2 ^ 31)
    (some_proc : 1 ≤ p) (few : p < 2 ^ 31) (inside : i ≤ p) (within : k * p + i ≤ n)
    (reached : k * p < n) (batches : ∀ j < k, LeavesBatch number flow others n p j)
    (turns : ∀ j < i, LeavesTurn number flow others p k j)
    (tests : ∀ j, j + 1 < i → LeavesTest number flow others p k j)
    (run : Runs (outerLoop number flow n) (beforeBatch flow others p 0 counter) events final) :
    ∃ inner rest after, Runs (innerLoop number flow n) (atTurn number flow others p k i) rest inner ∧
      Runs (outerLoop number flow n) (beforeBatch flow others p (k + 1) counter) after final ∧
        starts events = (List.range (k * p + i)).map ownStart ++ (starts rest ++ starts after) := by
  have before : ∀ j < k, j * p < n ∧ LeavesBatch number flow others n p j := by
    intro j less
    have least := Nat.mul_le_mul_right p less.le
    exact ⟨by omega, batches j less⟩
  obtain ⟨batch, later, rfl⟩ := (outerLoop_unroll small some_proc few before _).1 run
  obtain ⟨inner, values, after, loop, outer, rfl⟩ := (outerLoop_turn (Int.ofNat_lt.2 reached)).1 later
  obtain ⟨rest, turn, rfl⟩ := (innerLoop_unroll small few inside within turns tests).1 loop
  have next : arith ((k * p : ℕ) + (p : ℕ)) = ((k + 1) * p : ℕ) := by
    rw [Nat.succ_mul]
    exact (arith_of_small (by omega) (by omega)).trans (Int.natCast_add _ _).symm
  refine ⟨inner, rest, after, turn, ?_, ?_⟩
  · unfold beforeBatch at outer ⊢
    dsimp only at outer
    rw [next] at outer
    exact outer
  · have started := starts_withWaits (fun j less => (before j less).1)
      fun j less => starts_innerEvents (before j less).2
    rw [Nat.min_eq_right reached.le] at started
    have joined : List.range (k * p + i) = List.range (k * p) ++ List.range' (k * p) i := by
      rw [List.range_eq_range', List.range_eq_range', ← List.range'_append]
      simp
    rw [starts_append, started, starts_append, starts_append, starts_append,
      starts_flatMap fun j less => starts_turn (turns j less), joined, List.map_append]
    simp [List.append_assoc]

/-- **The first value that the lines do not leave** is not started as it should be: the loop of as
many steps shows it. -/
theorem turn_of_meets (meets : MeetsRange number flow) (few : p < 2 ^ 31) (inside : i < p)
    (small : k * p + i + 1 < 2 ^ 31)
    (batches : ∀ j < k, LeavesBatch number flow others (k * p + i + 1) p j)
    (turns : ∀ j < i, LeavesTurn number flow others p k j)
    (tests : ∀ j < i, LeavesTest number flow others p k j) : LeavesTurn number flow others p k i := by
  obtain ⟨events, final, run, covers⟩ := meets _ p small (by omega) few ⟨0, 0, 0, [], others⟩
  obtain ⟨inner, rest, after, loop, -, started⟩ := runs_to_turn small (by omega) few inside.le
    (by omega) (by omega) batches turns (fun j next => tests j (by omega)) (runs_jobLoop.1 run)
  have goes := goes_atTurn few inside (by omega) turns fun j next => tests j (by omega)
  have last : (atTurn number flow others p k i).counter < (k * p + i + 1 : ℕ) := by
    rw [counter_atTurn (by omega) turns]
    omega
  obtain ⟨before, turned, more, ran, -, rfl⟩ := (innerLoop_turn goes last).1 loop
  have once := covers.once
  rw [started, List.range_succ, List.map_append, List.perm_append_left_iff, List.map_singleton,
    List.perm_singleton, starts_append, starts_commandLine, List.append_assoc] at once
  obtain ⟨quiet, same⟩ | ⟨-, none⟩ := List.append_eq_singleton_iff.1 once
  · obtain ⟨counter, own⟩ := Prod.mk.inj (List.cons.inj same).1
    exact ⟨before, turned, ran, quiet, counter, own⟩
  · cases none

/-- **The test after it** fails a loop of one step more. -/
theorem test_of_meets (meets : MeetsRange number flow) (few : p < 2 ^ 31) (inside : i < p)
    (small : k * p + i + 2 < 2 ^ 31)
    (batches : ∀ j < k, LeavesBatch number flow others (k * p + i + 2) p j)
    (turns : ∀ j < i + 1, LeavesTurn number flow others p k j)
    (tests : ∀ j < i, LeavesTest number flow others p k j) : LeavesTest number flow others p k i := by
  obtain ⟨events, final, run, covers⟩ := meets _ p small (by omega) few ⟨0, 0, 0, [], others⟩
  obtain ⟨inner, rest, after, loop, outer, started⟩ := runs_to_turn small (by omega) few inside
    (by omega) (by omega) batches turns (fun j next => tests j (by omega)) (runs_jobLoop.1 run)
  have counter := counter_atTurn (show k * p + (i + 1) < 2 ^ 31 by omega) turns
  have total := starts_length_of_perm covers.once
  rw [started, List.length_append, List.length_append, List.length_map, List.length_range] at total
  have spread : (k + 1) * p = k * p + p := Nat.succ_mul k p
  unfold LeavesTest
  rw [Nat.add_assoc, ← counter]
  constructor
  · intro goes
    by_contra full
    -- the batch goes on past its end, and the next batch starts the value as well
    have last : (atTurn number flow others p k (i + 1)).counter < (k * p + i + 2 : ℕ) := by
      rw [counter]
      omega
    obtain ⟨before, turned, more, -, -, rfl⟩ := (innerLoop_turn goes last).1 loop
    have below : (beforeBatch flow others p (k + 1) 0).outter < (k * p + i + 2 : ℕ) := by
      show (((k + 1) * p : ℕ) : ℤ) < _
      omega
    obtain ⟨_, values, later, again, -, rfl⟩ := (outerLoop_turn below).1 outer
    have first : ((((k + 1) * p : ℕ) : ℤ)) < arith (((k + 1) * p : ℕ) + (p : ℕ)) := by
      rw [arith_of_small (by omega) (by omega)]
      omega
    obtain ⟨_, _, _, -, -, rfl⟩ := (innerLoop_turn (by exact first) (by exact below)).1 again
    simp only [starts_append, starts_commandLine, List.length_append, List.length_cons] at total
    omega
  · intro more
    by_contra stops
    -- the batch ends early, and no other batch has the value
    obtain ⟨rfl, -⟩ := (innerLoop_done fun both => stops both.1).1 loop
    have past : ¬ (beforeBatch flow others p (k + 1) 0).outter < (k * p + i + 2 : ℕ) := by
      show ¬ (((k + 1) * p : ℕ) : ℤ) < _
      omega
    obtain ⟨rfl, -⟩ := (runs_loop_of_not (by exact decide_eq_false past)).1 outer
    simp only [starts_nil, List.length_nil] at total
    omega

/-- **The lines leave the loop** when it covers its range. -/
theorem leavesLoop_of_meets (meets : MeetsRange number flow) : LeavesLoop number flow := by
  -- by induction on the value
  have all : ∀ others p, p < 2 ^ 31 → ∀ value k i, i < p → k * p + i = value →
      (value + 1 < 2 ^ 31 → LeavesTurn number flow others p k i) ∧
        (value + 2 < 2 ^ 31 → LeavesTest number flow others p k i) := by
    intro others p few value
    induction value using Nat.strong_induction_on with
    | h value ih =>
      rintro k i inside rfl
      have batches : ∀ n < 2 ^ 31, ∀ j < k, LeavesBatch number flow others n p j := by
        intro n small j less
        have least := Nat.mul_le_mul_right p (show j + 1 ≤ k from less)
        rw [Nat.succ_mul] at least
        refine ⟨fun l fits within => ?_, fun l fits within => ?_⟩
        · exact (ih (j * p + l) (by omega) j l fits rfl).1 (by omega)
        · exact (ih (j * p + l) (by omega) j l fits rfl).2 (by omega)
      have turns : k * p + i + 1 < 2 ^ 31 → ∀ j < i, LeavesTurn number flow others p k j :=
        fun small j less => (ih (k * p + j) (by omega) k j (by omega) rfl).1 (by omega)
      have tests : k * p + i + 1 < 2 ^ 31 → ∀ j < i, LeavesTest number flow others p k j :=
        fun small j less => (ih (k * p + j) (by omega) k j (by omega) rfl).2 (by omega)
      have turn : k * p + i + 1 < 2 ^ 31 → LeavesTurn number flow others p k i := fun small =>
        turn_of_meets meets few inside small (batches _ (by omega)) (turns small) (tests small)
      refine ⟨turn, fun small => ?_⟩
      refine test_of_meets meets few inside small (batches _ (by omega)) ?_ (tests (by omega))
      intro j less
      obtain earlier | rfl := Nat.lt_succ_iff_lt_or_eq.1 less
      · exact turns (by omega) j earlier
      · exact turn (by omega)
  constructor
  · intro others p k i inside few small
    exact (all others p few _ k i inside rfl).1 small
  · intro others p k i inside few small
    exact (all others p few _ k i inside rfl).2 small

/-- **The generated loop covers its range**: for every number of steps and of processes it ends, has
started the flow's command once for each counter value below the number of steps and for no other,
and never more often than the number of processes between two waits, just when the lines before the
command leave the loop. -/
theorem meetsRange_iff (number : Text → LoopVars → Option ℤ) (flow : Flow) :
    MeetsRange number flow ↔ LeavesLoop number flow :=
  ⟨leavesLoop_of_meets, meetsRange_of_leaves⟩

end Range

section Examples

/-- A number in decimal digits. -/
def readDigits (text : Text) (_ : LoopVars) : Option ℤ := some (strtol text).1

/-- A string variable whose value is a plain text. -/
def plainString (keyword text : Text) (valid : gebrExprIsNameValid keyword = true) : StringVariable :=
  ⟨keyword, valid, fun vars => some ([], vars, some text)⟩

/-- A flow with string variables alone, whose command starts with `nice` in front of it. -/
def stringsFlow (strings : List StringVariable) : Flow where
  niceness := 0
  exprBuf vars := some ([], vars)
  strings := strings
  tests vars := some ([], vars)
  command text := text.take 5 = ascii "nice "
  niced := by decide

/-- **A variable with the name of the counter**: a loop of two steps with one process starts the
command for zero again. -/
theorem counter_overwritten :
    ¬ MeetsRange readDigits (stringsFlow [plainString (ascii "counter") (ascii "0") (by decide)]) := by
  intro meets
  obtain ⟨events, after, ran, -, counter, -⟩ :=
    (leavesLoop_of_meets meets).turn (fun _ => []) 1 1 0 (by decide) (by decide) (by decide)
  have zero : after.counter = 0 := (Prod.mk.inj (Option.some.inj ran)).2 ▸ rfl
  rw [zero] at counter
  cases counter

/-- A variable `exec` puts another command in the place of the flow's. -/
example : ¬ MeetsRange readDigits
    (stringsFlow [plainString (ascii "exec") (ascii "echo") (by decide)]) := by
  intro meets
  obtain ⟨events, after, ran, -, -, own⟩ :=
    (leavesLoop_of_meets meets).turn (fun _ => []) 1 0 0 (by decide) (by decide) (by decide)
  have echo : after.exec = ascii "echo" := (Prod.mk.inj (Option.some.inj ran)).2 ▸ rfl
  rw [echo] at own
  exact absurd own (by decide)

/-- The value `$((counter=0))` of a variable `x`. -/
def counterReset : StringVariable :=
  ⟨ascii "x", by decide, fun vars => some ([], { vars with counter := 0 }, some (ascii "0"))⟩

example : ¬ MeetsRange readDigits (stringsFlow [counterReset]) := by
  intro meets
  obtain ⟨events, after, ran, -, counter, -⟩ :=
    (leavesLoop_of_meets meets).turn (fun _ => []) 1 1 0 (by decide) (by decide) (by decide)
  have zero : after.counter = 0 := (Prod.mk.inj (Option.some.inj ran)).2 ▸ rfl
  rw [zero] at counter
  cases counter

end Examples

end Gebr.Daemon.LoopRange
