/-
**Scripts of a shell, and the events that their runs set off.**

A script changes the variables of a shell and sets off events; a subshell has its own copy of the
variables. A run ends: a script that fails on the way, or a loop that goes on for ever, has none.

* `Script`, `Runs`: the scripts, and their runs with the events in order.
* `runs_line`, `runs_act`, `runs_emit`, `runs_seq`, `runs_subshell`, `runs_loop_of_not`,
  `runs_loop_of`: the runs of each kind of script.
* `Runs.unique`: a script has no more than one run from a state.
* `runs_loop_unroll` — **the first turns of a loop**, once they are known, can be left out.
-/

import Mathlib.Data.List.Basic

namespace Gebr.Lib.Shell

/-- A script over the variables `σ` that sets off the events `ε`. -/
inductive Script (σ ε : Type*) where
  /-- A line, by its events and the variables after it; nothing where it fails or does not end. -/
  | line (run : σ → Option (List ε × σ))
  | seq (first second : Script σ ε)
  | subshell (body : Script σ ε)
  | loop (cond : σ → Bool) (next : σ → σ) (body : Script σ ε)

variable {σ ε : Type*}

/-- A line that only changes the variables. -/
def Script.act (change : σ → σ) : Script σ ε := .line fun state => some ([], change state)

/-- A line that only sets off an event. -/
def Script.emit (event : σ → ε) : Script σ ε := .line fun state => some ([event state], state)

/-- The run of a script from a state: its events, and the state after it. -/
inductive Runs : Script σ ε → σ → List ε → σ → Prop where
  | line {run : σ → Option (List ε × σ)} {state final : σ} {events : List ε} :
      run state = some (events, final) → Runs (.line run) state events final
  | seq {first second : Script σ ε} {state middle final : σ} {before after : List ε} :
      Runs first state before middle → Runs second middle after final →
        Runs (.seq first second) state (before ++ after) final
  | subshell {body : Script σ ε} {state inner : σ} {events : List ε} :
      Runs body state events inner → Runs (.subshell body) state events state
  | done {cond : σ → Bool} {next : σ → σ} {body : Script σ ε} {state : σ} :
      cond state = false → Runs (.loop cond next body) state [] state
  | turn {cond : σ → Bool} {next : σ → σ} {body : Script σ ε} {state middle final : σ}
      {before after : List ε} :
      cond state = true → Runs body state before middle →
        Runs (.loop cond next body) (next middle) after final →
          Runs (.loop cond next body) state (before ++ after) final

section Inversion

variable {state final : σ} {events : List ε}

@[simp] theorem runs_line {run : σ → Option (List ε × σ)} :
    Runs (.line run) state events final ↔ run state = some (events, final) := by
  constructor
  · intro taken
    cases taken with
    | line same => exact same
  · exact .line

@[simp] theorem runs_act {change : σ → σ} :
    Runs (.act change : Script σ ε) state events final ↔ events = [] ∧ final = change state := by
  rw [Script.act, runs_line, Option.some.injEq, Prod.mk.injEq]
  exact and_congr eq_comm eq_comm

@[simp] theorem runs_emit {event : σ → ε} :
    Runs (.emit event) state events final ↔ events = [event state] ∧ final = state := by
  rw [Script.emit, runs_line, Option.some.injEq, Prod.mk.injEq]
  exact and_congr eq_comm eq_comm

theorem runs_seq {first second : Script σ ε} :
    Runs (.seq first second) state events final ↔ ∃ before middle after,
      Runs first state before middle ∧ Runs second middle after final ∧ events = before ++ after := by
  constructor
  · intro run
    cases run with
    | seq one two => exact ⟨_, _, _, one, two, rfl⟩
  · rintro ⟨before, middle, after, one, two, rfl⟩
    exact .seq one two

theorem runs_act_seq {change : σ → σ} {second : Script σ ε} :
    Runs (.seq (.act change) second) state events final ↔ Runs second (change state) events final := by
  rw [runs_seq]
  constructor
  · rintro ⟨before, middle, after, one, two, rfl⟩
    obtain ⟨rfl, rfl⟩ := runs_act.1 one
    exact two
  · intro run
    exact ⟨[], _, events, runs_act.2 ⟨rfl, rfl⟩, run, rfl⟩

theorem runs_subshell {body : Script σ ε} :
    Runs (.subshell body) state events final ↔ (∃ inner, Runs body state events inner) ∧
      final = state := by
  constructor
  · intro run
    cases run with
    | subshell inside => exact ⟨⟨_, inside⟩, rfl⟩
  · rintro ⟨⟨inner, inside⟩, rfl⟩
    exact .subshell inside

variable {cond : σ → Bool} {next : σ → σ} {body : Script σ ε}

theorem runs_loop_of_not (stops : cond state = false) :
    Runs (.loop cond next body) state events final ↔ events = [] ∧ final = state := by
  constructor
  · intro run
    cases run with
    | done => exact ⟨rfl, rfl⟩
    | turn goes => exact absurd (stops.symm.trans goes) Bool.false_ne_true
  · rintro ⟨rfl, rfl⟩
    exact .done stops

theorem runs_loop_of (goes : cond state = true) :
    Runs (.loop cond next body) state events final ↔ ∃ before middle after,
      Runs body state before middle ∧ Runs (.loop cond next body) (next middle) after final ∧
        events = before ++ after := by
  constructor
  · intro run
    cases run with
    | done stops => exact absurd (stops.symm.trans goes) Bool.false_ne_true
    | turn _ inside later => exact ⟨_, _, _, inside, later, rfl⟩
  · rintro ⟨before, middle, after, inside, later, rfl⟩
    exact .turn goes inside later

end Inversion

/-- **A script has no more than one run** from a state. -/
theorem Runs.unique {script : Script σ ε} {state final other : σ} {events events' : List ε}
    (run : Runs script state events final) (again : Runs script state events' other) :
    events = events' ∧ final = other := by
  induction run generalizing events' other with
  | line same => exact Prod.mk.inj (Option.some.inj (same.symm.trans (runs_line.1 again)))
  | seq one two first second =>
    obtain ⟨before, middle, after, one', two', rfl⟩ := runs_seq.1 again
    obtain ⟨rfl, rfl⟩ := first one'
    obtain ⟨rfl, rfl⟩ := second two'
    exact ⟨rfl, rfl⟩
  | subshell inside ih =>
    obtain ⟨⟨inner, inside'⟩, rfl⟩ := runs_subshell.1 again
    exact ⟨(ih inside').1, rfl⟩
  | done stops =>
    obtain ⟨rfl, rfl⟩ := (runs_loop_of_not stops).1 again
    exact ⟨rfl, rfl⟩
  | turn goes inside later here rest =>
    obtain ⟨before, middle, after, inside', later', rfl⟩ := (runs_loop_of goes).1 again
    obtain ⟨rfl, rfl⟩ := here inside'
    obtain ⟨rfl, rfl⟩ := rest later'
    exact ⟨rfl, rfl⟩

/-- **The first turns of a loop**: the runs of the loop are those of the loop after them, with their
events in front. -/
theorem runs_loop_unroll {cond : σ → Bool} {next : σ → σ} {body : Script σ ε} (state : ℕ → σ)
    (turns : ℕ → List ε) {count : ℕ} {final : σ} {events : List ε}
    (known : ∀ i < count, cond (state i) = true ∧
      ∃ middle, Runs body (state i) (turns i) middle ∧ next middle = state (i + 1)) :
    Runs (.loop cond next body) (state 0) events final ↔ ∃ rest,
      Runs (.loop cond next body) (state count) rest final ∧
        events = (List.range count).flatMap turns ++ rest := by
  induction count generalizing events with
  | zero => simp
  | succ count ih =>
    obtain ⟨goes, middle, inside, reaches⟩ := known count (Nat.lt_succ_self count)
    rw [ih fun i less => known i (Nat.lt_succ_of_lt less), List.range_succ]
    constructor
    · rintro ⟨rest, run, rfl⟩
      obtain ⟨before, middle', after, inside', later, rfl⟩ := (runs_loop_of goes).1 run
      obtain ⟨rfl, rfl⟩ := inside.unique inside'
      refine ⟨after, reaches ▸ later, ?_⟩
      simp
    · rintro ⟨rest, run, rfl⟩
      refine ⟨turns count ++ rest, (runs_loop_of goes).2 ⟨_, _, _, inside, reaches ▸ run, rfl⟩, ?_⟩
      simp

end Gebr.Lib.Shell
