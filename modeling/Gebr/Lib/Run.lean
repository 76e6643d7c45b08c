/-
**Runs of a partial step function.**

A machine is a step function `σ → ε → Option σ`: `none` is an event the machine cannot take.

* `run`, `run_append`: a run over a list of events, and over two lists in a row.
* `run_invariant`: what every step keeps, every run keeps.
* `Guarded`, `guarded_invariant`: the same for the runs whose every step meets a guard on the state
  before it and the event.
* `stays_iff_kept`, `stays_iff_guarded`: the runs that stay in good states are the guarded ones.
* `run_isSome_iff_guarded`: the runs that go through, where exactly the guarded steps are taken.
* `trace`, `trace_forall`: the steps of a run, and what holds of each of them.
* `trace_carries`: what is assumed of every step of a run carries what follows from it.
-/

import Mathlib.Data.List.Basic

namespace Gebr.Lib.Run

variable {σ ε : Type*}

/-- The state after a list of events, taken one by one. -/
def run (step : σ → ε → Option σ) : σ → List ε → Option σ
  | state, [] => some state
  | state, event :: events => (step state event).bind fun next => run step next events

@[simp] theorem run_cons (step : σ → ε → Option σ) (state : σ) (event : ε) (events : List ε) :
    run step state (event :: events) = (step state event).bind fun next => run step next events :=
  rfl

theorem run_append (step : σ → ε → Option σ) (state : σ) (first second : List ε) :
    run step state (first ++ second) =
      (run step state first).bind fun next => run step next second := by
  induction first generalizing state with
  | nil => rfl
  | cons event events ih =>
    rw [List.cons_append, run_cons, run_cons, Option.bind_assoc]
    congr 1
    funext next
    exact ih next

/-- **What every step keeps, every run keeps.** -/
theorem run_invariant {step : σ → ε → Option σ} {inv : σ → Prop}
    (keep : ∀ state event next, inv state → step state event = some next → inv next)
    {state final : σ} {events : List ε} (start : inv state)
    (reaches : run step state events = some final) : inv final := by
  induction events generalizing state with
  | nil => exact Option.some.inj reaches ▸ start
  | cons event events ih =>
    obtain ⟨next, taken, rest⟩ := Option.bind_eq_some_iff.1 reaches
    exact ih (keep state event next start taken) rest

/-- Every step of the run meets the guard. -/
def Guarded (step : σ → ε → Option σ) (guard : σ → ε → Prop) : σ → List ε → Prop
  | _, [] => True
  | state, event :: events =>
    guard state event ∧ ∀ next, step state event = some next → Guarded step guard next events

/-- **What every guarded step keeps, every guarded run keeps.** -/
theorem guarded_invariant {step : σ → ε → Option σ} {guard : σ → ε → Prop} {inv : σ → Prop}
    (keep : ∀ state event next, inv state → guard state event → step state event = some next →
      inv next)
    {state final : σ} {events : List ε} (start : inv state)
    (guarded : Guarded step guard state events) (reaches : run step state events = some final) :
    inv final := by
  induction events generalizing state with
  | nil => exact Option.some.inj reaches ▸ start
  | cons event events ih =>
    obtain ⟨next, taken, rest⟩ := Option.bind_eq_some_iff.1 reaches
    exact ih (keep state event next start guarded.1 taken) (guarded.2 next taken) rest

/-- **The parts of a guarded run are guarded.** -/
theorem guarded_append {step : σ → ε → Option σ} {guard : σ → ε → Prop} {state mid : σ}
    {before after : List ε} (guarded : Guarded step guard state (before ++ after))
    (reaches : run step state before = some mid) :
    Guarded step guard state before ∧ Guarded step guard mid after := by
  induction before generalizing state with
  | nil =>
    obtain rfl := Option.some.inj reaches
    exact ⟨trivial, guarded⟩
  | cons event before ih =>
    obtain ⟨next, taken, rest⟩ := Option.bind_eq_some_iff.1 reaches
    have parts := ih (guarded.2 next taken) rest
    refine ⟨⟨guarded.1, fun other again => ?_⟩, parts.2⟩
    obtain rfl := Option.some.inj (taken.symm.trans again)
    exact parts.1

/-- **The runs whose every state is good are the guarded ones**, where the guarded steps keep an
invariant and the others lead out of the good states. -/
theorem stays_iff_kept {step : σ → ε → Option σ} {guard : σ → ε → Prop} {inv good : σ → Prop}
    (well : ∀ state, inv state → good state)
    (keep : ∀ state event, inv state → guard state event → ∃ next, step state event =
    some next ∧ inv next) (leaves : ∀ state event next, inv state → step state event = some next →
    good next → guard state event) {state : σ} {events : List ε} (start : inv state) :
    (∀ before, before <+: events → ∃ final, run step state before = some final ∧ good final) ↔
      Guarded step guard state events := by
  induction events generalizing state with
  | nil =>
    refine iff_of_true (fun before begins => ?_) trivial
    rw [List.prefix_nil.1 begins]
    exact ⟨state, rfl, well state start⟩
  | cons event events ih =>
    constructor
    · intro all
      obtain ⟨next, taken, right⟩ := all [event] (List.prefix_append [event] events)
      rw [run_cons, Option.bind_eq_some_iff] at taken
      obtain ⟨mid, here, same⟩ := taken
      obtain rfl : mid = next := Option.some.inj same
      have first := leaves state event mid start here right
      refine ⟨first, fun other again => ?_⟩
      obtain rfl : mid = other := Option.some.inj (here.symm.trans again)
      obtain ⟨other, again, kept⟩ := keep state event start first
      obtain rfl : mid = other := Option.some.inj (here.symm.trans again)
      refine (ih kept).1 fun before begins => ?_
      obtain ⟨final, reaches, good⟩ := all (event :: before) ((List.prefix_cons_inj event).2 begins)
      rw [run_cons, here, Option.bind_some] at reaches
      exact ⟨final, reaches, good⟩
    · rintro ⟨first, rest⟩ before begins
      obtain ⟨next, here, kept⟩ := keep state event start first
      cases before with
      | nil => exact ⟨state, rfl, well state start⟩
      | cons other before =>
        obtain ⟨rfl, shorter⟩ := List.cons_prefix_cons.1 begins
        rw [run_cons, here, Option.bind_some]
        exact (ih kept).2 (rest next here) before shorter

/-- **The runs whose every state is good are the guarded ones**, where from a good state exactly the
guarded steps are taken to a good one. -/
theorem stays_iff_guarded {step : σ → ε → Option σ} {guard : σ → ε → Prop} {inv good : σ → Prop}
    (keep : ∀ state event next, inv state → step state event = some next → inv next)
    (meets : ∀ state event, inv state → good state →
      ((∃ next, step state event = some next ∧ good next) ↔ guard state event))
    {state : σ} {events : List ε} (start : inv state) (well : good state) :
    (∀ before, before <+: events → ∃ final, run step state before = some final ∧ good final) ↔
      Guarded step guard state events := by
  refine stays_iff_kept (fun state (both : inv state ∧ good state) => both.2) ?_ ?_ ⟨start, well⟩
  · rintro state event ⟨kept, right⟩ first
    obtain ⟨next, taken, after⟩ := (meets state event kept right).2 first
    exact ⟨next, taken, keep state event next kept taken, after⟩
  · rintro state event next ⟨kept, right⟩ taken after
    exact (meets state event kept right).1 ⟨next, taken, after⟩

/-- **A run goes through iff it is guarded**, where exactly the guarded steps are taken. -/
theorem run_isSome_iff_guarded {step : σ → ε → Option σ} {guard : σ → ε → Prop}
    (meets : ∀ state event, (step state event).isSome = true ↔ guard state event) (state : σ)
    (events : List ε) : (∃ final, run step state events = some final) ↔
    Guarded step guard state events := by
  induction events generalizing state with
  | nil => exact iff_of_true ⟨state, rfl⟩ trivial
  | cons event events ih =>
    show (∃ final, (step state event).bind _ = some final) ↔ guard state event ∧ _
    rw [← meets]
    cases taken : step state event with
    | none =>
      exact iff_of_false (fun ⟨_, never⟩ => absurd never nofun) fun both => Bool.false_ne_true both.1
    | some next =>
      rw [Option.bind_some, ih next]
      refine ⟨fun later => ⟨rfl, fun other again => ?_⟩, fun both => both.2 next rfl⟩
      exact Option.some.inj again ▸ later

/-- The steps of a run: each with the state before it and the state after it. -/
def trace (step : σ → ε → Option σ) : σ → List ε → List (σ × ε × σ)
  | _, [] => []
  | state, event :: events =>
    match step state event with
    | none => []
    | some next => (state, event, next) :: trace step next events

theorem trace_cons {step : σ → ε → Option σ} {state next : σ} {event : ε}
    (taken : step state event = some next) (events : List ε) :
    trace step state (event :: events) = (state, event, next) :: trace step next events := by
  rw [trace, taken]

/-- **What holds of every guarded step from a good state holds of every step of a guarded run.** -/
theorem trace_forall {step : σ → ε → Option σ} {guard : σ → ε → Prop} {inv : σ → Prop}
    {P : σ → ε → σ → Prop}
    (keep : ∀ state event next, inv state → guard state event → step state event = some next →
      inv next ∧ P state event next)
    {state : σ} {events : List ε} (start : inv state) (guarded : Guarded step guard state events) :
    ∀ s e t, (s, e, t) ∈ trace step state events → P s e t := by
  induction events generalizing state with
  | nil => exact fun _ _ _ member => absurd member List.not_mem_nil
  | cons event events ih =>
    intro s e t member
    cases taken : step state event with
    | none =>
      rw [trace, taken] at member
      exact absurd member List.not_mem_nil
    | some next =>
      obtain ⟨good, here⟩ := keep state event next start guarded.1 taken
      rw [trace_cons taken, List.mem_cons] at member
      rcases member with same | later
      · obtain ⟨rfl, rfl, rfl⟩ : s = state ∧ e = event ∧ t = next := by simpa using same
        exact here
      · exact ih good (guarded.2 next taken) s e t later

/-- **What is assumed of every step of a run carries what follows**: an invariant goes through a
step of which `P` holds, and there `Q` holds as well. -/
theorem trace_carries {step : σ → ε → Option σ} {inv : σ → Prop} {P Q : σ → ε → σ → Prop}
    (keep : ∀ s e t, inv s → step s e = some t → P s e t → inv t ∧ Q s e t)
    {state : σ} {events : List ε} (start : inv state)
    (assumed : ∀ s e t, (s, e, t) ∈ trace step state events → P s e t) :
    ∀ s e t, (s, e, t) ∈ trace step state events → Q s e t := by
  induction events generalizing state with
  | nil => exact fun _ _ _ member => absurd member List.not_mem_nil
  | cons event events ih =>
    cases taken : step state event with
    | none =>
      rw [trace, taken]
      exact fun _ _ _ member => absurd member List.not_mem_nil
    | some next =>
      rw [trace_cons taken] at assumed ⊢
      obtain ⟨good, here⟩ := keep state event next start taken (assumed _ _ _ List.mem_cons_self)
      intro s e t member
      rcases List.mem_cons.1 member with same | later
      · obtain ⟨rfl, rfl, rfl⟩ : s = state ∧ e = event ∧ t = next := by simpa using same
        exact here
      · exact ih good (fun s e t member => assumed s e t (List.mem_cons_of_mem _ member)) s e t later

end Gebr.Lib.Run
