/-
**Taking the steps of a partial function until there is none.**

A function that calls itself on what one step makes of its argument, and returns the argument where
there is no step. `StateTransition.Reaches` is to come to a state in some steps.

* `runFor`, `Returns`, `Ends`: the function with a bound on its calls; what it returns, and that it
  does.
* `returns_iff`: it returns a state without a step, to which the steps lead.
* `Returns.map`: steps that go along with other ones.
* `ends_iff_no_cycle` — **among finitely many states, it ends iff no state leads back to itself**.
* `steps`: the state after so many steps.
-/

import Mathlib.Computability.StateTransition
import Mathlib.Data.Fintype.Card
import Mathlib.Data.Set.Finite.Basic

namespace Gebr.Lib.PartialSteps

open StateTransition Relation

variable {σ τ : Type*} {step : σ → Option σ} {s next r : σ}

section Returns

/-- The function, with a bound on its calls. -/
def runFor (step : σ → Option σ) : ℕ → σ → Option σ
  | 0, _ => none
  | fuel + 1, s =>
    match step s with
    | none => some s
    | some next => runFor step fuel next

/-- The function returns a result after finitely many calls. -/
def Returns (step : σ → Option σ) (s r : σ) : Prop := ∃ fuel, runFor step fuel s = some r

/-- The function returns. -/
def Ends (step : σ → Option σ) (s : σ) : Prop := ∃ r, Returns step s r

theorem runFor_mono {fuel more : ℕ} (le : fuel ≤ more) (result : runFor step fuel s = some r) :
    runFor step more s = some r := by
  induction fuel generalizing more s with
  | zero => exact absurd result nofun
  | succ fuel ih =>
    obtain ⟨more, rfl⟩ := Nat.exists_eq_add_of_le' (Nat.one_le_of_lt le)
    unfold runFor at result ⊢
    cases taken : step s with
    | none => rwa [taken] at result
    | some next =>
      rw [taken] at result
      exact ih (Nat.le_of_succ_le_succ le) result

theorem returns_stop (stop : step s = none) : Returns step s s := by
  refine ⟨1, ?_⟩
  unfold runFor
  rw [stop]

theorem returns_step (taken : step s = some next) : Returns step s r ↔ Returns step next r := by
  constructor
  · rintro ⟨fuel, result⟩
    cases fuel with
    | zero => exact absurd result nofun
    | succ fuel =>
      unfold runFor at result
      rw [taken] at result
      exact ⟨fuel, result⟩
  · rintro ⟨fuel, result⟩
    refine ⟨fuel + 1, ?_⟩
    unfold runFor
    rw [taken]
    exact result

/-- **What is returned has no step, and the steps lead there.** -/
theorem returns_iff : Returns step s r ↔ Reaches step s r ∧ step r = none := by
  constructor
  · rintro ⟨fuel, result⟩
    induction fuel generalizing s with
    | zero => exact absurd result nofun
    | succ fuel ih =>
      unfold runFor at result
      cases taken : step s with
      | none =>
        rw [taken] at result
        obtain rfl := Option.some.inj result
        exact ⟨.refl, taken⟩
      | some next =>
        rw [taken] at result
        exact (ih result).imp_left (.head taken)
  · rintro ⟨way, stop⟩
    induction way using ReflTransGen.head_induction_on with
    | refl => exact returns_stop stop
    | head taken way ih => exact (returns_step taken).2 ih

theorem Returns.unique {other : σ} (first : Returns step s r) (second : Returns step s other) :
    r = other :=
  Part.mem_unique (mem_eval.2 (returns_iff.1 first)) (mem_eval.2 (returns_iff.1 second))

theorem ends_step (taken : step s = some next) : Ends step s ↔ Ends step next :=
  exists_congr fun _ => returns_step taken

theorem ends_iff_of_reaches {a : σ} (way : Reaches step s a) : Ends step s ↔ Ends step a := by
  induction way using ReflTransGen.head_induction_on with
  | refl => exact Iff.rfl
  | head taken way ih => exact (ends_step taken).trans ih

/-- **Steps that go along with other ones return what goes along with their result.** -/
theorem Returns.map {other : τ → Option τ} {f : σ → τ} (along : ∀ s, other (f s) = (step s).map f)
    (returns : Returns step s r) : Returns other (f s) (f r) := by
  obtain ⟨way, stop⟩ := returns_iff.1 returns
  induction way using ReflTransGen.head_induction_on with
  | refl => exact returns_stop (by rw [along, stop, Option.map_none])
  | @head s next taken way ih =>
    have goes : other (f s) = some (f next) := by
      rw [along, show step s = some next from taken, Option.map_some]
    exact (returns_step goes).2 (ih ((returns_step taken).1 returns))

end Returns

section Cycles

/-- A state that leads to a state without a step does not lead back to itself. -/
theorem not_cycle_of_returns (returns : Returns step s r) : ¬ Reaches₁ step s s := by
  obtain ⟨way, stop⟩ := returns_iff.1 returns
  induction way using ReflTransGen.head_induction_on with
  | refl =>
    intro cycle
    obtain ⟨next, taken, -⟩ := TransGen.head'_iff.1 cycle
    rw [stop] at taken
    exact absurd taken nofun
  | head taken way ih =>
    intro cycle
    exact ih ((returns_step taken).1 returns) (.tail' (reaches₁_fwd cycle taken) taken)

theorem not_ends_of_cycle {a : σ} (way : Reaches step s a) (cycle : Reaches₁ step a a) :
    ¬ Ends step s := by
  rw [ends_iff_of_reaches way]
  rintro ⟨r, returns⟩
  exact not_cycle_of_returns returns cycle

/-- A relation without a cycle on a finite type is well-founded. -/
theorem wellFounded_of_no_cycle {ι : Type*} [Finite ι] {rel : ι → ι → Prop}
    (noCycle : ∀ a, ¬ TransGen rel a a) : WellFounded rel := by
  have irrefl : Std.Irrefl (TransGen rel) := ⟨noCycle⟩
  exact Subrelation.wf (fun {_ _} => TransGen.single)
    (Finite.wellFounded_of_trans_of_irrefl (TransGen rel))

/-- **Among finitely many states, the function ends iff no state leads back to itself.** -/
theorem ends_iff_no_cycle (finite : {a | Reaches step s a}.Finite) :
    Ends step s ↔ ¬ ∃ a, Reaches step s a ∧ Reaches₁ step a a := by
  refine ⟨fun ends ⟨a, way, cycle⟩ => not_ends_of_cycle way cycle ends, fun noCycle => ?_⟩
  let rel := fun next a : {a | Reaches step s a} => step a = some next
  have lifted : ∀ a b, TransGen rel a b → Reaches₁ step b.1 a.1 := by
    intro a b way
    induction way with
    | single taken => exact .single taken
    | tail way taken ih => exact .head taken ih
  have : Finite {a | Reaches step s a} := finite
  have wf : WellFounded rel :=
    wellFounded_of_no_cycle fun a cycle => noCycle ⟨a.1, a.2, lifted a a cycle⟩
  have ends : ∀ a : {a | Reaches step s a}, Ends step a.1 := by
    intro a
    induction a using wf.induction with
    | h a ih =>
      cases taken : step a.1 with
      | none => exact ⟨a.1, returns_stop taken⟩
      | some next => exact (ends_step taken).2 (ih ⟨next, a.2.tail taken⟩ taken)
  exact ends ⟨s, .refl⟩

end Cycles

section Steps

/-- The state after so many steps. -/
def steps (step : σ → Option σ) : ℕ → σ → Option σ
  | 0, s => some s
  | n + 1, s => (step s).bind (steps step n)

@[simp] theorem steps_zero (step : σ → Option σ) (s : σ) : steps step 0 s = some s := rfl

theorem steps_add (step : σ → Option σ) (m n : ℕ) (s : σ) :
    steps step (m + n) s = (steps step m s).bind (steps step n) := by
  induction m generalizing s with
  | zero => rw [Nat.zero_add, steps_zero, Option.bind_some]
  | succ m ih =>
    rw [Nat.succ_add, steps, steps, Option.bind_assoc]
    exact congrArg (Option.bind (step s)) (funext ih)

theorem steps_succ (step : σ → Option σ) (n : ℕ) (s : σ) :
    steps step (n + 1) s = (steps step n s).bind step := by
  rw [steps_add]
  exact congrArg (Option.bind (steps step n s)) (funext fun a => Option.bind_fun_some (step a))

theorem reaches_of_steps {n : ℕ} (taken : steps step n s = some r) : Reaches step s r := by
  induction n generalizing s with
  | zero =>
    obtain rfl := Option.some.inj taken
    exact .refl
  | succ n ih =>
    obtain ⟨next, first, later⟩ := Option.bind_eq_some_iff.1 taken
    exact .head first (ih later)

theorem reaches₁_of_steps {n : ℕ} (some_step : 0 < n) (taken : steps step n s = some r) :
    Reaches₁ step s r := by
  obtain ⟨n, rfl⟩ := Nat.exists_eq_succ_of_ne_zero some_step.ne'
  obtain ⟨next, first, later⟩ := Option.bind_eq_some_iff.1 taken
  exact .head' first (reaches_of_steps later)

theorem steps_of_le {m n : ℕ} (le : m ≤ n) (taken : steps step n s = some r) :
    ∃ before, steps step m s = some before ∧ steps step (n - m) before = some r := by
  rw [← Nat.add_sub_cancel' le, steps_add] at taken
  exact Option.bind_eq_some_iff.1 taken

/-- A bound on the calls is enough when it is more than the steps there are. -/
theorem runFor_isSome_iff (n : ℕ) (s : σ) : (runFor step n s).isSome ↔ steps step n s = none := by
  induction n generalizing s with
  | zero => exact iff_of_false nofun nofun
  | succ n ih =>
    unfold runFor steps
    cases step s with
    | none => exact iff_of_true rfl rfl
    | some next => exact ih next

/-- **The function ends iff the steps do.** -/
theorem ends_iff_steps : Ends step s ↔ ∃ n, steps step n s = none := by
  refine Iff.trans ?_ (exists_congr fun n => runFor_isSome_iff n s)
  refine exists_comm.trans (exists_congr fun n => ?_)
  exact Option.isSome_iff_exists.symm

/-- **Steps that go along with other ones** are as many as those. -/
theorem steps_map {other : τ → Option τ} {f : σ → τ} (along : ∀ s, other (f s) = (step s).map f)
    (n : ℕ) (s : σ) : steps other n (f s) = (steps step n s).map f := by
  induction n generalizing s with
  | zero => rfl
  | succ n ih =>
    unfold steps
    rw [along]
    cases step s with
    | none => rfl
    | some next => exact ih next

theorem ends_map_iff {other : τ → Option τ} {f : σ → τ} (along : ∀ s, other (f s) = (step s).map f) :
    Ends other (f s) ↔ Ends step s := by
  rw [ends_iff_steps, ends_iff_steps]
  refine exists_congr fun n => ?_
  rw [steps_map along, Option.map_eq_none_iff]

end Steps

end Gebr.Lib.PartialSteps
