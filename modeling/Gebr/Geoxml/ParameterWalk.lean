/-
**A walk over the parameters of a program that a callback can end.**

The callback changes the parameter that it is called with, and says whether the walk goes on.

* `Parameter.foreach`, `foreachInstances`, `foreachParameters`: the walk.
* `Parameter.leaves`, `Parameter.map`: the parameters that are no groups, and a change of all of
  them.
* `Outcome`: what a walk over some parameters leaves behind.
* `outcome_foreachParameters` — **when a walk that may end does what a change of all parameters
  does**.
-/

import Gebr.Geoxml.ResetToDefault

namespace Gebr.Geoxml.Reset

variable {β γ σ : Type}

section Model

/-- What is called at a parameter: the changed parameter, what it tells, and whether the walk goes
on. -/
abbrev Callback (β σ : Type) : Type := ProgramParameter β → σ → ProgramParameter β × σ × Bool

mutual

/-- What is done at one parameter. -/
def Parameter.foreach (callback : Callback β σ) : Parameter β γ → σ → Parameter β γ × σ × Bool
  | .program parameter, s =>
    let called := callback parameter s
    (.program called.1, called.2)
  | .group rest instances, s =>
    let walked := foreachInstances callback instances s
    (.group rest walked.1, walked.2)

/-- The loop over the instances of a group. -/
def foreachInstances (callback : Callback β σ) : List (GebrGeoXmlParameters (Parameter β γ)) → σ →
    List (GebrGeoXmlParameters (Parameter β γ)) × σ × Bool
  | [], s => ([], s, true)
  | ⟨parameters, default, selection⟩ :: instances, s =>
    let walked := foreachParameters callback parameters s
    if walked.2.2 = true then
      let later := foreachInstances callback instances walked.2.1
      (⟨walked.1, default, selection⟩ :: later.1, later.2)
    else (⟨walked.1, default, selection⟩ :: instances, walked.2)

/-- `gebr_geoxml_parameters_foreach`. -/
def foreachParameters (callback : Callback β σ) :
    List (Parameter β γ) → σ → List (Parameter β γ) × σ × Bool
  | [], s => ([], s, true)
  | parameter :: parameters, s =>
    let walked := parameter.foreach callback s
    if walked.2.2 = true then
      let later := foreachParameters callback parameters walked.2.1
      (walked.1 :: later.1, later.2)
    else (walked.1 :: parameters, walked.2)

end

mutual

/-- The parameters that are no groups, in the order of the walk. -/
def Parameter.leaves : Parameter β γ → List (ProgramParameter β)
  | .program parameter => [parameter]
  | .group _ instances => leavesOfInstances instances

def leavesOfInstances : List (GebrGeoXmlParameters (Parameter β γ)) → List (ProgramParameter β)
  | [] => []
  | ⟨parameters, _, _⟩ :: instances => leavesOf parameters ++ leavesOfInstances instances

def leavesOf : List (Parameter β γ) → List (ProgramParameter β)
  | [] => []
  | parameter :: parameters => parameter.leaves ++ leavesOf parameters

end

mutual

/-- All of them changed. -/
def Parameter.map (change : ProgramParameter β → ProgramParameter β) : Parameter β γ → Parameter β γ
  | .program parameter => .program (change parameter)
  | .group rest instances => .group rest (mapInstances change instances)

def mapInstances (change : ProgramParameter β → ProgramParameter β) :
    List (GebrGeoXmlParameters (Parameter β γ)) → List (GebrGeoXmlParameters (Parameter β γ))
  | [] => []
  | ⟨parameters, default, selection⟩ :: instances =>
    ⟨mapParameters change parameters, default, selection⟩ :: mapInstances change instances

def mapParameters (change : ProgramParameter β → ProgramParameter β) :
    List (Parameter β γ) → List (Parameter β γ)
  | [] => []
  | parameter :: parameters => parameter.map change :: mapParameters change parameters

end

end Model

section Changes

variable (change : ProgramParameter β → ProgramParameter β)

mutual

theorem map_eq_self_iff : ∀ parameter : Parameter β γ,
    parameter.map change = parameter ↔ ∀ leaf ∈ parameter.leaves, change leaf = leaf
  | .program parameter => by
    rw [Parameter.map, Parameter.leaves, Tree.Parameter.program.injEq, List.forall_mem_singleton]
  | .group rest instances => by
    rw [Parameter.map, Parameter.leaves, Tree.Parameter.group.injEq, eq_self, true_and]
    exact mapInstances_eq_self_iff instances

theorem mapInstances_eq_self_iff : ∀ instances : List (GebrGeoXmlParameters (Parameter β γ)),
    mapInstances change instances = instances ↔ ∀ leaf ∈ leavesOfInstances instances,
    change leaf = leaf
  | [] => iff_of_true rfl fun _ member => absurd member List.not_mem_nil
  | ⟨parameters, _, _⟩ :: instances => by
    rw [mapInstances, leavesOfInstances, List.forall_mem_append, List.cons.injEq,
      GebrGeoXmlParameters.mk.injEq, mapParameters_eq_self_iff parameters,
        mapInstances_eq_self_iff instances, eq_self, eq_self, and_true, and_true]

theorem mapParameters_eq_self_iff : ∀ parameters : List (Parameter β γ),
    mapParameters change parameters = parameters ↔ ∀ leaf ∈ leavesOf parameters, change leaf = leaf
  | [] => iff_of_true rfl fun _ member => absurd member List.not_mem_nil
  | parameter :: parameters => by
    rw [mapParameters, leavesOf, List.forall_mem_append, List.cons.injEq, map_eq_self_iff parameter,
      mapParameters_eq_self_iff parameters]

end

mutual

theorem leaves_map : ∀ parameter : Parameter β γ, (parameter.map change).leaves =
    parameter.leaves.map change
  | .program _ => rfl
  | .group _ instances => leavesOfInstances_map instances

theorem leavesOfInstances_map : ∀ instances : List (GebrGeoXmlParameters (Parameter β γ)),
    leavesOfInstances (mapInstances change instances) = (leavesOfInstances instances).map change
  | [] => rfl
  | ⟨parameters, _, _⟩ :: instances => by
    rw [mapInstances, leavesOfInstances, leavesOfInstances, List.map_append, leavesOf_map parameters,
      leavesOfInstances_map instances]

theorem leavesOf_map : ∀ parameters : List (Parameter β γ),
    leavesOf (mapParameters change parameters) = (leavesOf parameters).map change
  | [] => rfl
  | parameter :: parameters => by
    rw [mapParameters, leavesOf, leavesOf, List.map_append, leaves_map parameter,
      leavesOf_map parameters]

end

end Changes

section Walks

variable {change : ProgramParameter β → ProgramParameter β} {stops : ProgramParameter β → Bool}
    {told : σ → σ}
variable {callback : Callback β σ} {items later : List (ProgramParameter β)} {s t : σ}
    {after : σ × Bool}
variable {whole first rest : Prop}

/-- **What a walk leaves behind**: it told of the first parameter that ended it, and did what a
change of all does iff the change leaves those behind as they are. -/
structure Outcome (change : ProgramParameter β → ProgramParameter β)
    (stops : ProgramParameter β → Bool) (told : σ → σ) (items : List (ProgramParameter β)) (s : σ)
    (after : σ × Bool) (whole : Prop) : Prop where
  after_eq : after = (if items.any stops = true then told s else s, !items.any stops)
  whole_iff : whole ↔ items.Pairwise fun earlier later => stops earlier = true → change later = later

theorem Outcome.nil (holds : whole) : Outcome change stops told [] s (s, true) whole :=
  ⟨rfl, iff_of_true holds List.Pairwise.nil⟩

theorem Outcome.singleton (holds : whole) (item : ProgramParameter β) :
    Outcome change stops told [item] s (if stops item = true then told s else s, !stops item)
    whole where
  after_eq := by simp
  whole_iff := iff_of_true holds (List.pairwise_singleton _ _)

/-- The walk went on. -/
theorem Outcome.goesOn (one : Outcome change stops told items s (t, true) first)
    (two : Outcome change stops told later t after rest) (both : whole ↔ first ∧ rest) :
    Outcome change stops told (items ++ later) s after whole := by
  obtain ⟨same, goes⟩ := Prod.mk.inj one.after_eq
  have never : items.any stops = false := by simpa using goes.symm
  rw [never, if_neg Bool.false_ne_true] at same
  constructor
  · rw [two.after_eq, same, List.any_append, never, Bool.false_or]
  · rw [both, one.whole_iff, two.whole_iff, List.pairwise_append, ← and_assoc, iff_self_and]
    rintro - earlier member other - stopped
    rw [List.any_eq_false] at never
    exact absurd stopped (never earlier member)

/-- The walk ended. -/
theorem Outcome.ended (one : Outcome change stops told items s (t, false) first)
    (both : whole ↔ first ∧ ∀ leaf ∈ later, change leaf = leaf) :
    Outcome change stops told (items ++ later) s (t, false) whole := by
  obtain ⟨same, ends⟩ := Prod.mk.inj one.after_eq
  have some_stop : items.any stops = true := by simpa using ends.symm
  constructor
  · rw [same, List.any_append, some_stop, Bool.true_or]
    rfl
  · obtain ⟨stop, member, stopped⟩ := List.any_eq_true.1 some_stop
    rw [both, one.whole_iff, List.pairwise_append]
    constructor
    · rintro ⟨front, fixed⟩
      refine ⟨front, ?_, fun _ _ leaf there _ => fixed leaf there⟩
      exact List.pairwise_of_forall_mem_list fun _ _ leaf there _ => fixed leaf there
    · rintro ⟨front, -, across⟩
      exact ⟨front, fun leaf there => across stop member leaf there stopped⟩

/-- The callback makes this change, ends the walk at these parameters, and tells that it did. -/
def Callback.Does (callback : Callback β σ) (change : ProgramParameter β → ProgramParameter β)
    (stops : ProgramParameter β → Bool) (told : σ → σ) : Prop :=
  ∀ parameter s, callback parameter s =
    (change parameter, if stops parameter = true then told s else s, !stops parameter)

mutual

theorem outcome_foreach (does : callback.Does change stops told) :
    ∀ (parameter : Parameter β γ) (s : σ), Outcome change stops told parameter.leaves s
      (parameter.foreach callback s).2 ((parameter.foreach callback s).1 = parameter.map change)
  | .program parameter, s => by
    rw [Parameter.foreach, Parameter.leaves, does]
    exact Outcome.singleton rfl parameter
  | .group rest instances, s => by
    rw [Parameter.foreach, Parameter.leaves, Parameter.map]
    simpa using outcome_foreachInstances does instances s

theorem outcome_foreachInstances (does : callback.Does change stops told) :
    ∀ (instances : List (GebrGeoXmlParameters (Parameter β γ))) (s : σ),
    Outcome change stops told (leavesOfInstances instances) s (foreachInstances callback instances s).2
      ((foreachInstances callback instances s).1 = mapInstances change instances)
  | [], s => Outcome.nil rfl
  | ⟨parameters, default, selection⟩ :: instances, s => by
    have one := outcome_foreachParameters does parameters s
    rw [foreachInstances, leavesOfInstances, mapInstances]
    dsimp only
    split
    · rename_i goes
      rw [← Prod.mk.eta (p := (foreachParameters callback parameters s).2), goes] at one
      refine one.goesOn (outcome_foreachInstances does instances _) ?_
      simp
    · rename_i ends
      rw [Bool.not_eq_true] at ends
      rw [← Prod.mk.eta (p := (foreachParameters callback parameters s).2), ends] at one ⊢
      refine one.ended ?_
      rw [← mapInstances_eq_self_iff, eq_comm (a := mapInstances change instances)]
      simp

/-- **When a walk that may end does what a change of all parameters does.** -/
theorem outcome_foreachParameters (does : callback.Does change stops told) :
    ∀ (parameters : List (Parameter β γ)) (s : σ), Outcome change stops told (leavesOf parameters) s
      (foreachParameters callback parameters s).2
      ((foreachParameters callback parameters s).1 = mapParameters change parameters)
  | [], s => Outcome.nil rfl
  | parameter :: parameters, s => by
    have one := outcome_foreach does parameter s
    rw [foreachParameters, leavesOf, mapParameters]
    dsimp only
    split
    · rename_i goes
      rw [← Prod.mk.eta (p := (parameter.foreach callback s).2), goes] at one
      refine one.goesOn (outcome_foreachParameters does parameters _) ?_
      simp
    · rename_i ends
      rw [Bool.not_eq_true] at ends
      rw [← Prod.mk.eta (p := (parameter.foreach callback s).2), ends] at one ⊢
      refine one.ended ?_
      rw [← mapParameters_eq_self_iff, eq_comm (a := mapParameters change parameters)]
      simp

end

end Walks

end Gebr.Geoxml.Reset
