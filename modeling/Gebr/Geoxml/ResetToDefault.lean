/-
**Reset to default.**

The reset walks over a tree of parameters and, at each one, over two lists at once: the values
become the defaults, with new values where there are too few and the extra ones removed. An instance
of a group gets its default selection.

* `ProgramParameter.reset`: the two loops, with the place in the list that they change.
* `copied`, `resetValues_eq`: what the loops come to.
* `Parameter.reset`, `resetInstances`, `resetParameters`: the recursion.
* `ParametersReset`, `ParametersKept`: what is to be reached, and what is to be left alone.
* `reset_complete` — **the reset is complete, changes nothing else and is idempotent**.
-/

import Gebr.Geoxml.ParameterTree

namespace Gebr.Geoxml.Reset

open Gebr.Lib.CString

section Model

/-- A `value` or a `default`, with the text that is read of it: one without line breaks. -/
@[ext]
structure GebrGeoXmlPropertyValue where
  text : Text
  oneLine : 10 ∉ text
  dictkeyword : Text

theorem removeLineBreak_oneLine (text : Text) : 10 ∉ gebrGeoxmlRemoveLineBreak text := by
  intro member
  simpa using (List.mem_filter.1 member).2

/-- `gebr_geoxml_value_sequence_set`. -/
def GebrGeoXmlPropertyValue.set (self : GebrGeoXmlPropertyValue) (value : Text) :
    GebrGeoXmlPropertyValue :=
  { self with text := gebrGeoxmlRemoveLineBreak value, oneLine := removeLineBreak_oneLine value }

theorem oneLine_nil : (10 : UInt8) ∉ ([] : Text) := List.not_mem_nil

/-- The node that `gebr_geoxml_program_parameter_append_value` makes. -/
def newValue : GebrGeoXmlPropertyValue := ⟨[], oneLine_nil, []⟩

/-- A parameter that is no group, with what else it has. The first value is the first `value` of the
parameter, so one of an option must not come before; a property has a value and a default. -/
@[ext]
structure ProgramParameter (β : Type) where
  rest : β
  values : List GebrGeoXmlPropertyValue
  defaults : List GebrGeoXmlPropertyValue
  options : List Text
  offered : options ≠ [] → values ≠ [] ∧ defaults ≠ []

/-- The loop over the defaults, with the place of `value`: the values, and the place where it
ends. -/
def copyDefaults : List GebrGeoXmlPropertyValue → List GebrGeoXmlPropertyValue → ℕ →
    List GebrGeoXmlPropertyValue × ℕ
  | [], values, place => (values, place)
  | default :: defaults, values, place =>
    let values := if place < values.length then values else values ++ [newValue]
    copyDefaults defaults (values.modify place fun value => value.set default.text) (place + 1)

/-- The loop that removes the extra values: a number of times the one at a place. -/
def removeExtras (place : ℕ) : ℕ → List GebrGeoXmlPropertyValue → List GebrGeoXmlPropertyValue
  | 0, values => values
  | extras + 1, values => removeExtras place extras (values.eraseIdx place)

/-- Both loops. -/
def resetValues (defaults values : List GebrGeoXmlPropertyValue) : List GebrGeoXmlPropertyValue :=
  let copied := copyDefaults defaults values 0
  removeExtras copied.2 (copied.1.length - copied.2) copied.1

end Model

section Values

/-- What the loops come to: a value for each default, the one that is there or a new one. -/
def copied : List GebrGeoXmlPropertyValue → List GebrGeoXmlPropertyValue → List GebrGeoXmlPropertyValue
  | [], _ => []
  | default :: defaults, values =>
    (values.head?.getD newValue).set default.text :: copied defaults values.tail

@[simp] theorem length_copied (defaults values : List GebrGeoXmlPropertyValue) :
    (copied defaults values).length = defaults.length := by
  induction defaults generalizing values with
  | nil => rfl
  | cons default defaults ih => exact congrArg (· + 1) (ih values.tail)

theorem texts_copied (defaults values : List GebrGeoXmlPropertyValue) :
    (copied defaults values).map GebrGeoXmlPropertyValue.text =
      defaults.map GebrGeoXmlPropertyValue.text := by
  induction defaults generalizing values with
  | nil => rfl
  | cons default defaults ih =>
    show gebrGeoxmlRemoveLineBreak default.text :: _ = default.text :: _
    rw [removeLineBreak_of_oneLine default.oneLine]
    exact congrArg (default.text :: ·) (ih values.tail)

/-- What else the values have stays, as far as they go, and the new ones have nothing. -/
theorem dictkeywords_copied (defaults values : List GebrGeoXmlPropertyValue) :
    (copied defaults values).map GebrGeoXmlPropertyValue.dictkeyword =
      (values.map GebrGeoXmlPropertyValue.dictkeyword).take defaults.length ++
        List.replicate (defaults.length - values.length) [] := by
  induction defaults generalizing values with
  | nil => simp [copied]
  | cons default defaults ih =>
    cases values with
    | nil => exact congrArg ([] :: ·) (by simpa using ih [])
    | cons value values =>
      exact congrArg (value.dictkeyword :: ·) (by simpa using ih values)

theorem copied_copied (defaults values : List GebrGeoXmlPropertyValue) :
    copied defaults (copied defaults values) = copied defaults values := by
  induction defaults generalizing values with
  | nil => rfl
  | cons default defaults ih => exact congrArg (_ :: ·) (ih values.tail)

theorem modify_at {α : Type} (front : List α) (a : α) (rest : List α) (act : α → α) :
    (front ++ a :: rest).modify front.length act = front ++ act a :: rest := by
  induction front with
  | nil => rfl
  | cons b front ih => exact congrArg (b :: ·) ih

theorem removeExtras_eq (front : List GebrGeoXmlPropertyValue) :
    ∀ extras, removeExtras front.length extras.length (front ++ extras) = front
  | [] => List.append_nil front
  | value :: extras => by
    show removeExtras front.length extras.length
      ((front ++ value :: extras).eraseIdx front.length) = front
    rw [List.eraseIdx_append_of_length_le le_rfl, Nat.sub_self]
    exact removeExtras_eq front extras

/-- One loop behind the values that are done: they stay, and what is left of the others is
behind. -/
theorem copyDefaults_eq (defaults : List GebrGeoXmlPropertyValue) :
    ∀ front values, copyDefaults defaults (front ++ values) front.length =
      (front ++ copied defaults values ++ values.drop defaults.length, front.length +
      defaults.length) := by
  induction defaults with
  | nil =>
    intro front values
    simp [copyDefaults, copied]
  | cons default defaults ih =>
    intro front values
    have set : (if front.length < (front ++ values).length then front ++ values
        else front ++ values ++ [newValue]).modify front.length (fun value => value.set default.text) =
        (front ++ [(values.head?.getD newValue).set default.text]) ++ values.tail := by
      cases values with
      | nil =>
        rw [if_neg (by simp), List.append_nil, modify_at]
        exact (List.append_nil _).symm
      | cons value values =>
        rw [if_pos (by simp), modify_at]
        exact List.append_cons front _ values
    unfold copyDefaults
    dsimp only
    rw [set]
    have next := ih (front ++ [(values.head?.getD newValue).set default.text]) values.tail
    rw [List.length_append, List.length_singleton] at next
    rw [next]
    simp [copied, Nat.add_comm, Nat.add_left_comm]

/-- **What the loops come to.** -/
theorem resetValues_eq (defaults values : List GebrGeoXmlPropertyValue) :
    resetValues defaults values = copied defaults values := by
  have loop := copyDefaults_eq defaults [] values
  have number : (copied defaults values).length = defaults.length := length_copied defaults values
  unfold resetValues
  dsimp only
  rw [List.length_nil, List.nil_append, List.nil_append, Nat.zero_add] at loop
  rw [loop, ← number, List.length_append, Nat.add_sub_cancel_left]
  exact removeExtras_eq _ _

end Values

section Trees

variable {β γ : Type}

/-- The loops on a parameter. -/
def ProgramParameter.reset (self : ProgramParameter β) : ProgramParameter β :=
  { self with
    values := resetValues self.defaults self.values
    offered := fun some_option => ⟨by
      rw [resetValues_eq]
      have some_default := (self.offered some_option).2
      rw [← List.length_pos_iff_ne_nil, length_copied]
      exact List.length_pos_iff_ne_nil.2 some_default, (self.offered some_option).2⟩ }

/-- A parameter with its values. -/
abbrev Parameter (β γ : Type) : Type := Tree.Parameter (ProgramParameter β) γ

/-- What is done to an instance behind the recursion. -/
def selectDefault (params : GebrGeoXmlParameters (Parameter β γ)) :
    GebrGeoXmlParameters (Parameter β γ) :=
  params.setSelection params.getDefaultSelection

mutual

/-- What is done to a parameter. -/
def Parameter.reset : Parameter β γ → Parameter β γ
  | .program parameter => .program parameter.reset
  | .group rest instances => .group rest (resetInstances instances)

/-- The loop over the instances. -/
def resetInstances : List (GebrGeoXmlParameters (Parameter β γ)) →
    List (GebrGeoXmlParameters (Parameter β γ))
  | [] => []
  | ⟨parameters, default, selection⟩ :: instances =>
    selectDefault ⟨resetParameters parameters, default, selection⟩ :: resetInstances instances

/-- `gebr_geoxml_parameters_reset_to_default`. -/
def resetParameters : List (Parameter β γ) → List (Parameter β γ)
  | [] => []
  | parameter :: parameters => parameter.reset :: resetParameters parameters

end

@[simp] theorem resetInstances_cons (params : GebrGeoXmlParameters (Parameter β γ))
    (instances : List (GebrGeoXmlParameters (Parameter β γ))) :
    resetInstances (params :: instances) =
      selectDefault { params with parameters := resetParameters params.parameters } ::
        resetInstances instances := rfl

@[simp] theorem length_resetParameters (parameters : List (Parameter β γ)) :
    (resetParameters parameters).length = parameters.length := by
  induction parameters with
  | nil => rfl
  | cons parameter parameters ih => exact congrArg (· + 1) ih

end Trees

section Selections

variable {β γ : Type} (params : GebrGeoXmlParameters (Parameter β γ))

theorem selectDefault_eq : selectDefault params =
    { params with
      selection :=
  params.getDefaultSelection.elim params.selection fun place => formatLong (place + 1) } := by
  unfold selectDefault GebrGeoXmlParameters.setSelection
  cases params.getDefaultSelection <;> rfl

@[simp] theorem parameters_selectDefault : (selectDefault params).parameters = params.parameters :=
  parameters_setSelection _

@[simp] theorem defaultSelection_selectDefault :
    (selectDefault params).defaultSelection = params.defaultSelection :=
  defaultSelection_setSelection _

theorem getDefaultSelection_selectDefault :
    (selectDefault params).getDefaultSelection = params.getDefaultSelection := by
  unfold GebrGeoXmlParameters.getDefaultSelection GebrGeoXmlParameters.selectedBy
  rw [parameters_selectDefault, defaultSelection_selectDefault]

/-- The default selection is what is selected then. -/
theorem getSelection_selectDefault :
    (selectDefault params).getSelection = (selectDefault params).getDefaultSelection := by
  have default := getDefaultSelection_selectDefault params
  unfold GebrGeoXmlParameters.getSelection
  cases found : params.getDefaultSelection with
  | none => rw [default, found]
  | some place =>
    have inside : place < params.parameters.length := lt_of_selectedBy found
    have small : place + 1 < 2 ^ 64 := lt_of_le_of_lt (le_of_selectedBy found) (atol_lt _)
    rw [default, found, selectDefault_eq, found]
    show GebrGeoXmlParameters.selectedBy _ (atol (formatLong (place + 1))) = some place
    rw [atol_formatLong small]
    unfold GebrGeoXmlParameters.selectedBy
    rw [if_neg (Nat.succ_ne_zero place), Nat.add_sub_cancel, if_pos inside]

theorem selectDefault_selectDefault : selectDefault (selectDefault params) = selectDefault params := by
  rw [selectDefault_eq (selectDefault params), getDefaultSelection_selectDefault,
    selectDefault_eq params]
  cases params.getDefaultSelection <;> rfl

end Selections

section Statement

variable {β γ : Type}

mutual

/-- Each program parameter has its defaults as its values, and each instance its default selection
as its selection. -/
def Parameter.IsReset : Parameter β γ → Prop
  | .program parameter => parameter.values.map GebrGeoXmlPropertyValue.text =
      parameter.defaults.map GebrGeoXmlPropertyValue.text
  | .group _ instances => InstancesReset instances

def InstancesReset : List (GebrGeoXmlParameters (Parameter β γ)) → Prop
  | [] => True
  | ⟨parameters, default, selection⟩ :: instances =>
    ParametersReset parameters ∧
      GebrGeoXmlParameters.getSelection ⟨parameters, default, selection⟩ =
        GebrGeoXmlParameters.getDefaultSelection ⟨parameters, default, selection⟩ ∧
      InstancesReset instances

def ParametersReset : List (Parameter β γ) → Prop
  | [] => True
  | parameter :: parameters => parameter.IsReset ∧ ParametersReset parameters

end

/-- All but the values is the same. The values that were there keep what else they have, and those
that are new have nothing. -/
structure ProgramParameter.Kept (before after : ProgramParameter β) : Prop where
  rest : after.rest = before.rest
  defaults : after.defaults = before.defaults
  options : after.options = before.options
  dictkeywords : after.values.map GebrGeoXmlPropertyValue.dictkeyword =
    (before.values.map GebrGeoXmlPropertyValue.dictkeyword).take before.defaults.length ++
      List.replicate (before.defaults.length - before.values.length) []

mutual

/-- Only values and the selections of exclusive instances are other ones. -/
def Parameter.Kept : Parameter β γ → Parameter β γ → Prop
  | .program before, .program after => before.Kept after
  | .group rest instances, .group rest' instances' => rest' = rest ∧ InstancesKept instances instances'
  | _, _ => False

def InstancesKept : List (GebrGeoXmlParameters (Parameter β γ)) →
    List (GebrGeoXmlParameters (Parameter β γ)) → Prop
  | [], [] => True
  | ⟨parameters, default, selection⟩ :: instances, ⟨parameters', default', selection'⟩ :: instances' =>
    ParametersKept parameters parameters' ∧ default' = default ∧
      (GebrGeoXmlParameters.getDefaultSelection ⟨parameters, default, selection⟩ = none →
        selection' = selection) ∧
      InstancesKept instances instances'
  | _, _ => False

def ParametersKept : List (Parameter β γ) → List (Parameter β γ) → Prop
  | [], [] => True
  | parameter :: parameters, parameter' :: parameters' =>
    parameter.Kept parameter' ∧ ParametersKept parameters parameters'
  | _, _ => False

end

end Statement

section Reset

variable {β γ : Type}

theorem instancesReset_cons (params : GebrGeoXmlParameters (Parameter β γ))
    (instances : List (GebrGeoXmlParameters (Parameter β γ))) :
    InstancesReset (params :: instances) ↔ ParametersReset params.parameters ∧
      params.getSelection = params.getDefaultSelection ∧ InstancesReset instances := Iff.rfl

theorem instancesKept_cons (params params' : GebrGeoXmlParameters (Parameter β γ))
    (instances instances' : List (GebrGeoXmlParameters (Parameter β γ))) :
    InstancesKept (params :: instances) (params' :: instances') ↔
      ParametersKept params.parameters params'.parameters ∧
        params'.defaultSelection = params.defaultSelection ∧
        (params.getDefaultSelection = none → params'.selection = params.selection) ∧
        InstancesKept instances instances' := Iff.rfl

theorem kept_reset_program (parameter : ProgramParameter β) : parameter.Kept parameter.reset where
  rest := rfl
  defaults := rfl
  options := rfl
  dictkeywords := by
    show (resetValues _ _).map _ = _
    rw [resetValues_eq, dictkeywords_copied]

theorem reset_reset_program (parameter : ProgramParameter β) :
    parameter.reset.reset = parameter.reset := by
  have values : parameter.reset.reset.values = parameter.reset.values := by
    show resetValues parameter.defaults (resetValues parameter.defaults parameter.values) =
      resetValues parameter.defaults parameter.values
    rw [resetValues_eq, resetValues_eq, copied_copied]
  exact ProgramParameter.ext rfl values rfl rfl

/-- The parameters of an instance are as many as before, so the default selection names the same. -/
theorem getDefaultSelection_resetParameters (params : GebrGeoXmlParameters (Parameter β γ)) :
    GebrGeoXmlParameters.getDefaultSelection
      { params with parameters := resetParameters params.parameters } =
      params.getDefaultSelection := by
  have empty : resetParameters params.parameters = [] ↔ params.parameters = [] := by
    rw [← List.length_eq_zero_iff, length_resetParameters, List.length_eq_zero_iff]
  unfold GebrGeoXmlParameters.getDefaultSelection GebrGeoXmlParameters.selectedBy
  simp only [length_resetParameters, empty]

theorem selectDefault_resetParameters {params : GebrGeoXmlParameters (Parameter β γ)}
    (done : resetParameters params.parameters = params.parameters) :
    selectDefault { params with parameters := resetParameters params.parameters } =
      selectDefault params := by rw [done]

mutual

theorem isReset_reset : ∀ parameter : Parameter β γ, parameter.reset.IsReset
  | .program parameter => by
    show (resetValues parameter.defaults parameter.values).map _ = _
    rw [resetValues_eq]
    exact texts_copied _ _
  | .group _ instances => instancesReset_reset instances

theorem instancesReset_reset : ∀ instances : List (GebrGeoXmlParameters (Parameter β γ)),
    InstancesReset (resetInstances instances)
  | [] => trivial
  | ⟨parameters, _, _⟩ :: instances => by
    rw [resetInstances_cons, instancesReset_cons, parameters_selectDefault]
    exact ⟨parametersReset_reset parameters, getSelection_selectDefault _,
      instancesReset_reset instances⟩

theorem parametersReset_reset : ∀ parameters : List (Parameter β γ),
    ParametersReset (resetParameters parameters)
  | [] => trivial
  | parameter :: parameters => ⟨isReset_reset parameter, parametersReset_reset parameters⟩

end

mutual

theorem kept_reset : ∀ parameter : Parameter β γ, parameter.Kept parameter.reset
  | .program parameter => kept_reset_program parameter
  | .group _ instances => ⟨rfl, instancesKept_reset instances⟩

theorem instancesKept_reset : ∀ instances : List (GebrGeoXmlParameters (Parameter β γ)),
    InstancesKept instances (resetInstances instances)
  | [] => trivial
  | ⟨parameters, default, selection⟩ :: instances => by
    rw [resetInstances_cons, instancesKept_cons, parameters_selectDefault,
      defaultSelection_selectDefault]
    refine ⟨parametersKept_reset parameters, rfl, fun free => ?_, instancesKept_reset instances⟩
    rw [selectDefault_eq, getDefaultSelection_resetParameters, free]
    rfl

theorem parametersKept_reset : ∀ parameters : List (Parameter β γ),
    ParametersKept parameters (resetParameters parameters)
  | [] => trivial
  | parameter :: parameters => ⟨kept_reset parameter, parametersKept_reset parameters⟩

end

mutual

theorem reset_reset : ∀ parameter : Parameter β γ, parameter.reset.reset = parameter.reset
  | .program parameter => congrArg Tree.Parameter.program (reset_reset_program parameter)
  | .group rest instances =>
    congrArg (Tree.Parameter.group rest) (resetInstances_resetInstances instances)

theorem resetInstances_resetInstances : ∀ instances : List (GebrGeoXmlParameters (Parameter β γ)),
    resetInstances (resetInstances instances) = resetInstances instances
  | [] => rfl
  | ⟨parameters, default, selection⟩ :: instances => by
    have again := resetParameters_resetParameters parameters
    rw [resetInstances_cons, resetInstances_cons, resetInstances_resetInstances instances,
      selectDefault_resetParameters (by rw [parameters_selectDefault, again]),
        selectDefault_selectDefault]

theorem resetParameters_resetParameters : ∀ parameters : List (Parameter β γ),
    resetParameters (resetParameters parameters) = resetParameters parameters
  | [] => rfl
  | parameter :: parameters => by
    show parameter.reset.reset :: resetParameters (resetParameters parameters) = _
    rw [reset_reset parameter, resetParameters_resetParameters parameters]
    rfl

end

/-- **The reset is complete, changes nothing else and is idempotent.** -/
theorem reset_complete (parameters : List (Parameter β γ)) :
    ParametersReset (resetParameters parameters) ∧
      ParametersKept parameters (resetParameters parameters) ∧
      resetParameters (resetParameters parameters) = resetParameters parameters :=
  ⟨parametersReset_reset parameters, parametersKept_reset parameters,
    resetParameters_resetParameters parameters⟩

end Reset

end Gebr.Geoxml.Reset
