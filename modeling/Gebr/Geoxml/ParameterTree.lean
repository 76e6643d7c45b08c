/-
**Two walks over the parameters of a program.**

A group has instances, and an instance may be exclusive, with one of its parameters selected. The
library walks over all parameters, and a callback asks of each whether it is selected in the
instance that it is in; the daemon goes into the selected parameter of an instance alone.

* `Parameter`: the tree.
* `foreachParameters`, `parseParameters`: the two walks. Both end at the first failure.
* `validatedParameters`, `parsedParameters`: the parameters that they come to.
* `foreachParameters_eq`, `parseParameters_eq`: each walk goes over its list.
* `run_result`, `run_told`: what a run over a list does, by what is done at each parameter.
* `parsedParameters_sublist` — **what is parsed was validated**.
* `parsedParameters_eq_iff` — **the two lists are one** iff no group is beside a selected parameter.
-/

import Gebr.Geoxml.Selection

namespace Gebr.Geoxml.Tree

variable {α γ σ : Type}

section Model

/-- A parameter: one that is no group, or a group with what else it has and its instances. -/
inductive Parameter (α γ : Type) where
  | program (parameter : α)
  | group (rest : γ) (instances : List (GebrGeoXmlParameters (Parameter α γ)))

/-- Whether the parameter at a place is one that the callback is to look at. -/
def isSelected (selected : Option ℕ) (place : ℕ) : Bool := selected = none || selected = some place

mutual

/-- `gebr_geoxml_parameters_foreach`, with what the callback finds out about the instance that a
parameter is in. -/
def Parameter.foreach (callback : Bool → α → Bool) (selected : Bool) : Parameter α γ → Bool
  | .program parameter => callback selected parameter
  | .group _ instances => foreachInstances callback instances

def foreachInstances (callback : Bool → α → Bool) : List (GebrGeoXmlParameters (Parameter α γ)) → Bool
  | [] => true
  | ⟨parameters, default, selection⟩ :: instances =>
    foreachParameters callback (GebrGeoXmlParameters.getSelection ⟨parameters, default, selection⟩) 0
      parameters && foreachInstances callback instances

def foreachParameters (callback : Bool → α → Bool) (selected : Option ℕ) (place : ℕ) :
    List (Parameter α γ) → Bool
  | [] => true
  | parameter :: parameters =>
    parameter.foreach callback (isSelected selected place) &&
      foreachParameters callback selected (place + 1) parameters

end

/-- What comes next is done unless there was a failure. -/
def andThen (after : σ × Bool) (next : σ → σ × Bool) : σ × Bool :=
  if after.2 then next after.1 else after

mutual

/-- `job_parse_parameter`, with what is done at a parameter that is no group. -/
def Parameter.parse (leaf : α → σ → σ × Bool) : Parameter α γ → σ → σ × Bool
  | .program parameter, s => leaf parameter s
  | .group _ instances, s => parseInstances leaf instances s

def parseInstances (leaf : α → σ → σ × Bool) :
    List (GebrGeoXmlParameters (Parameter α γ)) → σ → σ × Bool
  | [], s => (s, true)
  | ⟨parameters, default, selection⟩ :: instances, s =>
    andThen
      (match GebrGeoXmlParameters.getSelection ⟨parameters, default, selection⟩ with
        | some place => parseAt leaf parameters place s
        | none => parseParameters leaf parameters s)
      (parseInstances leaf instances)

/-- `job_parse_parameters`. -/
def parseParameters (leaf : α → σ → σ × Bool) : List (Parameter α γ) → σ → σ × Bool
  | [], s => (s, true)
  | parameter :: parameters, s => andThen (parameter.parse leaf s) (parseParameters leaf parameters)

/-- `job_parse_parameter` of the parameter at a place. -/
def parseAt (leaf : α → σ → σ × Bool) : List (Parameter α γ) → ℕ → σ → σ × Bool
  | [], _, s => (s, true)
  | parameter :: _, 0, s => parameter.parse leaf s
  | _ :: parameters, place + 1, s => parseAt leaf parameters place s

end

end Model

section Lists

mutual

/-- The parameters that the callback looks at. -/
def Parameter.validated (selected : Bool) : Parameter α γ → List α
  | .program parameter => if selected then [parameter] else []
  | .group _ instances => validatedInstances instances

def validatedInstances : List (GebrGeoXmlParameters (Parameter α γ)) → List α
  | [] => []
  | ⟨parameters, default, selection⟩ :: instances =>
    validatedParameters (GebrGeoXmlParameters.getSelection ⟨parameters, default, selection⟩) 0
      parameters ++ validatedInstances instances

def validatedParameters (selected : Option ℕ) (place : ℕ) : List (Parameter α γ) → List α
  | [] => []
  | parameter :: parameters =>
    parameter.validated (isSelected selected place) ++ validatedParameters selected
      (place + 1) parameters

end

mutual

/-- The parameters that the daemon parses, if none of them fails. -/
def Parameter.parsed : Parameter α γ → List α
  | .program parameter => [parameter]
  | .group _ instances => parsedInstances instances

def parsedInstances : List (GebrGeoXmlParameters (Parameter α γ)) → List α
  | [] => []
  | ⟨parameters, default, selection⟩ :: instances =>
    (match GebrGeoXmlParameters.getSelection ⟨parameters, default, selection⟩ with
      | some place => parsedAt parameters place
      | none => parsedParameters parameters) ++ parsedInstances instances

def parsedParameters : List (Parameter α γ) → List α
  | [] => []
  | parameter :: parameters => parameter.parsed ++ parsedParameters parameters

def parsedAt : List (Parameter α γ) → ℕ → List α
  | [], _ => []
  | parameter :: _, 0 => parameter.parsed
  | _ :: parameters, place + 1 => parsedAt parameters place

end

/-- A walk over a list that ends at the first failure. -/
def run (leaf : α → σ → σ × Bool) : List α → σ → σ × Bool
  | [], s => (s, true)
  | parameter :: parameters, s => andThen (leaf parameter s) (run leaf parameters)

theorem andThen_assoc (after : σ × Bool) (next last : σ → σ × Bool) :
    andThen (andThen after next) last = andThen after fun s => andThen (next s) last := by
  obtain ⟨s, well⟩ := after
  cases well <;> rfl

theorem run_append (leaf : α → σ → σ × Bool) (front back : List α) (s : σ) :
    run leaf (front ++ back) s = andThen (run leaf front s) (run leaf back) := by
  induction front generalizing s with
  | nil => rfl
  | cons parameter front ih =>
    rw [List.cons_append, run, run, andThen_assoc]
    congr 1
    funext s
    exact ih s

theorem run_singleton (leaf : α → σ → σ × Bool) (parameter : α) (s : σ) :
    run leaf [parameter] s = leaf parameter s := by
  rw [run]
  obtain ⟨after, well⟩ := leaf parameter s
  cases well <;> rfl

/-- A run succeeds iff every parameter does, when that does not depend on what was before. -/
theorem run_result {leaf : α → σ → σ × Bool} {Good : α → Prop}
    (result : ∀ parameter s, (leaf parameter s).2 = true ↔ Good parameter) (parameters : List α)
    (s : σ) : (run leaf parameters s).2 = true ↔ ∀ parameter ∈ parameters, Good parameter := by
  induction parameters generalizing s with
  | nil => exact iff_of_true rfl nofun
  | cons parameter parameters ih =>
    rw [run, List.forall_mem_cons, ← result parameter s, andThen]
    by_cases well : (leaf parameter s).2 = true
    · rw [if_pos well, ih, and_iff_right well]
    · rw [if_neg well]
      exact ⟨fun other => absurd other well, fun all => absurd all.1 well⟩

/-- What is there after a run was there before it or comes from one of the parameters. -/
theorem run_told {leaf : α → σ → σ × Bool} {Holds : σ → Prop} {Told : α → Prop}
    (tells : ∀ parameter s, Holds (leaf parameter s).1 → Holds s ∨ Told parameter)
    (parameters : List α) (s : σ) (after : Holds (run leaf parameters s).1) :
    Holds s ∨ ∃ parameter ∈ parameters, Told parameter := by
  induction parameters generalizing s with
  | nil => exact .inl after
  | cons parameter parameters ih =>
    rw [run, andThen] at after
    have here : Holds (leaf parameter s).1 → Holds s ∨ ∃ other ∈ parameter :: parameters, Told other :=
      fun holds => (tells parameter s holds).imp_right fun told =>
        ⟨parameter, List.mem_cons_self, told⟩
    split at after
    · rcases ih _ after with holds | ⟨other, member, told⟩
      · exact here holds
      · exact .inr ⟨other, List.mem_cons_of_mem parameter member, told⟩
    · exact here after

variable {check : α → Bool} {leaf : α → σ → σ × Bool}

mutual

theorem Parameter.foreach_eq (selected : Bool) : ∀ parameter : Parameter α γ,
    parameter.foreach (fun selected parameter => !selected || check parameter) selected =
      (parameter.validated selected).all check
  | .program parameter => by
    cases selected with
    | false => rfl
    | true => exact (Bool.and_true _).symm
  | .group _ instances => foreachInstances_eq instances

theorem foreachInstances_eq : ∀ instances : List (GebrGeoXmlParameters (Parameter α γ)),
    foreachInstances (fun selected parameter => !selected || check parameter) instances =
      (validatedInstances instances).all check
  | [] => rfl
  | ⟨parameters, _, _⟩ :: instances => by
    rw [foreachInstances, validatedInstances, List.all_append, foreachParameters_eq _ _ parameters,
      foreachInstances_eq instances]

/-- **The walk of the library** goes over the parameters that are selected where they are. -/
theorem foreachParameters_eq (selected : Option ℕ) (place : ℕ) : ∀ parameters : List (Parameter α γ),
    foreachParameters (fun selected parameter => !selected || check parameter) selected
      place parameters = (validatedParameters selected place parameters).all check
  | [] => rfl
  | parameter :: parameters => by
    rw [foreachParameters, validatedParameters, List.all_append, Parameter.foreach_eq _ parameter,
      foreachParameters_eq selected (place + 1) parameters]

end

mutual

theorem Parameter.parse_eq : ∀ parameter :
    Parameter α γ, parameter.parse leaf = run leaf parameter.parsed
  | .program parameter => by
    funext s
    exact (run_singleton leaf parameter s).symm
  | .group _ instances => by
    funext s
    rw [Parameter.parse, parseInstances_eq instances, Parameter.parsed]

theorem parseInstances_eq : ∀ instances : List (GebrGeoXmlParameters (Parameter α γ)),
    parseInstances leaf instances = run leaf (parsedInstances instances)
  | [] => by
    funext s
    rfl
  | ⟨parameters, default, selection⟩ :: instances => by
    funext s
    rw [parseInstances, parsedInstances, run_append, parseInstances_eq instances]
    cases GebrGeoXmlParameters.getSelection ⟨parameters, default, selection⟩ with
    | none => exact congrArg (andThen · _) (congrFun (parseParameters_eq parameters) s)
    | some place => exact congrArg (andThen · _) (congrFun (parseAt_eq parameters place) s)

/-- **The walk of the daemon** goes over the parameters that it goes into. -/
theorem parseParameters_eq : ∀ parameters : List (Parameter α γ),
    parseParameters leaf parameters = run leaf (parsedParameters parameters)
  | [] => by
    funext s
    rfl
  | parameter :: parameters => by
    funext s
    rw [parseParameters, parsedParameters, run_append, Parameter.parse_eq parameter,
      parseParameters_eq parameters]

theorem parseAt_eq : ∀ (parameters : List (Parameter α γ)) (place : ℕ),
    parseAt leaf parameters place = run leaf (parsedAt parameters place)
  | [], _ => by
    funext s
    rfl
  | parameter :: _, 0 => by
    funext s
    rw [parseAt, Parameter.parse_eq parameter, parsedAt]
  | _ :: parameters, place + 1 => by
    funext s
    rw [parseAt, parseAt_eq parameters place, parsedAt]

end

end Lists

section Selected

theorem isSelected_none (place : ℕ) : isSelected none place = true := rfl

theorem isSelected_self (place : ℕ) : isSelected (some place) place = true := by simp [isSelected]

theorem isSelected_other {place selected : ℕ} (other : selected ≠ place) :
    isSelected (some selected) place = false := by simp [isSelected, other]

/-- A group holds nothing that the library would look at; of a single parameter nothing is asked. -/
def Parameter.Idle (parameter : Parameter α γ) : Prop := parameter.validated false = []

mutual

/-- No group with parameters to look at is beside a selected parameter, nor in what is parsed. -/
def Parameter.NoStray : Parameter α γ → Prop
  | .program _ => True
  | .group _ instances => NoStrayInInstances instances

def NoStrayInInstances : List (GebrGeoXmlParameters (Parameter α γ)) → Prop
  | [] => True
  | ⟨parameters, default, selection⟩ :: instances =>
    (match GebrGeoXmlParameters.getSelection ⟨parameters, default, selection⟩ with
      | some place => Alone parameters place
      | none => NoStray parameters) ∧ NoStrayInInstances instances

def NoStray : List (Parameter α γ) → Prop
  | [] => True
  | parameter :: parameters => parameter.NoStray ∧ NoStray parameters

/-- The parameter at a place has idle ones beside it. -/
def Alone : List (Parameter α γ) → ℕ → Prop
  | [], _ => True
  | parameter :: parameters, 0 => parameter.NoStray ∧ ∀ other ∈ parameters, other.Idle
  | parameter :: parameters, place + 1 => parameter.Idle ∧ Alone parameters place

end

/-- Of parameters that are all after the selected one, groups alone are looked at. -/
theorem validated_past {selected : ℕ} (parameters : List (Parameter α γ)) {place : ℕ}
    (past : selected < place) :
    validatedParameters (some selected) place parameters = [] ↔ ∀ other ∈ parameters, other.Idle := by
  induction parameters generalizing place with
  | nil => exact iff_of_true rfl fun _ member => absurd member List.not_mem_nil
  | cons parameter parameters ih =>
    rw [validatedParameters, isSelected_other (Nat.ne_of_lt past), List.append_eq_nil_iff,
      ih (Nat.lt_succ_of_lt past), List.forall_mem_cons]
    rfl

mutual

theorem Parameter.parsed_sublist : ∀ parameter : Parameter α γ,
    parameter.parsed.Sublist (parameter.validated true)
  | .program parameter => List.Sublist.refl [parameter]
  | .group _ instances => parsedInstances_sublist instances

theorem parsedInstances_sublist : ∀ instances : List (GebrGeoXmlParameters (Parameter α γ)),
    (parsedInstances instances).Sublist (validatedInstances instances)
  | [] => List.Sublist.refl []
  | ⟨parameters, default, selection⟩ :: instances => by
    rw [parsedInstances, validatedInstances]
    apply List.Sublist.append _ (parsedInstances_sublist instances)
    cases GebrGeoXmlParameters.getSelection ⟨parameters, default, selection⟩ with
    | none => exact parsedParameters_sublist parameters 0
    | some place =>
      have there := parsedAt_sublist parameters place 0
      rw [Nat.zero_add] at there
      exact there

/-- **What is parsed was validated.** -/
theorem parsedParameters_sublist : ∀ (parameters : List (Parameter α γ)) (place : ℕ),
    (parsedParameters parameters).Sublist (validatedParameters none place parameters)
  | [], _ => List.Sublist.refl []
  | parameter :: parameters, place => by
    rw [parsedParameters, validatedParameters, isSelected_none]
    exact (Parameter.parsed_sublist parameter).append (parsedParameters_sublist parameters (place + 1))

theorem parsedAt_sublist : ∀ (parameters : List (Parameter α γ)) (place start : ℕ),
    (parsedAt parameters place).Sublist (validatedParameters (some (start + place)) start parameters)
  | [], _, _ => List.Sublist.refl []
  | parameter :: parameters, 0, start => by
    rw [parsedAt, validatedParameters, Nat.add_zero, isSelected_self]
    exact (Parameter.parsed_sublist parameter).trans (List.sublist_append_left _ _)
  | parameter :: parameters, place + 1, start => by
    have there := parsedAt_sublist parameters place (start + 1)
    rw [Nat.add_right_comm] at there
    rw [parsedAt, validatedParameters]
    exact there.trans (List.sublist_append_right _ _)

end

/-- Two parts that are each within another part make the same whole only if each is the same. -/
theorem append_eq_append_iff_of_sublist {front front' back back' : List α}
    (first : front.Sublist front') (second : back.Sublist back') :
    front ++ back = front' ++ back' ↔ front = front' ∧ back = back' := by
  refine ⟨fun same => ?_, fun same => by rw [same.1, same.2]⟩
  have long := congrArg List.length same
  rw [List.length_append, List.length_append] at long
  have less := first.length_le
  have less' := second.length_le
  exact ⟨first.eq_of_length (by omega), second.eq_of_length (by omega)⟩

mutual

theorem Parameter.parsed_eq_iff : ∀ parameter : Parameter α γ,
    parameter.parsed = parameter.validated true ↔ parameter.NoStray
  | .program _ => by
    rw [Parameter.NoStray]
    exact iff_true_intro rfl
  | .group _ instances => by
    rw [Parameter.parsed, Parameter.validated, Parameter.NoStray]
    exact parsedInstances_eq_iff instances

theorem parsedInstances_eq_iff : ∀ instances : List (GebrGeoXmlParameters (Parameter α γ)),
    parsedInstances instances = validatedInstances instances ↔ NoStrayInInstances instances
  | [] => by
    rw [NoStrayInInstances]
    exact iff_true_intro rfl
  | ⟨parameters, default, selection⟩ :: instances => by
    have rest := parsedInstances_sublist instances
    rw [parsedInstances, validatedInstances, NoStrayInInstances]
    cases GebrGeoXmlParameters.getSelection ⟨parameters, default, selection⟩ with
    | none =>
      dsimp only
      rw [append_eq_append_iff_of_sublist (parsedParameters_sublist parameters 0) rest,
        parsedParameters_eq_iff parameters 0, parsedInstances_eq_iff instances]
    | some place =>
      have there := parsedAt_sublist parameters place 0
      have same := parsedAt_eq_iff parameters place 0
      rw [Nat.zero_add] at there same
      dsimp only
      rw [append_eq_append_iff_of_sublist there rest, same, parsedInstances_eq_iff instances]

/-- **Both walks come to the same parameters** iff no group is astray. -/
theorem parsedParameters_eq_iff : ∀ (parameters : List (Parameter α γ)) (place : ℕ),
    parsedParameters parameters = validatedParameters none place parameters ↔ NoStray parameters
  | [], _ => by
    rw [NoStray]
    exact iff_true_intro rfl
  | parameter :: parameters, place => by
    rw [parsedParameters, validatedParameters, isSelected_none, NoStray,
      append_eq_append_iff_of_sublist (Parameter.parsed_sublist parameter)
        (parsedParameters_sublist parameters (place + 1)),
      Parameter.parsed_eq_iff parameter, parsedParameters_eq_iff parameters (place + 1)]

theorem parsedAt_eq_iff : ∀ (parameters : List (Parameter α γ)) (place start : ℕ),
    parsedAt parameters place = validatedParameters (some (start + place)) start parameters ↔
      Alone parameters place
  | [], _, _ => by
    rw [Alone]
    exact iff_true_intro rfl
  | parameter :: parameters, 0, start => by
    have cut := append_eq_append_iff_of_sublist (Parameter.parsed_sublist parameter)
      (List.nil_sublist (validatedParameters (some start) (start + 1) parameters))
    rw [List.append_nil] at cut
    rw [parsedAt, validatedParameters, Nat.add_zero, isSelected_self, Alone, cut,
      Parameter.parsed_eq_iff parameter, eq_comm (a := []),
      validated_past parameters (Nat.lt_succ_self start)]
  | parameter :: parameters, place + 1, start => by
    have there := parsedAt_sublist parameters place (start + 1)
    have same := parsedAt_eq_iff parameters place (start + 1)
    rw [Nat.add_right_comm] at there same
    have cut := append_eq_append_iff_of_sublist (List.nil_sublist (parameter.validated false)) there
    rw [List.nil_append] at cut
    have other : isSelected (some (start + place + 1)) start = false := isSelected_other (by omega)
    rw [parsedAt, validatedParameters, Alone, ← Nat.add_assoc, other, cut, same, eq_comm (a := [])]
    rfl

end

end Selected

end Gebr.Geoxml.Tree
