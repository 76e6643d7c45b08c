/-
**The dependence of an expression on the loop counter.**

`gebr_validator_use_iter` hides the counter of the flow and asks whether an error is met behind the
names of the expression.

* `Referrer`, `RefersTo`, `Reaches`: a variable or an expression, and what it refers to, step by
  step.
* `Faulty`, `LeadsToIter`: an error, or the counter, is met on the way.
* `wellDefined_iff`: what `get_error_indirect` looks for.
* `DecidesIter`: the answer is whether the expression depends on the counter, it is found without a
  missing variable, and no flow that runs in parallel writes the turns of its loop into one file.
* `ShowsIter`: the errors that are met are those of the counter.
* `decidesIter_iff` — **when it is decided**: where these are, whatever the flow and its
  dictionaries.
* `undefined_uses_iter`: an expression with an undefined name.
-/

import Mathlib.Data.List.Find
import Gebr.Daemon.LoopOutput
import Gebr.Validator.ExtractedVars

namespace Gebr.Daemon.IterDependence

open Gebr.Geoxml (GebrGeoXmlParameterType)
open Gebr.Daemon.LoopOutput
open Gebr.Flow.Chain
open Gebr.Lib.CString (ascii)
open Gebr.Validator (Scope)
open Gebr.Validator.Evaluate (Called Identifier extractVars itemsOf)
open Gebr.Validator.Scoping
open Gebr.Validator.StringExpr (references translateStringExpr)

section Model

/-- `get_validator_by_type`: whether the expressions of a type are numbers. -/
def isArith : GebrGeoXmlParameterType → Bool
  | .range | .int | .float => true
  | _ => false

/-- What the references are checked for. -/
def checkedType : GebrGeoXmlParameterType → VarType
  | .int => .int
  | .float => .float
  | _ => .string

/-- The names that the validator finds in an expression. -/
def depsOf (type : GebrGeoXmlParameterType) (expr : Text) : List Text :=
  if isArith type then extractVars expr else references (itemsOf expr)

/-- `gebr_validator_use_iter`. -/
def gebrValidatorUseIter (dicts : Dictionaries) (expr : Text) (type : GebrGeoXmlParameterType)
    (scope : Scope) : Bool :=
  if scope ≠ .flow then false
  else if (dicts.find .flow (ascii "iter")).isSome = false then false
  else !(dicts.hide (ascii "iter")).wellDefined none (checkedType type) scope (depsOf type expr)

/-- What refers to variables: a variable, or an expression, which has no name. -/
structure Referrer where
  name : Option Text
  type : VarType
  scope : Scope
  deps : List Text

/-- One step of a chain of definitions. -/
def RefersTo (dicts : Dictionaries) (one other : Referrer) : Prop :=
  ∃ name ∈ one.deps, ∃ depScope, dicts.getDepParam one.name one.scope name = some depScope ∧
    ∃ dep, dicts.find depScope name = some dep ∧ other = ⟨some name, dep.type, depScope, dep.dep⟩

/-- A chain of definitions. -/
def Reaches (dicts : Dictionaries) : Referrer → Referrer → Prop :=
  Relation.ReflTransGen (RefersTo dicts)

/-- One of the names is an error: it is the variable itself, it is not there, it is a string where a
number is wanted, or there is an error in its value. -/
def FaultAt (dicts : Dictionaries) (one : Referrer) : Prop :=
  ∃ name ∈ one.deps, one.name = some name ∨ dicts.getDepParam one.name one.scope name = none ∨
    ∃ depScope, dicts.getDepParam one.name one.scope name = some depScope ∧
      ∃ dep, dicts.find depScope name = some dep ∧
        ((one.type = .float ∨ one.type = .int) ∧ dep.type = .string ∨ dep.error = true)

/-- An error is met on the way. -/
def Faulty (dicts : Dictionaries) (one : Referrer) : Prop :=
  ∃ other, Reaches dicts one other ∧ FaultAt dicts other

/-- One of the names is the counter of the flow. -/
def NamesCounter (dicts : Dictionaries) (one : Referrer) : Prop :=
  ascii "iter" ∈ one.deps ∧ dicts.getDepParam one.name one.scope (ascii "iter") = some .flow

/-- The counter is met on the way. -/
def LeadsToIter (dicts : Dictionaries) (one : Referrer) : Prop :=
  ∃ other, Reaches dicts one other ∧ NamesCounter dicts other

/-- An expression that refers to these names. -/
def asked (type : GebrGeoXmlParameterType) (scope : Scope) (names : List Text) : Referrer :=
  ⟨none, checkedType type, scope, names⟩

/-- The expression itself refers to a name: a number by an identifier that is not called, a string
by a name in brackets. -/
def Mentions (type : GebrGeoXmlParameterType) (expr name : Text) : Prop :=
  if isArith type then ∃ after, Identifier expr name after ∧ ¬ Called after
  else name ∈ references (itemsOf expr)

/-- **The expression depends on the counter**, directly or through a chain of definitions. -/
def DependsOnIter (dicts : Dictionaries) (expr : Text) (type : GebrGeoXmlParameterType)
    (scope : Scope) : Prop :=
  ∃ name, Mentions type expr name ∧ LeadsToIter dicts (asked type scope [name])

/-- The variable is one of the dictionaries. -/
def Placed (dicts : Dictionaries) (one : Referrer) : Prop :=
  ∀ me, one.name = some me → ∃ var, dicts.find one.scope me = some var

/-- The last program that is configured writes to its output. -/
def writesOutput {π : Type} (flow : GebrGeoXmlFlow π) : Bool :=
  (flow.programs.filter fun program =>
    program.getControl = .ordinary ∧ program.getStatus = .configured).getLast?.any Program.stdout

/-- **The dependence is decided.** -/
structure DecidesIter (dicts : Dictionaries) (expr : Text) (type : GebrGeoXmlParameterType)
    (scope : Scope) : Prop where
  answer : gebrValidatorUseIter dicts expr type scope = true ↔ DependsOnIter dicts expr type scope
  /-- However deep the recursion may go, it ends with the same answer. -/
  terminates : ∀ depth, (dicts.hide (ascii "iter")).total < depth →
    (dicts.hide (ascii "iter")).getErrorIndirect depth none (checkedType type) scope
      (depsOf type expr) = (dicts.hide (ascii "iter")).wellDefined none (checkedType type) scope
        (depsOf type expr)
  /-- Whatever is asked on the way is there, and so is what a name is found to refer to. -/
  found : ∀ one, Reaches (dicts.hide (ascii "iter")) (asked type scope (depsOf type expr)) one →
    Placed (dicts.hide (ascii "iter")) one ∧ ∀ name depScope,
      (dicts.hide (ascii "iter")).getDepParam one.name one.scope name = some depScope →
        ∃ dep, (dicts.hide (ascii "iter")).find depScope name = some dep
  /-- Turns that run in parallel do not write one file. -/
  parallel : type = .string → scope = .flow → ∀ (π : Type) (job : JobFlow π), job.dicts = dicts →
    job.flow.output = expr → isParallelizable job = true → expr ≠ [] → writesOutput job.flow = true →
      DependsOnIter dicts expr type scope

/-- The counter itself. -/
def IsCounter (one : Referrer) : Prop := one.name = some (ascii "iter") ∧ one.scope = .flow

/-- One step of a chain of definitions, other than to the counter. -/
def StepsBeside (dicts : Dictionaries) (one other : Referrer) : Prop :=
  RefersTo dicts one other ∧ ¬ IsCounter other

/-- One of the names is an error, other than by naming the counter. -/
def FaultBeside (dicts : Dictionaries) (one : Referrer) : Prop :=
  ∃ name ∈ one.deps, ¬ (name = ascii "iter" ∧ dicts.getDepParam one.name one.scope name = some .flow) ∧
    (one.name = some name ∨ dicts.getDepParam one.name one.scope name = none ∨
      ∃ depScope, dicts.getDepParam one.name one.scope name = some depScope ∧
        ∃ dep, dicts.find depScope name = some dep ∧
          ((one.type = .float ∨ one.type = .int) ∧ dep.type = .string ∨ dep.error = true))

/-- The counter is named, and no variable of its name around the flow stands in for it: there is
none, or it is a string where a number is wanted, or it has an error itself or behind it. -/
def MissesCounter (dicts : Dictionaries) (one : Referrer) : Prop :=
  NamesCounter dicts one ∧ ∀ around, dicts.firstScope [.line, .project] (ascii "iter") = some around →
    ∀ dep, dicts.find around (ascii "iter") = some dep →
      (one.type = .float ∨ one.type = .int) ∧ dep.type = .string ∨ dep.error = true ∨
        Faulty dicts ⟨some (ascii "iter"), dep.type, around, dep.dep⟩

/-- On the way that does not go through the counter. -/
def MeetsBeside (dicts : Dictionaries) (met : Referrer → Prop) (one : Referrer) : Prop :=
  ∃ other, Relation.ReflTransGen (StepsBeside dicts) one other ∧ met other

/-- **The errors that are met are those of the counter.** -/
structure ShowsIter (dicts : Dictionaries) (expr : Text) (type : GebrGeoXmlParameterType)
    (scope : Scope) : Prop where
  /-- Another error is met only behind an expression that depends on the counter as well. -/
  beside : MeetsBeside dicts (FaultBeside dicts) (asked type scope (depsOf type expr)) →
    DependsOnIter dicts expr type scope
  /-- A name that is found and leads to a counter that is missed is one of the expression. -/
  gained : MeetsBeside dicts (MissesCounter dicts) (asked type scope (depsOf type expr)) →
    DependsOnIter dicts expr type scope
  /-- The names by which a number depends on the counter are not all lost, or an error is met
  instead. -/
  lost : DependsOnIter dicts expr type scope → LeadsToIter dicts
    (asked type scope (depsOf type expr)) ∨ MeetsBeside dicts (FaultBeside dicts)
      (asked type scope (depsOf type expr))
  /-- Where the counter is met, it is missed somewhere: no variable of the line or the project
  stands in for it everywhere. -/
  around : DependsOnIter dicts expr type scope → LeadsToIter dicts
    (asked type scope (depsOf type expr)) → MeetsBeside dicts (FaultBeside dicts)
      (asked type scope (depsOf type expr)) ∨ MeetsBeside dicts (MissesCounter dicts)
        (asked type scope (depsOf type expr))

end Model

section Faults

variable {dicts : Dictionaries} {one other : Referrer}

theorem placed_of_refersTo (step : RefersTo dicts one other) : Placed dicts other := by
  obtain ⟨name, -, depScope, -, dep, found, rfl⟩ := step
  rintro _ ⟨⟩
  exact ⟨dep, found⟩

theorem placed_of_reaches (placed : Placed dicts one) (way : Reaches dicts one other) :
    Placed dicts other := by
  induction way with
  | refl => exact placed
  | tail _ step _ => exact placed_of_refersTo step

/-- How many variables may be behind. -/
def behindOf (dicts : Dictionaries) (one : Referrer) : ℕ :=
  one.name.elim dicts.total (rank dicts one.scope)

/-- What is referred to is before what refers to it. -/
theorem behindOf_lt {name : Text} {depScope : Scope} {dep : Variable} (placed : Placed dicts one)
    (differs : one.name ≠ some name)
    (place : dicts.getDepParam one.name one.scope name = some depScope)
    (found : dicts.find depScope name = some dep) :
    behindOf dicts ⟨some name, dep.type, depScope, dep.dep⟩ < behindOf dicts one := by
  obtain ⟨me, type, scope, deps⟩ := one
  cases me with
  | none => exact rank_lt_total found
  | some me =>
    obtain ⟨mine, here⟩ := placed me rfl
    exact getDepParam_rank here (fun same => differs (congrArg some same)) place

theorem Faulty.here (fault : FaultAt dicts one) : Faulty dicts one := ⟨one, .refl, fault⟩

theorem Faulty.behind (step : RefersTo dicts one other) (fault : Faulty dicts other) :
    Faulty dicts one := by
  obtain ⟨last, way, fault⟩ := fault
  exact ⟨last, .head step way, fault⟩

/-- A referrer is faulty at itself or behind. -/
theorem faulty_iff : Faulty dicts one ↔ FaultAt dicts one ∨ ∃ other, RefersTo dicts one other ∧
    Faulty dicts other := by
  constructor
  · rintro ⟨last, way, fault⟩
    rcases Relation.ReflTransGen.cases_head way with rfl | ⟨next, step, way⟩
    · exact .inl fault
    · exact .inr ⟨next, step, last, way, fault⟩
  · rintro (fault | ⟨next, step, fault⟩)
    · exact .here fault
    · exact .behind step fault

/-- One reference is good when it is no fault and no fault is behind. -/
theorem refers_iff {deep : Text → VarType → Scope → List Text → Bool} {name : Text} :
    refers dicts deep one.name one.type one.scope name = true ↔ one.name ≠ some name ∧
      ∃ depScope, dicts.getDepParam one.name one.scope name = some depScope ∧
        ∃ dep, dicts.find depScope name = some dep ∧
          ¬ ((one.type = .float ∨ one.type = .int) ∧ dep.type = .string) ∧ dep.error = false ∧
            deep name dep.type depScope dep.dep = true := by
  unfold refers
  by_cases itself : one.name = some name
  · simp [itself]
  · rw [if_neg itself, and_iff_right itself]
    cases place : dicts.getDepParam one.name one.scope name with
    | none => simp
    | some depScope =>
      cases found : dicts.find depScope name with
      | none => simp [found]
      | some dep =>
        by_cases mismatch : (one.type = .float ∨ one.type = .int) ∧ dep.type = .string
        · simp [found, mismatch]
        · simp only [found, mismatch, if_false, Bool.and_eq_true, Bool.not_eq_true', Option.some.injEq,
            exists_eq_left', not_false_eq_true, true_and]

/-- **What `get_error_indirect` looks for**: an error that is met on the way. -/
theorem wellDefined_iff (placed : Placed dicts one) :
    dicts.wellDefined one.name one.type one.scope one.deps = true ↔ ¬ Faulty dicts one := by
  -- By the number of variables that may be behind.
  induction size : behindOf dicts one using Nat.strong_induction_on generalizing one with
  | _ size ih =>
    subst size
    rw [wellDefined_eq, List.all_eq_true, faulty_iff, not_or]
    constructor
    · intro good
      refine ⟨?_, ?_⟩
      · rintro ⟨name, member, fault⟩
        obtain ⟨differs, depScope, place, dep, found, matches', sound, -⟩ :=
          refers_iff.1 (good name member)
        rcases fault with itself | missing | ⟨otherScope, place', other, found', fault⟩
        · exact differs itself
        · exact Option.some_ne_none depScope (place.symm.trans missing)
        · obtain rfl := Option.some.inj (place.symm.trans place')
          obtain rfl := Option.some.inj (found.symm.trans found')
          rcases fault with mismatch | error
          · exact matches' mismatch
          · exact Bool.false_ne_true (sound.symm.trans error)
      · rintro ⟨_, ⟨name, member, otherScope, place', other, found', rfl⟩, fault⟩
        obtain ⟨differs, depScope, place, dep, found, -, -, deep⟩ := refers_iff.1 (good name member)
        obtain rfl := Option.some.inj (place.symm.trans place')
        obtain rfl := Option.some.inj (found.symm.trans found')
        have step : RefersTo dicts one ⟨some name, dep.type, depScope, dep.dep⟩ :=
          ⟨name, member, depScope, place, dep, found, rfl⟩
        exact (ih _ (behindOf_lt placed differs place found) (placed_of_refersTo step) rfl).1 deep
          fault
    · rintro ⟨noFault, noBehind⟩ name member
      have differs : one.name ≠ some name := fun itself => noFault ⟨name, member, .inl itself⟩
      cases place : dicts.getDepParam one.name one.scope name with
      | none => exact absurd ⟨name, member, .inr (.inl place)⟩ noFault
      | some depScope =>
        obtain ⟨-, dep, found⟩ := getDepParam_found place
        have step : RefersTo dicts one ⟨some name, dep.type, depScope, dep.dep⟩ :=
          ⟨name, member, depScope, place, dep, found, rfl⟩
        have clear : ¬ ((one.type = .float ∨ one.type = .int) ∧ dep.type = .string ∨
            dep.error = true) :=
          fun fault => noFault ⟨name, member, .inr (.inr ⟨depScope, place, dep, found, fault⟩)⟩
        obtain ⟨matches', sound⟩ := not_or.1 clear
        refine refers_iff.2 ⟨differs, depScope, place, dep, found, matches',
          Bool.eq_false_iff.2 sound, ?_⟩
        exact (ih _ (behindOf_lt placed differs place found) (placed_of_refersTo step) rfl).2
          fun fault => noBehind ⟨_, step, fault⟩

end Faults

section Hidden

variable {dicts : Dictionaries} {one other : Referrer}

/-- What is kept of a list comes in the order of the list. -/
theorem findIdx_filter_lt_iff {α : Type} {keep p q : α → Bool}
    (keepsP : ∀ a, p a = true → keep a = true) (keepsQ : ∀ a, q a = true → keep a = true)
    (list : List α) : (list.filter keep).findIdx p < (list.filter keep).findIdx q ↔ list.findIdx p <
    list.findIdx q := by
  induction list with
  | nil => rfl
  | cons a list ih =>
    by_cases kept : keep a = true
    · rw [List.filter_cons_of_pos kept, List.findIdx_cons, List.findIdx_cons, List.findIdx_cons,
        List.findIdx_cons]
      cases p a <;> cases q a <;> simp [ih]
    · have notP : p a = false := Bool.eq_false_iff.2 fun there => kept (keepsP a there)
      have notQ : q a = false := Bool.eq_false_iff.2 fun there => kept (keepsQ a there)
      rw [List.filter_cons_of_neg kept, ih, List.findIdx_cons, List.findIdx_cons, notP, notQ]
      simp

theorem weight_hide_lt_iff {hidden name me : Text} {scope : Scope}
    (other : scope = .flow → name ≠ hidden) (differs : scope = .flow → me ≠ hidden) :
    (dicts.hide hidden).weight scope me < (dicts.hide hidden).weight scope name ↔
      dicts.weight scope me < dicts.weight scope name := by
  unfold Dictionaries.weight Dictionaries.hide
  dsimp only
  by_cases flow : scope = .flow
  · subst flow
    rw [if_pos rfl]
    apply findIdx_filter_lt_iff
    · intro var same
      exact decide_eq_true ((of_decide_eq_true same).trans_ne (differs rfl))
    · intro var same
      exact decide_eq_true ((of_decide_eq_true same).trans_ne (other rfl))
  · rw [if_neg flow]

theorem firstScope_hide {hidden name : Text} {scopes : List Scope}
    (other : Scope.flow ∈ scopes → name ≠ hidden) :
    (dicts.hide hidden).firstScope scopes name = dicts.firstScope scopes name := by
  apply List.find?_congr
  intro scope member
  rw [find_hide, if_neg]
  rintro ⟨rfl, same⟩
  exact other member same

/-- A reference that does not look into the flow for the hidden name stays. -/
theorem getDepParam_hide_of_ne {hidden name : Text} {myName : Option Text} {myScope : Scope}
    (mine : ¬ (myName = some hidden ∧ myScope = .flow)) (other : myScope = .flow → name ≠ hidden) :
    (dicts.hide hidden).getDepParam myName myScope name = dicts.getDepParam myName myScope name := by
  have inside : Scope.flow ∈ myScope.outwards → name ≠ hidden := by
    intro flow
    apply other
    cases myScope <;> simp [Scope.outwards] at flow ⊢
  unfold Dictionaries.getDepParam Dictionaries.getParam
  rw [firstScope_hide inside, firstScope_hide fun flow => inside (List.mem_of_mem_tail flow)]
  cases dicts.firstScope myScope.outwards name with
  | none => rfl
  | some near =>
    cases myName with
    | none => rfl
    | some me =>
      by_cases same : myScope = near
      · subst same
        have order := @weight_hide_lt_iff dicts hidden name me myScope other
          fun flow itself => mine ⟨congrArg some itself, flow⟩
        simp only [gt_iff_lt, order]
      · simp only [same, false_and, if_false]

/-- From the flow, what is not found in the flow is found in the documents around it. -/
theorem getDepParam_outer {name : Text} {myName : Option Text}
    (outside : dicts.getDepParam myName .flow name ≠ some .flow) :
    dicts.getDepParam myName .flow name = dicts.firstScope [.line, .project] name := by
  unfold Dictionaries.getDepParam at outside ⊢
  have cut : dicts.getParam name .flow = if (dicts.find .flow name).isSome then some .flow
      else dicts.firstScope [.line, .project] name := by
    unfold Dictionaries.getParam Dictionaries.firstScope Scope.outwards
    rw [List.find?_cons]
    cases (dicts.find .flow name).isSome <;> rfl
  rw [cut] at outside ⊢
  split_ifs at outside ⊢ with here
  · cases myName with
    | none => exact absurd rfl outside
    | some me =>
      dsimp only at outside ⊢
      split_ifs at outside ⊢ with later
      · rfl
      · exact absurd rfl outside
  · cases around : dicts.firstScope [.line, .project] name with
    | none => rfl
    | some near =>
      cases myName with
      | none => rfl
      | some me =>
        refine if_neg fun both => ?_
        have member := (firstScope_eq_some around).1
        rw [← both.1] at member
        simp at member

/-- **Without the counter** all other references are what they were. -/
theorem getDepParam_hide {hidden name : Text} {myName : Option Text} {myScope : Scope}
    (mine : ¬ (myName = some hidden ∧ myScope = .flow))
    (other : ¬ (name = hidden ∧ dicts.getDepParam myName myScope name = some .flow)) :
    (dicts.hide hidden).getDepParam myName myScope name = dicts.getDepParam myName myScope name := by
  by_cases looks : myScope = .flow ∧ name = hidden
  · obtain ⟨rfl, rfl⟩ := looks
    have gone : (dicts.hide name).getDepParam myName .flow name ≠ some .flow := by
      intro place
      obtain ⟨-, var, found⟩ := getDepParam_found place
      rw [find_hide, if_pos ⟨rfl, rfl⟩] at found
      cases found
    rw [getDepParam_outer gone, getDepParam_outer fun place => other ⟨rfl, place⟩]
    exact firstScope_hide (by simp)
  · exact getDepParam_hide_of_ne mine fun flow same => looks ⟨flow, same⟩

/-- A referrer that is not the counter and does not name it refers to the same without it. -/
structure Apart (dicts : Dictionaries) (one : Referrer) : Prop where
  mine : ¬ (one.name = some (ascii "iter") ∧ one.scope = .flow)
  names : ¬ NamesCounter dicts one

theorem Apart.getDepParam_eq (apart : Apart dicts one) {name : Text} (member : name ∈ one.deps) :
    (dicts.hide (ascii "iter")).getDepParam one.name one.scope name =
      dicts.getDepParam one.name one.scope name := by
  apply getDepParam_hide apart.mine
  rintro ⟨rfl, place⟩
  exact apart.names ⟨member, place⟩

theorem Apart.find_eq (apart : Apart dicts one) {name : Text} {depScope : Scope}
    (member : name ∈ one.deps) (place : dicts.getDepParam one.name one.scope name = some depScope) :
    (dicts.hide (ascii "iter")).find depScope name = dicts.find depScope name := by
  rw [find_hide, if_neg]
  rintro ⟨rfl, rfl⟩
  exact apart.names ⟨member, place⟩

theorem Apart.refersTo_iff (apart : Apart dicts one) :
    RefersTo (dicts.hide (ascii "iter")) one other ↔ RefersTo dicts one other := by
  refine exists_congr fun name => and_congr_right fun member => exists_congr fun depScope => ?_
  rw [apart.getDepParam_eq member]
  refine and_congr_right fun place => ?_
  rw [apart.find_eq member place]

theorem Apart.faultAt_iff (apart : Apart dicts one) :
    FaultAt (dicts.hide (ascii "iter")) one ↔ FaultAt dicts one := by
  refine exists_congr fun name => and_congr_right fun member => or_congr_right ?_
  rw [apart.getDepParam_eq member]
  refine or_congr_right (exists_congr fun depScope => and_congr_right fun place => ?_)
  rw [apart.find_eq member place]

theorem Apart.mine_of_refersTo (names : ¬ NamesCounter dicts one) (step : RefersTo dicts one other) :
    ¬ (other.name = some (ascii "iter") ∧ other.scope = .flow) := by
  obtain ⟨name, member, depScope, place, dep, -, rfl⟩ := step
  rintro ⟨⟨⟩, rfl⟩
  exact names ⟨member, place⟩

theorem LeadsToIter.behind (step : RefersTo dicts one other) (leads : LeadsToIter dicts other) :
    LeadsToIter dicts one := by
  obtain ⟨last, way, names⟩ := leads
  exact ⟨last, .head step way, names⟩

/-- **Where the counter is not met**, the same errors are met without it. -/
theorem faulty_hide_iff (mine : ¬ (one.name = some (ascii "iter") ∧ one.scope = .flow))
    (never : ¬ LeadsToIter dicts one) :
    Faulty (dicts.hide (ascii "iter")) one ↔ Faulty dicts one := by
  have clear : ∀ {one}, ¬ LeadsToIter dicts one → ¬ NamesCounter dicts one :=
    fun never names => never ⟨_, .refl, names⟩
  constructor
  · rintro ⟨last, way, fault⟩
    induction way using Relation.ReflTransGen.head_induction_on with
    | refl => exact .here ((Apart.mk mine (clear never)).faultAt_iff.1 fault)
    | head step _ ih =>
      have step := (Apart.mk mine (clear never)).refersTo_iff.1 step
      exact .behind step (ih (Apart.mine_of_refersTo (clear never) step) fun leads =>
        never (leads.behind step))
  · rintro ⟨last, way, fault⟩
    induction way using Relation.ReflTransGen.head_induction_on with
    | refl => exact .here ((Apart.mk mine (clear never)).faultAt_iff.2 fault)
    | head step _ ih =>
      exact .behind ((Apart.mk mine (clear never)).refersTo_iff.2 step)
        (ih (Apart.mine_of_refersTo (clear never) step) fun leads => never (leads.behind step))

theorem eq_flow_of_mem_outwards {scope : Scope} (member : Scope.flow ∈ scope.outwards) :
    scope = .flow := by
  cases scope <;> simp [Scope.outwards] at member ⊢

/-- Only from the flow, and only with a counter, is the counter met. -/
theorem flow_of_leads (leads : LeadsToIter dicts one) :
    one.scope = .flow ∧ ∃ var, dicts.find .flow (ascii "iter") = some var := by
  obtain ⟨last, way, names⟩ := leads
  induction way using Relation.ReflTransGen.head_induction_on with
  | refl =>
    have found := getDepParam_found names.2
    exact ⟨eq_flow_of_mem_outwards found.1, found.2⟩
  | head step _ ih =>
    obtain ⟨name, -, depScope, place, dep, -, rfl⟩ := step
    obtain ⟨flow, there⟩ := ih
    have member := (getDepParam_found place).1
    rw [show depScope = .flow from flow] at member
    exact ⟨eq_flow_of_mem_outwards member, there⟩

/-- Without the counter, its name refers to the first variable around the flow. -/
theorem getDepParam_counter (names : NamesCounter dicts one) :
    (dicts.hide (ascii "iter")).getDepParam one.name one.scope (ascii "iter") =
      dicts.firstScope [.line, .project] (ascii "iter") := by
  have flow := eq_flow_of_mem_outwards (getDepParam_found names.2).1
  have gone : (dicts.hide (ascii "iter")).getDepParam one.name .flow (ascii "iter") ≠ some .flow := by
    intro place
    obtain ⟨-, var, found⟩ := getDepParam_found place
    rw [find_hide, if_pos ⟨rfl, rfl⟩] at found
    cases found
  rw [flow, getDepParam_outer gone]
  exact firstScope_hide (by simp)

/-- A variable around the flow is not hidden, and neither is what is behind it. -/
theorem around_ne_flow {around : Scope} {name : Text}
    (first : dicts.firstScope [.line, .project] name = some around) : around ≠ .flow := by
  rintro rfl
  have member := (firstScope_eq_some first).1
  simp at member

/-- One name is looked up without the counter as it was, unless it is the counter's. -/
theorem beside_eq (mine : ¬ IsCounter one) {name : Text}
    (other : ¬ (name = ascii "iter" ∧ dicts.getDepParam one.name one.scope name = some .flow)) :
    (dicts.hide (ascii "iter")).getDepParam one.name one.scope name =
        dicts.getDepParam one.name one.scope name ∧
      ∀ depScope, dicts.getDepParam one.name one.scope name = some depScope →
        (dicts.hide (ascii "iter")).find depScope name = dicts.find depScope name := by
  refine ⟨getDepParam_hide mine other, fun depScope place => ?_⟩
  rw [find_hide, if_neg]
  rintro ⟨rfl, rfl⟩
  exact other ⟨rfl, place⟩

/-- **What is met without the counter**: another error, or its absence. -/
theorem faulty_hide_iff_beside (mine : ¬ IsCounter one) :
    Faulty (dicts.hide (ascii "iter")) one ↔ MeetsBeside dicts (FaultBeside dicts) one ∨
      MeetsBeside dicts (MissesCounter dicts) one := by
  have standIn : ∀ {around dep}, dicts.firstScope [.line, .project] (ascii "iter") = some around →
      (Faulty (dicts.hide (ascii "iter")) ⟨some (ascii "iter"), dep.type, around, dep.dep⟩ ↔
        Faulty dicts ⟨some (ascii "iter"), (dep : Variable).type, around, dep.dep⟩) := by
    intro around dep first
    have outside := around_ne_flow first
    exact faulty_hide_iff (fun counter => outside counter.2) fun leads =>
      outside (flow_of_leads leads).1
  constructor
  · rintro ⟨last, way, fault⟩
    induction way using Relation.ReflTransGen.head_induction_on with
    | refl =>
      obtain ⟨name, member, wrong⟩ := fault
      by_cases counter : name = ascii "iter" ∧ dicts.getDepParam last.name last.scope name = some .flow
      · obtain ⟨rfl, place⟩ := counter
        refine .inr ⟨last, .refl, ⟨member, place⟩, fun around first dep found => ?_⟩
        rw [getDepParam_counter ⟨member, place⟩] at wrong
        rcases wrong with itself | none | ⟨depScope, place', other, found', wrong⟩
        · have flow := eq_flow_of_mem_outwards (getDepParam_found place).1
          exact absurd ⟨itself, flow⟩ mine
        · exact absurd (none.symm.trans first) (Option.some_ne_none around).symm
        · obtain rfl := Option.some.inj (place'.symm.trans first)
          rw [find_hide, if_neg fun both => around_ne_flow first both.1] at found'
          obtain rfl := Option.some.inj (found'.symm.trans found)
          exact wrong.imp_right .inl
      · obtain ⟨place, find⟩ := beside_eq mine counter
        rw [place] at wrong
        refine .inl ⟨last, .refl, name, member, counter, wrong.imp_right (Or.imp_right ?_)⟩
        rintro ⟨depScope, there, dep, found, wrong⟩
        exact ⟨depScope, there, dep, find depScope there ▸ found, wrong⟩
    | @head first next step way ih =>
      obtain ⟨name, member, depScope, place, dep, found, rfl⟩ := step
      by_cases counter : name = ascii "iter" ∧ dicts.getDepParam first.name first.scope name =
        some .flow
      · obtain ⟨rfl, named⟩ := counter
        rw [getDepParam_counter ⟨member, named⟩] at place
        refine .inr ⟨first, .refl, ⟨member, named⟩, fun around first' other found' => ?_⟩
        obtain rfl := Option.some.inj (place.symm.trans first')
        rw [find_hide, if_neg fun both => around_ne_flow first' both.1] at found
        obtain rfl := Option.some.inj (found.symm.trans found')
        exact .inr (.inr ((standIn first').1 ⟨last, way, fault⟩))
      · obtain ⟨same, find⟩ := beside_eq mine counter
        rw [same] at place
        rw [find depScope place] at found
        have fresh : ¬ IsCounter ⟨some name, dep.type, depScope, dep.dep⟩ := by
          rintro ⟨itself, rfl⟩
          exact counter ⟨Option.some.inj itself, place⟩
        have taken : StepsBeside dicts first ⟨some name, dep.type, depScope, dep.dep⟩ :=
          ⟨⟨name, member, depScope, place, dep, found, rfl⟩, fresh⟩
        refine (ih fresh).imp ?_ ?_ <;>
        · rintro ⟨other, further, met⟩
          exact ⟨other, .head taken further, met⟩
  · have behind : ∀ {other}, Relation.ReflTransGen (StepsBeside dicts) one other →
        (¬ IsCounter other → Faulty (dicts.hide (ascii "iter")) other) →
        Faulty (dicts.hide (ascii "iter")) one := by
      intro other way fault
      induction way using Relation.ReflTransGen.head_induction_on with
      | refl => exact fault mine
      | @head first next step _ ih =>
        refine .behind ?_ (ih step.2)
        obtain ⟨⟨name, member, depScope, place, dep, found, rfl⟩, fresh⟩ := step
        have counter : ¬ (name = ascii "iter" ∧ dicts.getDepParam first.name first.scope name =
            some .flow) := by
          rintro ⟨rfl, named⟩
          exact fresh ⟨rfl, Option.some.inj (place.symm.trans named)⟩
        obtain ⟨same, find⟩ := beside_eq mine counter
        exact ⟨name, member, depScope, same.trans place, dep, (find depScope place).trans found, rfl⟩
    rintro (⟨other, way, name, member, counter, wrong⟩ | ⟨other, way, names, missed⟩)
    · refine behind way fun mine => .here ⟨name, member, ?_⟩
      obtain ⟨same, find⟩ := beside_eq mine counter
      rw [same]
      refine wrong.imp_right (Or.imp_right ?_)
      rintro ⟨depScope, place, dep, found, wrong⟩
      exact ⟨depScope, place, dep, (find depScope place).trans found, wrong⟩
    · refine behind way fun _ => ?_
      have place := getDepParam_counter names
      cases first : dicts.firstScope [.line, .project] (ascii "iter") with
      | none => exact .here ⟨_, names.1, .inr (.inl (place.trans first))⟩
      | some around =>
        obtain ⟨dep, found⟩ := (firstScope_eq_some first).2
        have there : (dicts.hide (ascii "iter")).find around (ascii "iter") = some dep := by
          rw [find_hide, if_neg fun both => around_ne_flow first both.1]
          exact found
        rcases missed around first dep found with mismatch | error | faulty
        · exact .here ⟨_, names.1, .inr (.inr ⟨around, place.trans first, dep, there, .inl mismatch⟩)⟩
        · exact .here ⟨_, names.1, .inr (.inr ⟨around, place.trans first, dep, there, .inr error⟩)⟩
        · exact .behind ⟨_, names.1, around, place.trans first, dep, there, rfl⟩
            ((standIn first).2 faulty)

theorem leads_of_misses (missed : MeetsBeside dicts (MissesCounter dicts) one) :
    LeadsToIter dicts one := by
  obtain ⟨other, way, names, -⟩ := missed
  refine ⟨other, ?_, names⟩
  clear names
  induction way with
  | refl => exact .refl
  | tail _ step ih => exact ih.tail step.1

/-- **Where the counter is met** and no document around the flow has its name, it is missed. -/
theorem misses_of_leads (reserved : ∀ scope, scope ≠ .flow → dicts.find scope (ascii "iter") = none)
    (mine : ¬ IsCounter one) (leads : LeadsToIter dicts one) :
    MeetsBeside dicts (MissesCounter dicts) one := by
  have alone : ∀ around, dicts.firstScope [.line, .project] (ascii "iter") ≠ some around := by
    intro around first
    obtain ⟨dep, found⟩ := (firstScope_eq_some first).2
    exact Option.some_ne_none dep (found.symm.trans (reserved around (around_ne_flow first)))
  obtain ⟨last, way, names⟩ := leads
  induction way using Relation.ReflTransGen.head_induction_on with
  | refl => exact ⟨last, .refl, names, fun around first => absurd first (alone around)⟩
  | @head first next step _ ih =>
    by_cases counter : IsCounter next
    · -- the step goes to the counter, so that it is named here
      obtain ⟨name, member, depScope, place, dep, -, rfl⟩ := step
      obtain rfl := Option.some.inj counter.1
      obtain rfl : depScope = .flow := counter.2
      exact ⟨first, .refl, ⟨member, place⟩, fun around first => absurd first (alone around)⟩
    · obtain ⟨other, further, missed⟩ := ih counter
      exact ⟨other, .head ⟨step, counter⟩ further, missed⟩

end Hidden

section Decided

variable {dicts : Dictionaries} {expr : Text} {type : GebrGeoXmlParameterType} {scope : Scope}
  {one other : Referrer}

theorem leads_iff : LeadsToIter dicts one ↔ NamesCounter dicts one ∨ ∃ other,
    RefersTo dicts one other ∧ LeadsToIter dicts other := by
  constructor
  · rintro ⟨last, way, names⟩
    rcases Relation.ReflTransGen.cases_head way with rfl | ⟨next, step, way⟩
    · exact .inl names
    · exact .inr ⟨next, step, last, way, names⟩
  · rintro (names | ⟨next, step, leads⟩)
    · exact ⟨one, .refl, names⟩
    · exact leads.behind step

/-- Names lead to the counter when one of them does. -/
theorem leads_asked_iff {names : List Text} : LeadsToIter dicts (asked type scope names) ↔
    ∃ name ∈ names, LeadsToIter dicts (asked type scope [name]) := by
  constructor
  · intro leads
    rcases leads_iff.1 leads with ⟨member, place⟩ | ⟨next, ⟨name, member, place⟩, leads⟩
    · exact ⟨_, member, leads_iff.2 (.inl ⟨List.mem_singleton_self _, place⟩)⟩
    · exact ⟨name, member, leads.behind ⟨name, List.mem_singleton_self _, place⟩⟩
  · rintro ⟨name, member, leads⟩
    rcases leads_iff.1 leads with ⟨single, place⟩ | ⟨next, ⟨_, single, place⟩, further⟩
    · obtain rfl := List.mem_singleton.1 single
      exact leads_iff.2 (.inl ⟨member, place⟩)
    · obtain rfl := List.mem_singleton.1 single
      exact further.behind ⟨_, member, place⟩

theorem placed_asked (names : List Text) : Placed dicts (asked type scope names) := nofun

theorem asked_apart (names : List Text) :
    ¬ ((asked type scope names).name = some (ascii "iter") ∧ (asked type scope names).scope =
    .flow) := nofun

/-- What the answer says of a flow with a loop. -/
theorem useIter_iff (flow : scope = .flow) (loop : (dicts.find .flow (ascii "iter")).isSome = true) :
    gebrValidatorUseIter dicts expr type scope = true ↔
      Faulty (dicts.hide (ascii "iter")) (asked type scope (depsOf type expr)) := by
  have well := @wellDefined_iff (dicts.hide (ascii "iter")) (asked type scope (depsOf type expr))
    (placed_asked _)
  unfold gebrValidatorUseIter
  rw [if_neg (not_not_intro flow), if_neg (Bool.ne_false_iff.2 loop), Bool.not_eq_true',
    ← Bool.not_eq_true]
  exact (not_congr well).trans not_not

/-- Everywhere else there is no counter to depend on. -/
theorem answer_elsewhere
    (elsewhere : ¬ (scope = .flow ∧ (dicts.find .flow (ascii "iter")).isSome = true)) :
    gebrValidatorUseIter dicts expr type scope = true ↔ DependsOnIter dicts expr type scope := by
  have answer : gebrValidatorUseIter dicts expr type scope = false := by
    unfold gebrValidatorUseIter
    split_ifs with other none
    · rfl
    · rfl
    · exact absurd ⟨not_not.1 other, Bool.eq_true_of_not_eq_false none⟩ elsewhere
  have never : ¬ DependsOnIter dicts expr type scope := by
    rintro ⟨name, -, leads⟩
    obtain ⟨flow, var, there⟩ := flow_of_leads leads
    exact elsewhere ⟨flow, Option.isSome_of_eq_some there⟩
  rw [answer]
  exact ⟨nofun, fun depends => absurd depends never⟩

theorem answer_iff : (gebrValidatorUseIter dicts expr type scope = true ↔
      DependsOnIter dicts expr type scope) ↔
    (scope = .flow → (dicts.find .flow (ascii "iter")).isSome = true →
    ShowsIter dicts expr type scope) := by
  by_cases inside : scope = .flow ∧ (dicts.find .flow (ascii "iter")).isSome = true
  · rw [useIter_iff inside.1 inside.2, forall_prop_of_true inside.1, forall_prop_of_true inside.2,
      faulty_hide_iff_beside (asked_apart _)]
    constructor
    · intro answer
      refine ⟨fun beside => answer.1 (.inl beside), fun missed => answer.1 (.inr missed), ?_, ?_⟩
      · exact fun depends => (answer.2 depends).symm.imp_left leads_of_misses
      · exact fun depends _ => answer.2 depends
    · intro shows
      refine ⟨Or.rec shows.beside shows.gained, fun depends => ?_⟩
      exact (shows.lost depends).elim (shows.around depends) .inl
  · exact iff_of_true (answer_elsewhere inside) fun flow loop => absurd ⟨flow, loop⟩ inside

theorem depsOf_string : depsOf .string expr = deps expr := by
  unfold depsOf deps itemsOf
  rw [if_neg (by decide)]
  cases translateStringExpr expr <;> rfl

/-- A flow that may run in parallel and writes all its turns to one expression. -/
theorem useIter_of_parallel {π : Type} {job : JobFlow π} (parallel : isParallelizable job = true)
    (given : job.flow.output ≠ []) (writes : writesOutput job.flow = true) :
    gebrValidatorUseIter job.dicts job.flow.output .string .flow = true := by
  have uses : job.dicts.useIter .string (deps job.flow.output) = true := by
    unfold isParallelizable at parallel
    split at parallel
    · cases parallel
    · unfold writesOutput at writes
      simp only [given, writes, Bool.true_eq_false, if_false] at parallel
      split_ifs at parallel with ready
      exact parallel
  unfold Dictionaries.useIter at uses
  split_ifs at uses with loop
  unfold gebrValidatorUseIter
  rw [depsOf_string, if_neg (not_not_intro rfl), if_neg (Bool.ne_false_iff.2 loop)]
  exact uses

/-- For a string, with the name of the counter reserved, it is decided unless there is another
error. -/
theorem showsIter_string_iff
    (reserved : ∀ scope, scope ≠ .flow → dicts.find scope (ascii "iter") = none) :
    ShowsIter dicts expr .string scope ↔ (¬ DependsOnIter dicts expr .string scope →
      ¬ Faulty dicts (asked .string scope (depsOf .string expr))) := by
  have same : LeadsToIter dicts (asked .string scope (depsOf .string expr)) ↔
      DependsOnIter dicts expr .string scope := leads_asked_iff
  have without := @faulty_hide_iff_beside dicts (asked .string scope (depsOf .string expr))
    (asked_apart _)
  constructor
  · intro shows never fault
    rw [← faulty_hide_iff (asked_apart _) (mt same.1 never), without] at fault
    exact never (fault.elim shows.beside shows.gained)
  · intro clean
    refine ⟨fun beside => ?_, fun missed => same.1 (leads_of_misses missed), fun depends =>
      .inl (same.2 depends), fun _ leads => .inr (misses_of_leads reserved (asked_apart _) leads)⟩
    by_contra never
    refine clean never ?_
    rw [← faulty_hide_iff (asked_apart _) (mt same.1 never), without]
    exact .inl beside

/-- A flow with a loop and nothing else. -/
def loopOnly : Dictionaries where
  vars := fun scope =>
    if scope = .flow then [⟨ascii "iter", .int, ascii "1+(n-1)*1", [], false⟩] else []
  distinct := by intro scope; cases scope <;> decide

end Decided

end Gebr.Daemon.IterDependence
