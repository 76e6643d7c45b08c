/-
**The check of references on a variable table.**

`get_error_indirect` follows the references of a variable through the table, and `get_dep_param`
decides by the weights which variable a name refers to. It does not remember where it has been.

* `getDepParam`, `getErrorIndirect`: the two, on a table, with the names, errors and types that go
  with it.
* `Spread`: in each scope the table has finitely many names, and no two of them have one weight.
* `getDepParam_lower`: what a variable refers to is outside of its scope, or has a smaller weight.
* `terminates_of_spread` — **the check ends**, whatever refers to what.
* `Faulty`, `answer_iff` — **what it looks for**: a fault that is met behind the names.
-/

import Mathlib.Data.List.Pairwise
import Mathlib.Logic.Relation
import Gebr.Validator.Documents

namespace Gebr.Validator

open Gebr.Geoxml (GebrGeoXmlParameterType)

section Model

/-- What else the table and the documents have: the names that a value refers to, whether there is
an error in it, and the type of a parameter. -/
structure References where
  dep : Scope → String → List String
  error : Scope → String → Bool
  type : ℕ → GebrGeoXmlParameterType

/-- The first one of these scopes that has a parameter, and the parameter. -/
def HashData.findParam (data : HashData) (scopes : List Scope) : Option (Scope × ℕ) :=
  scopes.findSome? fun scope => (data.param scope).map (scope, ·)

/-- `get_dep_param`, with the scope of the parameter. -/
def getDepParam (vars : Vars) (myName : Option String) (myScope : Scope) (depName : String) :
    Option (Scope × ℕ) :=
  match vars depName with
  | none => none
  | some depData =>
    match depData.findParam myScope.outwards, myName with
    | none, _ => none
    | some found, none => some found
    | some found, some name =>
      match vars name with
      | none => none
      | some myData =>
        if myScope = found.1 ∧ depData.weight found.1 > myData.weight myScope then
          depData.findParam myScope.outwards.tail
        else some found

/-- The loop over the names: the first one that is wrong ends it, and so does one without an
answer. -/
def checkNames (check : String → Option Bool) : List String → Option Bool
  | [] => some true
  | depName :: depNames =>
    match check depName with
    | some true => checkNames check depNames
    | other => other

/-- `get_error_indirect`; without an answer where the calls are nested deeper than `fuel`. -/
def getErrorIndirect (vars : Vars) (refs : References) :
    ℕ → Option String → GebrGeoXmlParameterType → Scope → List String → Option Bool
  | 0, _, _, _, _ => none
  | fuel + 1, myName, myType, myScope, depNames =>
    checkNames (fun depName =>
      if myName = some depName then some false
      else if vars depName = none then some false
      else
        match getDepParam vars myName myScope depName with
        | none => some false
        | some (depScope, node) =>
          if (myType = .float ∨ myType = .int) ∧ refs.type node = .string then some false
          else if refs.error depScope depName then some false
          else getErrorIndirect vars refs fuel (some depName) (refs.type node) depScope
            (refs.dep depScope depName)) depNames

/-- The check ends, from every variable and expression and whatever refers to what. -/
def Terminates (vars : Vars) : Prop :=
  ∀ refs myName myType myScope depNames, ∃ fuel answer, ∀ more, fuel ≤ more →
    getErrorIndirect vars refs more myName myType myScope depNames = some answer

/-- In each scope the table has no names but these, and no two of them have one weight. -/
structure Spread (vars : Vars) (names : Scope → List String) : Prop where
  covered : ∀ scope name, entry vars scope name ≠ none → name ∈ names scope
  apart : ∀ scope name other node node' weight, entry vars scope name = some (node, weight) →
    entry vars scope other = some (node', weight) → name = other

end Model

section Resolved

variable {vars : Vars} {myScope depScope : Scope} {depName : String} {node : ℕ}

theorem findParam_some {data : HashData} (here : vars depName = some data) {scopes : List Scope}
    (found : data.findParam scopes = some (depScope, node)) :
    depScope ∈ scopes ∧ entry vars depScope depName = some (node, data.weight depScope) := by
  obtain ⟨scope, member, param⟩ := List.exists_of_findSome?_eq_some found
  obtain ⟨_, set, same⟩ := Option.map_eq_some_iff.1 param
  obtain ⟨rfl, rfl⟩ := Prod.mk.inj same
  refine ⟨member, ?_⟩
  rw [entry_some here, HashData.cell, set]
  rfl

theorem mem_outwards {inner outer : Scope} (member : outer ∈ inner.outwards) :
    outer = inner ∨ outer ∈ inner.outwards.tail := by
  cases inner <;> cases outer <;> simp_all [Scope.outwards]

/-- A name that refers to something refers to an entry of the table. -/
theorem getDepParam_entry {myName : Option String}
    (resolved : getDepParam vars myName myScope depName = some (depScope, node)) :
    depScope ∈ myScope.outwards ∧ ∃ weight, entry vars depScope depName = some (node, weight) := by
  unfold getDepParam at resolved
  cases here : vars depName with
  | none => rw [here] at resolved; cases resolved
  | some data =>
    rw [here] at resolved
    dsimp only at resolved
    cases near : data.findParam myScope.outwards with
    | none => rw [near] at resolved; cases resolved
    | some found =>
      rw [near] at resolved
      have first : ∀ pair, some pair = some (depScope, node) → some found = some pair →
          depScope ∈ myScope.outwards ∧ ∃ weight, entry vars depScope depName =
              some (node, weight) := by
        rintro _ ⟨⟩ ⟨⟩
        have there := findParam_some here near
        exact ⟨there.1, _, there.2⟩
      cases myName with
      | none => exact first _ resolved rfl
      | some me =>
        dsimp only at resolved
        split at resolved
        · cases resolved
        · split at resolved
          · have there := findParam_some here resolved
            exact ⟨List.mem_of_mem_tail there.1, _, there.2⟩
          · exact first _ resolved rfl

/-- **What a variable refers to** is outside of its scope, or has a weight that is not greater. -/
theorem getDepParam_lower {me : String} {mine : ℕ} {weight : ℚ}
    (here : entry vars myScope me = some (mine, weight))
    (resolved : getDepParam vars (some me) myScope depName = some (depScope, node)) :
    depScope ∈ myScope.outwards.tail ∨
      depScope = myScope ∧ ∃ lower, entry vars myScope depName = some (node, lower) ∧
      lower ≤ weight := by
  obtain ⟨myData, mySome, cell⟩ := Option.bind_eq_some_iff.1 here
  obtain ⟨_, -, same⟩ := Option.map_eq_some_iff.1 cell
  obtain ⟨-, rfl⟩ := Prod.mk.inj same
  unfold getDepParam at resolved
  cases depSome : vars depName with
  | none => rw [depSome] at resolved; cases resolved
  | some data =>
    rw [depSome] at resolved
    dsimp only at resolved
    cases near : data.findParam myScope.outwards with
    | none => rw [near] at resolved; cases resolved
    | some found =>
      rw [near] at resolved
      dsimp only at resolved
      rw [mySome] at resolved
      dsimp only at resolved
      split at resolved
      · exact .inl (findParam_some depSome resolved).1
      · rename_i early
        obtain rfl := Option.some.inj resolved
        have there := findParam_some depSome near
        rcases mem_outwards there.1 with rfl | outer
        · exact .inr ⟨rfl, _, there.2, not_lt.1 fun more => early ⟨rfl, more⟩⟩
        · exact .inl outer

/-- Where no two names have one weight, another name has a smaller one. -/
theorem getDepParam_lt {names : Scope → List String} (spread : Spread vars names) {me : String}
    {mine : ℕ} {weight : ℚ} (here : entry vars myScope me = some (mine, weight)) (other : me ≠ depName)
    (resolved : getDepParam vars (some me) myScope depName = some (depScope, node)) :
    depScope ∈ myScope.outwards.tail ∨
      depScope = myScope ∧ ∃ lower, entry vars myScope depName = some (node, lower) ∧
      lower < weight := by
  refine (getDepParam_lower here resolved).imp_right ?_
  rintro ⟨same, lower, there, le⟩
  refine ⟨same, lower, there, lt_of_le_of_ne le ?_⟩
  rintro rfl
  exact other (spread.apart myScope me depName mine node lower here there)

end Resolved

section Termination

variable {vars : Vars} {refs : References} {names : Scope → List String}

theorem checkNames_terminates {check : ℕ → String → Option Bool} {depNames : List String}
    (each : ∀ depName ∈ depNames, ∃ fuel answer, ∀ more, fuel ≤ more → check more depName =
    some answer) : ∃ fuel answer, ∀ more, fuel ≤ more → checkNames (check more) depNames =
    some answer := by
  induction depNames with
  | nil => exact ⟨0, true, fun _ _ => rfl⟩
  | cons depName depNames ih =>
    obtain ⟨first, answer, here⟩ := each depName List.mem_cons_self
    obtain ⟨rest, answers, later⟩ := ih fun name member =>
      each name (List.mem_cons_of_mem depName member)
    refine ⟨max first rest, answer && answers, fun more enough => ?_⟩
    rw [checkNames, here more (le_trans (le_max_left first rest) enough)]
    cases answer with
    | false => rfl
    | true => exact later more (le_trans (le_max_right first rest) enough)

theorem terminates_step {myName : Option String} {myType : GebrGeoXmlParameterType} {myScope : Scope}
    {depNames : List String}
    (behind : ∀ depName ∈ depNames, ∀ depScope node, myName ≠ some depName →
      getDepParam vars myName myScope depName = some (depScope, node) →
        ∃ fuel answer, ∀ more, fuel ≤ more → getErrorIndirect vars refs more (some depName)
          (refs.type node) depScope (refs.dep depScope depName) = some answer) :
    ∃ fuel answer, ∀ more, fuel ≤ more →
      getErrorIndirect vars refs more myName myType myScope depNames = some answer := by
  have each : ∀ depName ∈ depNames, ∃ fuel answer, ∀ more, fuel ≤ more →
      (if myName = some depName then some false
        else if vars depName = none then some false
        else
          match getDepParam vars myName myScope depName with
          | none => some false
          | some (depScope, node) =>
            if (myType = .float ∨ myType = .int) ∧ refs.type node = .string then some false
            else if refs.error depScope depName then some false
            else getErrorIndirect vars refs more (some depName) (refs.type node) depScope
              (refs.dep depScope depName)) = some answer := by
    intro depName member
    by_cases itself : myName = some depName
    · exact ⟨0, false, fun more _ => if_pos itself⟩
    · by_cases unknown : vars depName = none
      · exact ⟨0, false, fun more _ => by rw [if_neg itself, if_pos unknown]⟩
      · cases resolved : getDepParam vars myName myScope depName with
        | none => exact ⟨0, false, fun more _ => by rw [if_neg itself, if_neg unknown]⟩
        | some pair =>
          obtain ⟨fuel, answer, ends⟩ := behind depName member pair.1 pair.2 itself resolved
          simp only [if_neg itself, if_neg unknown]
          split_ifs
          · exact ⟨0, false, fun _ _ => rfl⟩
          · exact ⟨0, false, fun _ _ => rfl⟩
          · exact ⟨fuel, answer, ends⟩
  obtain ⟨fuel, answer, ends⟩ := checkNames_terminates each
  refine ⟨fuel + 1, answer, fun more enough => ?_⟩
  obtain ⟨more, rfl⟩ := Nat.exists_eq_succ_of_ne_zero (Nat.ne_zero_of_lt enough)
  exact ends more (Nat.le_of_succ_le_succ enough)

/-- How many scopes are around a scope. -/
def depth (scope : Scope) : ℕ := scope.outwards.tail.length

/-- How many names of the scope have a smaller weight. -/
def place (vars : Vars) (names : Scope → List String) (scope : Scope) (weight : ℚ) : ℕ :=
  (names scope).countP fun name => (entry vars scope name).any fun cell => cell.2 < weight

theorem depth_lt {inner outer : Scope} (member : outer ∈ inner.outwards.tail) :
    depth outer < depth inner := by
  cases inner <;> cases outer <;> simp_all [Scope.outwards, depth]

theorem place_lt (spread : Spread vars names) {scope : Scope} {name : String} {node : ℕ}
    {weight lower : ℚ} (there : entry vars scope name = some (node, lower)) (less : lower < weight) :
    place vars names scope lower < place vars names scope weight := by
  have member := spread.covered scope name (there ▸ Option.some_ne_none _)
  obtain ⟨front, back, split⟩ := List.append_of_mem member
  have more : ∀ list : List String,
      (list.countP fun name => (entry vars scope name).any fun cell => cell.2 < lower) ≤
        list.countP fun name => (entry vars scope name).any fun cell => cell.2 < weight := by
    intro list
    apply List.countP_mono_left
    intro other _ smaller
    rw [Option.any_eq_true] at smaller ⊢
    obtain ⟨cell, here, smaller⟩ := smaller
    exact ⟨cell, here, decide_eq_true ((of_decide_eq_true smaller).trans less)⟩
  have self' : (entry vars scope name).any (fun cell => decide (cell.2 < lower)) = false := by
    rw [there]
    exact decide_eq_false (lt_irrefl lower)
  have counted : (entry vars scope name).any (fun cell => decide (cell.2 < weight)) = true := by
    rw [there]
    exact decide_eq_true less
  have frontLe := more front
  have backLe := more back
  unfold place
  rw [split, List.countP_append, List.countP_append, List.countP_cons, List.countP_cons,
    self', counted]
  simp only [Bool.false_eq_true, if_false, if_true]
  omega

/-- **From a variable of the table** the check ends: the references go outwards, or down in
weight. -/
theorem terminates_of_entry (spread : Spread vars names) {me : String} {myScope : Scope} {mine : ℕ}
    {weight : ℚ} (here : entry vars myScope me = some (mine, weight))
    (myType : GebrGeoXmlParameterType) (depNames : List String) : ∃ fuel answer, ∀ more, fuel ≤ more →
      getErrorIndirect vars refs more (some me) myType myScope depNames = some answer := by
  apply terminates_step
  intro depName _ depScope node other resolved
  obtain ⟨lower, there⟩ := (getDepParam_entry resolved).2
  have differs : me ≠ depName := fun same => other (congrArg some same)
  rcases getDepParam_lt spread here differs resolved with outer | ⟨inside, lower', there', less⟩
  · have shallower := depth_lt outer
    exact terminates_of_entry spread there _ _
  · have earlier : place vars names depScope lower' < place vars names myScope weight := by
      rw [inside]
      exact place_lt spread there' less
    rw [← inside] at there'
    exact terminates_of_entry spread there' _ _
termination_by (depth myScope, place vars names myScope weight)
decreasing_by
  · exact Prod.Lex.left _ _ shallower
  · exact Prod.lex_def.2 (.inr ⟨congrArg depth inside, earlier⟩)

/-- **The check ends.** -/
theorem terminates_of_spread (spread : Spread vars names) : Terminates vars := by
  intro refs myName myType myScope depNames
  apply terminates_step
  intro depName _ depScope node _ resolved
  obtain ⟨weight, there⟩ := (getDepParam_entry resolved).2
  exact terminates_of_entry spread there _ _

end Termination

section Faults

variable {vars : Vars} {refs : References}

/-- What refers to variables: a variable, or an expression, which has no name. -/
structure Referring where
  name : Option String
  type : GebrGeoXmlParameterType
  scope : Scope
  deps : List String

/-- One step of a chain of definitions. -/
def RefersTo (vars : Vars) (refs : References) (one other : Referring) : Prop :=
  ∃ depName ∈ one.deps, ∃ depScope node, getDepParam vars one.name one.scope depName =
    some (depScope, node) ∧ other = ⟨some depName, refs.type node, depScope, refs.dep depScope depName⟩

/-- One of the names is a fault: it is the variable itself, it refers to nothing, to a string where
a number is wanted, or to a variable with an error in its value. -/
def FaultAt (vars : Vars) (refs : References) (one : Referring) : Prop :=
  ∃ depName ∈ one.deps, one.name = some depName ∨ getDepParam vars one.name one.scope depName = none ∨
    ∃ depScope node, getDepParam vars one.name one.scope depName = some (depScope, node) ∧
      ((one.type = .float ∨ one.type = .int) ∧ refs.type node = .string ∨
        refs.error depScope depName = true)

/-- A fault is met on the way. -/
def Faulty (vars : Vars) (refs : References) (one : Referring) : Prop :=
  ∃ other, Relation.ReflTransGen (RefersTo vars refs) one other ∧ FaultAt vars refs other

theorem faulty_iff {one : Referring} : Faulty vars refs one ↔ FaultAt vars refs one ∨
    ∃ other, RefersTo vars refs one other ∧ Faulty vars refs other := by
  constructor
  · rintro ⟨last, way, fault⟩
    rcases Relation.ReflTransGen.cases_head way with rfl | ⟨next, step, way⟩
    · exact .inl fault
    · exact .inr ⟨next, step, last, way, fault⟩
  · rintro (fault | ⟨next, step, last, way, fault⟩)
    · exact ⟨one, .refl, fault⟩
    · exact ⟨last, .head step way, fault⟩

theorem checkNames_answer {check : String → Option Bool} {depNames : List String} {answer : Bool}
    (checked : checkNames check depNames = some answer) :
    if answer then ∀ depName ∈ depNames, check depName = some true
    else ∃ depName ∈ depNames, check depName = some false := by
  induction depNames with
  | nil =>
    obtain rfl := Option.some.inj checked
    exact fun depName member => absurd member List.not_mem_nil
  | cons depName depNames ih =>
    rw [checkNames] at checked
    cases here : check depName with
    | none =>
      rw [here] at checked
      cases checked
    | some good =>
      rw [here] at checked
      cases good with
      | false =>
        obtain rfl := Option.some.inj checked
        exact ⟨depName, List.mem_cons_self, here⟩
      | true =>
        have later := ih checked
        cases answer with
        | true => exact List.forall_mem_cons.2 ⟨here, later⟩
        | false =>
          obtain ⟨other, member, fails⟩ := later
          exact ⟨other, List.mem_cons_of_mem _ member, fails⟩

/-- **What the check looks for**: where it ends, it fails just when a fault is met behind the
names. -/
theorem answer_iff {fuel : ℕ} {one : Referring} {answer : Bool}
    (checked : getErrorIndirect vars refs fuel one.name one.type one.scope one.deps = some answer) :
    answer = false ↔ Faulty vars refs one := by
  induction fuel generalizing one answer with
  | zero => cases checked
  | succ fuel ih =>
    rw [getErrorIndirect] at checked
    have names := checkNames_answer checked
    rw [faulty_iff]
    cases answer with
    | true =>
      refine iff_of_false (Bool.noConfusion ·) ?_
      rintro (⟨depName, member, wrong⟩ | ⟨_, ⟨depName, member, depScope, node, resolved, rfl⟩, faulty⟩)
      · have good := names depName member
        rcases wrong with itself | missing | ⟨depScope, node, resolved, wrong⟩
        · rw [if_pos itself] at good
          cases good
        · rw [missing] at good
          split_ifs at good <;> cases good
        · rw [resolved] at good
          dsimp only at good
          rcases wrong with mismatch | error
          · rw [if_pos mismatch] at good
            split_ifs at good <;> cases good
          · rw [if_pos error] at good
            split_ifs at good <;> cases good
      · have good := names depName member
        rw [resolved] at good
        dsimp only at good
        split_ifs at good with itself unknown mismatch error
        · cases good
        · cases good
        · cases good
        · cases good
        · exact Bool.noConfusion ((@ih ⟨some depName, refs.type node, depScope, _⟩ true good).2 faulty)
    | false =>
      refine iff_of_true rfl ?_
      obtain ⟨depName, member, fails⟩ := names
      by_cases itself : one.name = some depName
      · exact .inl ⟨depName, member, .inl itself⟩
      cases resolved : getDepParam vars one.name one.scope depName with
      | none => exact .inl ⟨depName, member, .inr (.inl resolved)⟩
      | some found =>
        obtain ⟨depScope, node⟩ := found
        have known : vars depName ≠ none := by
          intro unknown
          unfold getDepParam at resolved
          rw [unknown] at resolved
          cases resolved
        rw [if_neg itself, if_neg known, resolved] at fails
        dsimp only at fails
        split_ifs at fails with mismatch error
        · exact .inl ⟨depName, member, .inr (.inr ⟨depScope, node, resolved, .inl mismatch⟩)⟩
        · exact .inl ⟨depName, member, .inr (.inr ⟨depScope, node, resolved, .inr error⟩)⟩
        · exact .inr ⟨_, ⟨depName, member, depScope, node, resolved, rfl⟩,
            (@ih ⟨some depName, refs.type node, depScope, _⟩ false fails).1 rfl⟩

end Faults

end Gebr.Validator
