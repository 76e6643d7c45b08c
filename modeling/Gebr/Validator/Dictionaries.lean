/-
**The dictionaries of a project, a line and a flow, and what a name refers to.**

* `Dictionaries`: the variables of the three documents, each in the order of its document. The
  weights of the validator follow this order.
* `getParam`, `getDepParam`: the scope in which a name is found, from a variable or an expression.
* `getDepParam_rank` — **a variable refers to earlier ones**: those above it in its document, or
  those of the documents around it.
* `getErrorIndirect`: whether all that is referred to is well-defined, up to a depth.
* `wellDefined_eq`: the same without a depth, which is enough because of the order.
* `useIter`: whether an expression is ill-defined without the loop counter.
-/

import Gebr.Validator.Variables
import Gebr.Validator.StringExpr

namespace Gebr.Validator.Scoping

open Gebr.Lib.CString (ascii)
open Gebr.Validator.StringExpr (Text)

section Model

/-- The types a variable of a dictionary may have. -/
inductive VarType where
  | string
  | float
  | int
  deriving DecidableEq, Repr

/-- A variable, with the names its value refers to and whether it was found to have an error
itself. -/
structure Variable where
  name : Text
  type : VarType
  value : Text
  dep : List Text
  error : Bool
  deriving DecidableEq, Repr

/-- The variables of the three documents. A document has no name twice. -/
structure Dictionaries where
  vars : Scope → List Variable
  distinct : ∀ scope, ((vars scope).map Variable.name).Nodup

namespace Dictionaries

variable (dicts : Dictionaries)

/-- `data->param[scope]` of the data of a name. -/
def find (scope : Scope) (name : Text) : Option Variable :=
  (dicts.vars scope).find? fun var => var.name = name

/-- `data->weight[scope]`: it grows along the dictionary. -/
def weight (scope : Scope) (name : Text) : ℕ := (dicts.vars scope).findIdx fun var => var.name = name

/-- The first one of these scopes that has the name. -/
def firstScope (scopes : List Scope) (name : Text) : Option Scope :=
  scopes.find? fun scope => (dicts.find scope name).isSome

/-- `get_param`: the nearest scope that has the name. -/
def getParam (name : Text) (scope : Scope) : Option Scope := dicts.firstScope scope.outwards name

/-- `get_dep_param`: where the name is found from a variable of a scope, or from an expression. A
variable does not see those that come after it in its own document. -/
def getDepParam (myName : Option Text) (myScope : Scope) (depName : Text) : Option Scope :=
  match dicts.getParam depName myScope, myName with
  | none, _ => none
  | some depScope, none => some depScope
  | some depScope, some name =>
    if myScope = depScope ∧ dicts.weight depScope depName > dicts.weight myScope name then
      dicts.firstScope myScope.outwards.tail depName
    else some depScope

/-- `get_error_indirect`, to a depth: whether each of the names refers to a variable that may be
referred to and is well-defined. -/
def getErrorIndirect : ℕ → Option Text → VarType → Scope → List Text → Bool
  | 0, _, _, _, depNames => depNames.isEmpty
  | depth + 1, myName, myType, myScope, depNames =>
    depNames.all fun depName =>
      if myName = some depName then false
      else
        match dicts.getDepParam myName myScope depName with
        | none => false
        | some depScope =>
          match dicts.find depScope depName with
          | none => false
          | some dep =>
            if (myType = .float ∨ myType = .int) ∧ dep.type = .string then false
            else !dep.error && getErrorIndirect depth (some depName) dep.type depScope dep.dep

/-- The number of variables. -/
def total : ℕ :=
  (dicts.vars .project).length + (dicts.vars .line).length + (dicts.vars .flow).length

/-- `get_error_indirect`: no chain of references is longer than there are variables. -/
def wellDefined (myName : Option Text) (myType : VarType) (myScope : Scope) (depNames : List Text) :
    Bool :=
  dicts.getErrorIndirect (dicts.total + 1) myName myType myScope depNames

/-- The parameter of a name in the flow is hidden for a while. -/
def hide (name : Text) : Dictionaries where
  vars := fun scope =>
    if scope = .flow then (dicts.vars .flow).filter fun var => var.name ≠ name else dicts.vars scope
  distinct := by
    intro scope
    by_cases flow : scope = .flow
    · rw [if_pos flow]
      exact List.Nodup.sublist (List.filter_sublist.map _) (dicts.distinct .flow)
    · rw [if_neg flow]
      exact dicts.distinct scope

/-- `gebr_validator_use_iter` of an expression of the flow that refers to these names. -/
def useIter (type : VarType) (deps : List Text) : Bool :=
  if (dicts.find .flow (ascii "iter")).isSome then
    !(dicts.hide (ascii "iter")).wellDefined none type .flow deps
  else false

end Dictionaries

end Model

section Rank

variable {dicts : Dictionaries} {scope : Scope} {name : Text} {var : Variable}

/-- How many variables are in the documents around a scope. -/
def around (dicts : Dictionaries) : Scope → ℕ
  | .project => 0
  | .line => (dicts.vars .project).length
  | .flow => (dicts.vars .project).length + (dicts.vars .line).length

/-- The place of a variable when the documents are read from the project to the flow. -/
def rank (dicts : Dictionaries) (scope : Scope) (name : Text) : ℕ :=
  around dicts scope + dicts.weight scope name

theorem find_name (found : dicts.find scope name = some var) : var.name = name :=
  of_decide_eq_true (List.find?_some found :)

theorem find_eq (dicts : Dictionaries) (scope : Scope) (name : Text) :
    dicts.find scope name = (dicts.vars scope)[dicts.weight scope name]? :=
  List.find?_eq_getElem?_findIdx

theorem weight_lt (found : dicts.find scope name = some var) :
    dicts.weight scope name < (dicts.vars scope).length := by
  rw [find_eq] at found
  exact (List.getElem?_eq_some_iff.1 found).1

/-- Two names of a document have two places. -/
theorem weight_inj {other : Text} (found : dicts.find scope name = some var)
    (same : dicts.weight scope other = dicts.weight scope name) : other = name := by
  have there : dicts.find scope other = some var := by rw [find_eq, same, ← find_eq, found]
  exact (find_name there).symm.trans (find_name found)

theorem around_outer {inner outer : Scope} (member : outer ∈ inner.outwards.tail) :
    around dicts outer + (dicts.vars outer).length ≤ around dicts inner := by
  cases inner <;> cases outer <;> simp [Scope.outwards] at member <;> simp [around]

theorem around_total (scope : Scope) : around dicts scope + (dicts.vars scope).length ≤
    dicts.total := by
  cases scope <;> simp only [around, Dictionaries.total] <;> omega

theorem rank_lt_total (found : dicts.find scope name = some var) :
    rank dicts scope name < dicts.total := by
  have inside := weight_lt found
  have whole := @around_total dicts scope
  unfold rank
  omega

theorem firstScope_eq_some {scopes : List Scope}
    (found : dicts.firstScope scopes name = some scope) :
    scope ∈ scopes ∧ ∃ var, dicts.find scope name = some var :=
  ⟨List.mem_of_find?_eq_some found, Option.isSome_iff_exists.1
    (List.find?_some (p := fun scope => (dicts.find scope name).isSome) found)⟩

theorem outwards_cases {inner outer : Scope} (member : outer ∈ inner.outwards) :
    outer = inner ∨ outer ∈ inner.outwards.tail := by
  cases inner <;> cases outer <;> simp_all [Scope.outwards]

theorem getDepParam_found {myName : Option Text} {myScope depScope : Scope}
    (refers : dicts.getDepParam myName myScope name = some depScope) :
    depScope ∈ myScope.outwards ∧ ∃ var, dicts.find depScope name = some var := by
  unfold Dictionaries.getDepParam at refers
  cases nearest : dicts.getParam name myScope with
  | none => rw [nearest] at refers; cases refers
  | some found =>
    have here := firstScope_eq_some nearest
    rw [nearest] at refers
    cases myName with
    | none => cases refers; exact here
    | some me =>
      dsimp only at refers
      split at refers
      · have outer := firstScope_eq_some refers
        exact ⟨List.mem_of_mem_tail outer.1, outer.2⟩
      · cases refers
        exact here

/-- **A variable refers to earlier ones.** -/
theorem getDepParam_rank {me : Text} {myScope depScope : Scope} {mine : Variable}
    (here : dicts.find myScope me = some mine) (other : me ≠ name)
    (refers : dicts.getDepParam (some me) myScope name = some depScope) :
    rank dicts depScope name < rank dicts myScope me := by
  obtain ⟨-, dep, found⟩ := getDepParam_found refers
  have inside := weight_lt found
  have outside : depScope ∈ myScope.outwards.tail → rank dicts depScope name <
      rank dicts myScope me := by
    intro outer
    have before := @around_outer dicts _ _ outer
    unfold rank
    omega
  unfold Dictionaries.getDepParam at refers
  cases nearest : dicts.getParam name myScope with
  | none => rw [nearest] at refers; cases refers
  | some near =>
    rw [nearest] at refers
    dsimp only at refers
    split at refers
    · exact outside (firstScope_eq_some refers).1
    · rename_i early
      cases refers
      rcases outwards_cases (firstScope_eq_some nearest).1 with same | outer
      · subst same
        have differ : dicts.weight depScope name ≠ dicts.weight depScope me := fun same =>
          other (weight_inj found same.symm)
        have smaller : dicts.weight depScope name < dicts.weight depScope me :=
          lt_of_le_of_ne (not_lt.1 fun more => early ⟨rfl, more⟩) differ
        unfold rank
        omega
      · exact outside outer

end Rank

section WellDefined

variable {dicts : Dictionaries}

/-- What makes one of the names a good reference, when `deep` says what is well-defined. -/
def refers (dicts : Dictionaries) (deep : Text → VarType → Scope → List Text → Bool)
    (myName : Option Text) (myType : VarType) (myScope : Scope) (depName : Text) : Bool :=
  if myName = some depName then false
  else
    match dicts.getDepParam myName myScope depName with
    | none => false
    | some depScope =>
      match dicts.find depScope depName with
      | none => false
      | some dep =>
        if (myType = .float ∨ myType = .int) ∧ dep.type = .string then false
        else !dep.error && deep depName dep.type depScope dep.dep

theorem getErrorIndirect_succ (depth : ℕ) (myName : Option Text) (myType : VarType) (myScope : Scope)
    (depNames : List Text) : dicts.getErrorIndirect (depth + 1) myName myType myScope depNames =
      depNames.all (refers dicts (fun name => dicts.getErrorIndirect depth (some name)) myName myType
        myScope) := rfl

@[simp] theorem getDepParam_none (myScope : Scope) (depName : Text) :
    dicts.getDepParam none myScope depName = dicts.getParam depName myScope := by
  unfold Dictionaries.getDepParam
  cases dicts.getParam depName myScope <;> rfl

/-- A string expression refers well to all that is well-defined. -/
theorem refers_expression (deep : Text → VarType → Scope → List Text → Bool) (myScope : Scope)
    (depName : Text) : refers dicts deep none .string myScope depName =
      ((dicts.getParam depName myScope).bind fun depScope =>
        (dicts.find depScope depName).map fun dep =>
          !dep.error && deep depName dep.type depScope dep.dep).getD false := by
  have other : (none : Option Text) ≠ some depName := nofun
  have string : ∀ dep : Variable,
      ¬ ((VarType.string = .float ∨ VarType.string = .int) ∧ dep.type = .string) := by
    rintro dep ⟨h | h, -⟩ <;> cases h
  unfold refers
  rw [if_neg other, getDepParam_none]
  cases dicts.getParam depName myScope with
  | none => rfl
  | some depScope =>
    dsimp only [Option.bind_some]
    cases dicts.find depScope depName with
    | none => rfl
    | some dep => simp only [if_neg (string dep), Option.map_some, Option.getD_some]

/-- Only what is found earlier is asked. -/
theorem refers_congr {deep other : Text → VarType → Scope → List Text → Bool} {myName : Option Text}
    {myType : VarType} {myScope : Scope} {depName : Text}
    (same : ∀ depScope dep, myName ≠ some depName →
      dicts.getDepParam myName myScope depName = some depScope →
      dicts.find depScope depName = some dep →
      deep depName dep.type depScope dep.dep = other depName dep.type depScope dep.dep) :
    refers dicts deep myName myType myScope depName = refers dicts other myName myType myScope
    depName := by
  unfold refers
  by_cases self' : myName = some depName
  · rw [if_pos self', if_pos self']
  · rw [if_neg self', if_neg self']
    cases where' : dicts.getDepParam myName myScope depName with
    | none => rfl
    | some depScope =>
      cases found : dicts.find depScope depName with
      | none => simp only [found]
      | some dep => simp only [found, same depScope dep self' where' found]

/-- Below a variable no more depth is needed than there are variables before it. -/
theorem getErrorIndirect_stable {me : Text} {myScope : Scope} {mine : Variable} {depth other : ℕ}
    (here : dicts.find myScope me = some mine) (enough : rank dicts myScope me < depth)
    (enough' : rank dicts myScope me < other) (myType : VarType) (depNames : List Text) :
    dicts.getErrorIndirect depth (some me) myType myScope depNames =
      dicts.getErrorIndirect other (some me) myType myScope depNames := by
  induction depth generalizing me myScope mine other myType depNames with
  | zero => omega
  | succ depth ih =>
    obtain ⟨other, rfl⟩ := Nat.exists_eq_succ_of_ne_zero (by omega : other ≠ 0)
    rw [getErrorIndirect_succ, getErrorIndirect_succ]
    congr 1
    funext depName
    apply refers_congr
    intro depScope dep self' where' found
    have before := getDepParam_rank here (fun same => self' (congrArg some same)) where'
    exact ih found (by omega) (by omega) dep.type dep.dep

/-- **All that is referred to is well-defined**, one step at a time. -/
theorem wellDefined_eq (myName : Option Text) (myType : VarType) (myScope : Scope)
    (depNames : List Text) : dicts.wellDefined myName myType myScope depNames =
      depNames.all (refers dicts (fun name => dicts.wellDefined (some name)) myName myType
      myScope) := by
  unfold Dictionaries.wellDefined
  rw [getErrorIndirect_succ]
  congr 1
  funext depName
  apply refers_congr
  intro depScope dep _ _ found
  have inside := rank_lt_total found
  exact getErrorIndirect_stable found inside (by omega) dep.type dep.dep

/-- Where no variable refers to another one or has an error, it is enough for a name to be found. -/
theorem wellDefined_of_plain
    (plain : ∀ scope name var, dicts.find scope name = some var → var.error = false ∧ var.dep = [])
    (scope : Scope) (names : List Text) :
    dicts.wellDefined none .string scope names =
      names.all fun name => (dicts.getParam name scope).isSome := by
  rw [wellDefined_eq]
  congr 1
  funext name
  rw [refers_expression]
  cases nearest : dicts.getParam name scope with
  | none => rfl
  | some depScope =>
    obtain ⟨-, dep, found⟩ := firstScope_eq_some nearest
    rw [Option.bind_some, found, Option.map_some, Option.getD_some, (plain depScope name dep found).1,
      (plain depScope name dep found).2, wellDefined_eq]
    rfl

theorem getParam_of_wellDefined {scope : Scope} {names : List Text}
    (well : dicts.wellDefined none .string scope names = true) :
    ∀ name ∈ names, (dicts.getParam name scope).isSome = true := by
  intro name member
  rw [wellDefined_eq, List.all_eq_true] at well
  have here := well name member
  rw [refers_expression] at here
  cases nearest : dicts.getParam name scope with
  | none => rw [nearest] at here; cases here
  | some _ => rfl

end WellDefined

end Gebr.Validator.Scoping
