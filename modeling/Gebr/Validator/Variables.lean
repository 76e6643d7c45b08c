/-
**The variable table of a validator.**

A validator keeps, for every name, the dictionary parameter of each scope that has it, with a weight
that grows along the dictionary.

* `hashDataRemove`, `computeWeight`, `insertParam`, `renameVars`: what the operations of the source
  do to the table. Weights are doubles: `round` is the rounding of their arithmetic.
* `entry`: what the table says of a name in a scope. `entry_remove`, `entry_insert`, `entry_rename`
  say what each operation changes of it.
* `Describes`: the table holds, in one scope, exactly the parameters of a dictionary, in its order.
-/

import Mathlib.Algebra.Order.Field.Rat
import Mathlib.Data.List.Nodup
import Mathlib.Logic.Function.Basic
import Gebr.Geoxml.DictSplit

namespace Gebr.Validator

open Gebr.Geoxml (GebrGeoXmlParameterType)

/-- `GebrGeoXmlDocumentType`, of the documents that are not UNKNOWN. -/
inductive Scope
  | flow
  | line
  | project
  deriving DecidableEq, Repr

/-- A parameter of a dictionary; `node` is the element that a `GebrGeoXmlParameter *` points at. One
without a keyword (a group) has the empty keyword. -/
structure Parameter where
  node : ℕ
  keyword : String
  type : GebrGeoXmlParameterType
  value : String
  required : Bool
  deriving DecidableEq

abbrev Dict : Type := List Parameter

/-- The entry of a name, without the names it depends on and its errors. -/
structure HashData where
  param : Scope → Option ℕ
  weight : Scope → ℚ

abbrev Vars : Type := String → Option HashData

def gMaxdouble : ℚ := (2 ^ 53 - 1) * 2 ^ 971

/-- `data->param[scope] = param; data->weight[scope] = weight;` -/
def HashData.put (data : HashData) (scope : Scope) (param : Option ℕ) (weight : ℚ) : HashData :=
  { param := Function.update data.param scope param
    weight := Function.update data.weight scope weight }

section Model

variable (round : ℚ → ℚ)

def hashDataNewFromXml (scope : Scope) (param : Parameter) : HashData :=
  { param := fun _ => none, weight := fun _ => 0 : HashData }.put scope (some param.node) gMaxdouble

/-- A scope and those around it, from the inside. -/
def Scope.outwards : Scope → List Scope
  | .flow => [.flow, .line, .project]
  | .line => [.line, .project]
  | .project => [.project]

/-- `get_param`: the parameter of the nearest scope that has the name. -/
def getParam (vars : Vars) (name : String) (scope : Scope) : Option ℕ :=
  (vars name).bind fun data => scope.outwards.findSome? data.param

/-- `hash_data_remove`, and whether it removed anything. A name that no scope has any more leaves
the table. -/
def hashDataRemove (vars : Vars) (name : String) (scope : Scope) : Vars × Bool :=
  match vars name with
  | none => (vars, false)
  | some data =>
    if data.param scope = none then (vars, false)
    else
      let rest : Vars := Function.update vars name (some (data.put scope none gMaxdouble))
      if getParam rest name .flow = none then (Function.update rest name none, true)
      else (rest, true)

/-- `get_weight`, of a parameter of a dictionary of the scope. -/
def getWeight (vars : Vars) (scope : Scope) (param : Parameter) : ℚ :=
  match vars param.keyword with
  | none => -1
  | some data => if data.param scope = none then -1 else data.weight scope

/-- `compute_weight`: between the weights of the neighbours, as far as they have one. -/
def computeWeight (vars : Vars) (scope : Scope) (before after : Option Parameter) : ℚ :=
  let b := before.elim 0 (getWeight vars scope)
  if b = -1 then 1
  else
    match after with
    | none => round (b + 1)
    | some param =>
      let a := getWeight vars scope param
      if a = -1 then round (b + 1) else round (round (a + b) / 2)

/-- The record that `gebr_validator_insert` finds or makes for the name. -/
def insertData (vars : Vars) (scope : Scope) (param : Parameter) : HashData :=
  match vars param.keyword with
  | none => hashDataNewFromXml scope param
  | some data =>
    if data.param scope = none then data.put scope (some param.node) (data.weight scope) else data

/-- `gebr_validator_insert`, of a parameter with these neighbours. The value that it sets last is
the one that the parameter has. -/
def insertParam (vars : Vars) (scope : Scope) (before after : Option Parameter) (param : Parameter) :
    Vars :=
  if param.keyword = "" then vars
  else
    let data := insertData vars scope param
    let named : Vars := Function.update vars param.keyword (some data)
    Function.update named param.keyword (some
      (data.put scope (data.param scope) (computeWeight round named scope before after)))

/-- The table after `gebr_validator_rename` gave the parameter its new name. A name that the scope
has already is refused. -/
def renameVars (vars : Vars) (scope : Scope) (param : Parameter) (newName : String) : Vars :=
  match vars param.keyword with
  | none => vars
  | some data =>
    let left : Vars := Function.update vars param.keyword (some (data.put scope none gMaxdouble))
    match vars newName with
    | none =>
      let newData := hashDataNewFromXml scope param
      Function.update left newName
        (some (newData.put scope (newData.param scope) (data.weight scope)))
    | some newData =>
      if newData.param scope = none then
        Function.update left newName
          (some (newData.put scope (data.param scope) (data.weight scope)))
      else vars

end Model

section Entry

variable {round : ℚ → ℚ} {vars : Vars} {scope : Scope}

def HashData.cell (data : HashData) (scope : Scope) : Option (ℕ × ℚ) :=
  (data.param scope).map fun node => (node, data.weight scope)

theorem HashData.cell_put (data : HashData) (scope : Scope) (param : Option ℕ) (weight : ℚ)
    (other : Scope) :
    (data.put scope param weight).cell other =
      if other = scope then param.map fun node => (node, weight) else data.cell other := by
  unfold HashData.cell HashData.put
  simp only [Function.update_apply]
  split <;> rfl

@[simp] theorem HashData.param_put (data : HashData) (scope : Scope) (param : Option ℕ) (weight : ℚ) :
    (data.put scope param weight).param scope = param := Function.update_self ..

@[simp] theorem HashData.put_put (data : HashData) (scope : Scope) (param other : Option ℕ)
    (weight rest : ℚ) : (data.put scope param weight).put scope other rest =
    data.put scope other rest := by
  unfold HashData.put
  rw [Function.update_idem, Function.update_idem]

/-- What the table says of a name in a scope: the parameter and its weight. -/
def entry (vars : Vars) (scope : Scope) (name : String) : Option (ℕ × ℚ) :=
  (vars name).bind fun data => data.cell scope

theorem entry_some {name : String} {data : HashData} (here : vars name = some data) :
    entry vars scope name = data.cell scope := by
  rw [entry, here]
  rfl

theorem entry_none {name : String} (here : vars name = none) : entry vars scope name = none := by
  rw [entry, here]
  rfl

theorem entry_update (vars : Vars) (name : String) (data : HashData) (scope : Scope) (key : String) :
    entry (Function.update vars name (some data)) scope key =
      if key = name then data.cell scope else entry vars scope key := by
  unfold entry
  rw [Function.update_apply]
  split <;> rfl

theorem entry_erase (vars : Vars) (name : String) (scope : Scope) (key : String) :
    entry (Function.update vars name none) scope key =
      if key = name then none else entry vars scope key := by
  unfold entry
  rw [Function.update_apply]
  split <;> rfl

theorem entry_put {name : String} {data : HashData} (here : vars name = some data) (scope : Scope)
    (param : Option ℕ) (weight : ℚ) (other : Scope) (key : String) :
    entry (Function.update vars name (some (data.put scope param weight))) other key =
      if other = scope ∧ key = name then param.map fun node => (node, weight)
      else entry vars other key := by
  rw [entry_update, HashData.cell_put]
  by_cases names : key = name
  · by_cases scopes : other = scope
    · rw [if_pos names, if_pos scopes, if_pos ⟨scopes, names⟩]
    · rw [if_pos names, if_neg scopes, if_neg fun at' => scopes at'.1, names, entry_some here]
  · rw [if_neg names, if_neg fun at' => names at'.2]

theorem entry_new {name : String} (here : vars name = none) (scope : Scope) (param : Parameter)
    (node : Option ℕ) (weight : ℚ) (other : Scope) (key : String) :
    entry (Function.update vars name (some ((hashDataNewFromXml scope param).put scope node weight)))
        other key =
      if other = scope ∧ key = name then node.map fun node => (node, weight)
      else entry vars other key := by
  rw [entry_update, HashData.cell_put]
  by_cases names : key = name
  · by_cases scopes : other = scope
    · rw [if_pos names, if_pos scopes, if_pos ⟨scopes, names⟩]
    · rw [if_pos names, if_neg scopes, if_neg fun at' => scopes at'.1, names, entry_none here,
        hashDataNewFromXml, HashData.cell_put, if_neg scopes]
      rfl
  · rw [if_neg names, if_neg fun at' => names at'.2]

theorem getWeight_eq (vars : Vars) (scope : Scope) (param : Parameter) :
    getWeight vars scope param = (entry vars scope param.keyword).elim (-1) Prod.snd := by
  unfold getWeight
  cases here : vars param.keyword with
  | none => rw [entry_none here]; rfl
  | some data =>
    rw [entry_some here, HashData.cell]
    dsimp only
    cases data.param scope <;> rfl

/-- The weights that are read are those of the neighbours. -/
theorem computeWeight_congr {other : Vars} {before after : Option Parameter}
    (sameBefore : ∀ param ∈ before, entry other scope param.keyword = entry vars scope param.keyword)
    (sameAfter : ∀ param ∈ after, entry other scope param.keyword = entry vars scope param.keyword) :
    computeWeight round other scope before after = computeWeight round vars scope before after := by
  have weight : ∀ param, entry other scope param.keyword = entry vars scope param.keyword →
      getWeight other scope param = getWeight vars scope param := fun param same => by
    rw [getWeight_eq, getWeight_eq, same]
  have low : before.elim 0 (getWeight other scope) = before.elim 0 (getWeight vars scope) := by
    cases before with
    | none => rfl
    | some previous => exact weight previous (sameBefore previous rfl)
  unfold computeWeight
  rw [low]
  cases after with
  | none => rfl
  | some next =>
    dsimp only
    rw [weight next (sameAfter next rfl)]

theorem getParam_none {name : String} :
    getParam vars name .flow = none ↔ ∀ scope, entry vars scope name = none := by
  unfold getParam entry
  cases vars name with
  | none => exact ⟨fun _ _ => rfl, fun _ => rfl⟩
  | some data =>
    simp only [Option.bind_some, HashData.cell, Option.map_eq_none_iff, List.findSome?_eq_none_iff]
    refine ⟨fun unset scope => unset scope (by cases scope <;> decide), fun unset scope _ =>
      unset scope⟩

/-- **What `hash_data_remove` changes.** -/
theorem entry_remove (vars : Vars) (name : String) (scope : Scope) (other : Scope) (key : String) :
    entry (hashDataRemove vars name scope).1 other key =
      if other = scope ∧ key = name then none else entry vars other key := by
  have unset : entry vars scope name = none → entry vars other key =
      if other = scope ∧ key = name then none else entry vars other key := fun unset => by
    split
    · rename_i at'
      rw [at'.1, at'.2, unset]
    · rfl
  unfold hashDataRemove
  cases here : vars name with
  | none => exact unset (entry_none here)
  | some data =>
    by_cases stored : data.param scope = none
    · simp only [if_pos stored]
      exact unset (by rw [entry_some here, HashData.cell, stored]; rfl)
    · simp only [if_neg stored]
      have rest := entry_put here scope none gMaxdouble
      split
      · rename_i gone
        rw [entry_erase, ← Option.map_none (f := fun node => (node, gMaxdouble)), ← rest]
        split
        · rename_i names
          rw [names]
          exact (getParam_none.1 gone other).symm
        · rfl
      · exact rest other key

/-- The record of the inserted name: a parameter that is already there stays. -/
theorem entry_insertData (vars : Vars) (scope : Scope) (param : Parameter) (weight : ℚ) (other : Scope)
    (key : String) :
    entry (Function.update vars param.keyword (some ((insertData vars scope param).put scope
        ((insertData vars scope param).param scope) weight))) other key =
      if other = scope ∧ key = param.keyword then
        some (((entry vars scope param.keyword).map Prod.fst).getD param.node, weight)
      else entry vars other key := by
  unfold insertData
  cases here : vars param.keyword with
  | none =>
    dsimp only
    rw [entry_none here, entry_new here, hashDataNewFromXml, HashData.param_put]
    rfl
  | some data =>
    have stored : entry vars scope param.keyword = data.cell scope := entry_some here
    by_cases unset : data.param scope = none
    · simp only [if_pos unset, HashData.param_put, HashData.put_put]
      rw [entry_put here, stored, HashData.cell, unset]
      rfl
    · simp only [if_neg unset]
      obtain ⟨node, set⟩ := Option.ne_none_iff_exists'.1 unset
      rw [entry_put here, stored, HashData.cell, set]
      rfl

/-- **What `gebr_validator_insert` changes**, of a parameter that shares its name with no
neighbour. -/
theorem entry_insert {before after : Option Parameter} {param : Parameter} (named : param.keyword ≠ "")
    (apartBefore : ∀ other ∈ before, other.keyword ≠ param.keyword)
    (apartAfter : ∀ other ∈ after, other.keyword ≠ param.keyword) (other : Scope) (key : String) :
    entry (insertParam round vars scope before after param) other key =
      if other = scope ∧ key = param.keyword then
        some (((entry vars scope param.keyword).map Prod.fst).getD param.node,
          computeWeight round vars scope before after)
      else entry vars other key := by
  have apart : computeWeight round
      (Function.update vars param.keyword (some (insertData vars scope param))) scope before after =
        computeWeight round vars scope before after := by
    refine computeWeight_congr (fun other member => ?_) fun other member => ?_
    · rw [entry_update, if_neg (apartBefore other member)]
    · rw [entry_update, if_neg (apartAfter other member)]
  unfold insertParam
  simp only [if_neg named, Function.update_idem, apart]
  exact entry_insertData vars scope param _ other key

theorem entry_insert_other (vars : Vars) (before after : Option Parameter) (param : Parameter)
    {other : Scope} (apart : other ≠ scope) (key : String) :
    entry (insertParam round vars scope before after param) other key = entry vars other key := by
  unfold insertParam
  by_cases named : param.keyword = ""
  · rw [if_pos named]
  · simp only [if_neg named, Function.update_idem]
    rw [entry_insertData, if_neg fun at' => apart at'.1]

/-- **What `gebr_validator_rename` changes.** -/
theorem entry_rename {param : Parameter} {newName : String} {weight : ℚ}
    (here : entry vars scope param.keyword = some (param.node, weight))
    (other : newName ≠ param.keyword) (free : entry vars scope newName = none) (at' : Scope)
    (key : String) :
    entry (renameVars vars scope param newName) at' key =
      if at' = scope ∧ key = newName then some (param.node, weight)
      else if at' = scope ∧ key = param.keyword then none
      else entry vars at' key := by
  obtain ⟨data, stored, cell⟩ := Option.bind_eq_some_iff.1 here
  obtain ⟨node, set, same⟩ := Option.map_eq_some_iff.1 cell
  obtain ⟨rfl, rfl⟩ := Prod.mk.inj same
  unfold renameVars
  simp only [stored]
  have left := entry_put stored scope none gMaxdouble at' key
  have untouched : Function.update vars param.keyword (some (data.put scope none gMaxdouble)) newName =
      vars newName := Function.update_of_ne other _ vars
  cases taken : vars newName with
  | none =>
    dsimp only
    rw [hashDataNewFromXml, HashData.param_put, ← hashDataNewFromXml,
      entry_new (untouched.trans taken), left]
    rfl
  | some newData =>
    have unset : newData.param scope = none := by
      rw [entry_some taken] at free
      exact Option.map_eq_none_iff.1 free
    simp only [if_pos unset]
    rw [entry_put (untouched.trans taken), left, set]
    rfl

theorem entry_rename_other (vars : Vars) {param : Parameter} {newName : String}
    (differ : newName ≠ param.keyword) {other : Scope} (apart : other ≠ scope) (key : String) :
    entry (renameVars vars scope param newName) other key = entry vars other key := by
  unfold renameVars
  cases stored : vars param.keyword with
  | none => rfl
  | some data =>
    have left := entry_put stored scope none gMaxdouble other key
    rw [if_neg fun at' => apart at'.1] at left
    have untouched : Function.update vars param.keyword (some (data.put scope none gMaxdouble))
        newName = vars newName := Function.update_of_ne differ _ vars
    cases taken : vars newName with
    | none =>
      dsimp only
      rw [hashDataNewFromXml, HashData.param_put, ← hashDataNewFromXml,
        entry_new (untouched.trans taken), left, if_neg fun at' => apart at'.1]
    | some newData =>
      dsimp only
      split
      · rw [entry_put (untouched.trans taken), left, if_neg fun at' => apart at'.1]
      · rfl

end Entry

end Gebr.Validator
