/-
**The validators of a program, their documents and the cache that they share.**

A validator is made over three variables of type `GebrGeoXmlDocument *`; more of them can be pushed
over these. `cache_docs` is one variable of the file, for all validators.

* `gebrValidatorCleanCache`, `gebrValidatorUpdate`: the table follows the documents, by what
  `cache_docs` says.
* `Program.step`: what a caller can do with the validators and the documents.
* `Described`: the table of a validator holds exactly the dictionaries of its own documents.
-/

import Gebr.Validator.Variables

namespace Gebr.Validator

open Gebr.Geoxml (GebrGeoXmlParameterType)

/-- A validator: for each scope the stack of the variables that hold its document (a null pointer is
`none`), and the table. -/
structure GebrValidator where
  docs : Scope → List (Option ℕ)
  vars : Vars

/-- The state of the program. A document is a number, for each scope; `cells` are the variables of
type `GebrGeoXmlDocument *`. -/
structure Program where
  cells : Scope → ℕ → Option ℕ
  dicts : Scope → ℕ → Dict
  validators : List GebrValidator
  cacheDocs : Scope → Option ℕ
  /-- The node that the next parameter gets. -/
  fresh : ℕ

/-- Nothing is validated yet. -/
def Program.start (cells : Scope → ℕ → Option ℕ) (dicts : Scope → ℕ → Dict) (fresh : ℕ) : Program :=
  { cells, dicts, validators := [], cacheDocs := fun _ => none, fresh }

/-- `*get_document (self, type)`, where there is one. -/
def Program.getDocument (self : Program) (validator : GebrValidator) (type : Scope) : Option ℕ :=
  (validator.docs type).head?.join.bind (self.cells type)

/-- The dictionary of a document; none has no parameters. -/
def Program.dict (self : Program) (scope : Scope) (doc : Option ℕ) : Dict :=
  doc.elim [] (self.dicts scope)

/-- The order of the loops over the scopes. -/
def inwards : List Scope := [.project, .line, .flow]

/-- What an update changes: the cache and the table of the validator. -/
structure Synced where
  cacheDocs : Scope → Option ℕ
  vars : Vars

section Update

variable (round : ℚ → ℚ)

/-- The parameters of a dictionary, in their order; `before` is the one before them. -/
def insertDict (scope : Scope) : Option Parameter → Dict → Vars → Vars
  | _, [], vars => vars
  | before, param :: rest, vars =>
    insertDict scope (some param) rest (insertParam round vars scope before rest.head? param)

def removeDict (scope : Scope) (dict : Dict) (vars : Vars) : Vars :=
  dict.foldl (fun vars param => (hashDataRemove vars param.keyword scope).1) vars

/-- The loop of `gebr_validator_clean_cache`; `current` are the documents of the validator. Another
project ends it. -/
def cleanLoop (self : Program) (current : Scope → Option ℕ) : List Scope → Synced → Synced
  | [], synced => synced
  | scope :: rest, synced =>
    match synced.cacheDocs scope with
    | none => cleanLoop self current rest synced
    | some doc =>
      if current scope = some doc then cleanLoop self current rest synced
      else if scope = .project then { cacheDocs := fun _ => none, vars := fun _ => none }
      else cleanLoop self current rest
        { cacheDocs := Function.update synced.cacheDocs scope none
          vars := removeDict scope (self.dicts scope doc) synced.vars }

def gebrValidatorCleanCache (self : Program) (current : Scope → Option ℕ) (vars : Vars) : Synced :=
  cleanLoop self current inwards { cacheDocs := self.cacheDocs, vars }

/-- One scope in the loop of `gebr_validator_update`. -/
def updateScope (self : Program) (current : Scope → Option ℕ) (synced : Synced) (scope : Scope) :
    Synced :=
  match current scope with
  | none => synced
  | some doc =>
    if synced.cacheDocs scope = some doc then synced
    else
      { cacheDocs := Function.update synced.cacheDocs scope (some doc)
        vars := insertDict round scope none (self.dicts scope doc) synced.vars }

def synchronise (self : Program) (current : Scope → Option ℕ) (vars : Vars) : Synced :=
  inwards.foldl (updateScope round self current) (gebrValidatorCleanCache self current vars)

end Update

section Operations

variable (round : ℚ → ℚ)

/-- `gebr_validator_update` on a validator that stands at a place of the list. -/
def Program.update (self : Program) (v : ℕ) (validator : GebrValidator) : Program :=
  let synced := synchronise round self (self.getDocument validator) validator.vars
  { self with
    cacheDocs := synced.cacheDocs
    validators := self.validators.set v { validator with vars := synced.vars } }

def Program.setDict (self : Program) (scope : Scope) (doc : ℕ) (dict : Dict) : Program :=
  { self with
    dicts := Function.update self.dicts scope (Function.update (self.dicts scope) doc dict) }

def Program.setVars (self : Program) (v : ℕ) (validator : GebrValidator) (vars : Vars) : Program :=
  { self with validators := self.validators.set v { validator with vars } }

/-- A new parameter of the caller stands at a place of a dictionary, then
`gebr_validator_insert`. -/
def Program.insert (self : Program) (v : ℕ) (validator : GebrValidator) (scope : Scope) (doc place : ℕ)
    (param : Parameter) : Program :=
  let before := (self.dicts scope doc).take place
  let after := (self.dicts scope doc).drop place
  { self with fresh := self.fresh + 1 }.setDict scope doc (before ++ param :: after)
    |>.setVars v validator (insertParam round validator.vars scope before.getLast? after.head? param)

/-- `gebr_validator_remove`; `before` and `after` are the rest of the dictionary of the
parameter. -/
def Program.remove (self : Program) (v : ℕ) (validator : GebrValidator) (scope : Scope) (doc : ℕ)
    (before : Dict) (param : Parameter) (after : Dict) : Program :=
  let removed := hashDataRemove validator.vars param.keyword scope
  if removed.2 then (self.setDict scope doc (before ++ after)).setVars v validator removed.1
  else self

/-- `gebr_validator_rename`. -/
def Program.rename (self : Program) (v : ℕ) (validator : GebrValidator) (scope : Scope) (doc : ℕ)
    (before : Dict) (param : Parameter) (after : Dict) (newName : String) : Program :=
  if param.keyword = newName then self
  else if validator.vars param.keyword = none then self
  else
    let renamed : Parameter := { param with keyword := newName }
    (self.setDict scope doc (before ++ renamed :: after)).setVars v validator
      (renameVars validator.vars scope param newName)

/-- `gebr_validator_change_value`, without what it validates. -/
def Program.changeValue (self : Program) (scope : Scope) (doc : ℕ) (before : Dict) (param : Parameter)
    (after : Dict) (newValue : String) : Program :=
  if param.required ∧ newValue = "" then self
  else self.setDict scope doc (before ++ { param with value := newValue } :: after)

/-- `gebr_geoxml_document_set_dict_keyword`: the parameter that it appends. It needs a document and
a type of dictionaries. -/
def setDictKeyword (doc : Option ℕ) (fresh : ℕ) (type : GebrGeoXmlParameterType)
    (keyword value : String) : Option (ℕ × Parameter) :=
  if type = .string ∨ type = .float ∨ type = .int then
    doc.map fun doc => (doc, { node := fresh, keyword, type, value, required := true })
  else none

/-- `gebr_validator_move` to another scope, where the parameter gets a copy. Without a copy it is
only removed. -/
def Program.moveAcross (self : Program) (v : ℕ) (validator : GebrValidator) (scope : Scope) (doc : ℕ)
    (before : Dict) (param : Parameter) (after : Dict) (pivotScope : Scope) (position : ℕ) : Program :=
  let left := fun vars => (hashDataRemove vars param.keyword scope).1
  let taken := self.setDict scope doc (before ++ after)
  match setDictKeyword (self.getDocument validator pivotScope) self.fresh param.type param.keyword
      param.value with
  | none => taken.setVars v validator (left validator.vars)
  | some (target, copy) =>
    -- the copy is appended and inserted, then moved after the pivot and inserted again
    let dict := self.dicts pivotScope target
    let first := insertParam round validator.vars pivotScope dict.getLast? none copy
    let front := dict.take position
    let back := dict.drop position
    { taken with fresh := self.fresh + 1 }.setDict pivotScope target (front ++ copy :: back)
      |>.setVars v validator (insertParam round (left first) pivotScope front.getLast? back.head? copy)

/-- `gebr_validator_move` within its scope. -/
def Program.moveWithin (self : Program) (v : ℕ) (validator : GebrValidator) (scope : Scope) (doc : ℕ)
    (before : Dict) (param : Parameter) (after : Dict) (position : ℕ) : Program :=
  let front := (before ++ after).take position
  let back := (before ++ after).drop position
  (self.setDict scope doc (front ++ param :: back)).setVars v validator
    (insertParam round (hashDataRemove validator.vars param.keyword scope).1 scope front.getLast?
      back.head? param)

/-- `gebr_validator_move`; the pivot is given by the number of the other parameters before the new
place. The assertion on the entry of the parameter ends the program. -/
def Program.move (self : Program) (v : ℕ) (validator : GebrValidator) (scope : Scope) (doc : ℕ)
    (before : Dict) (param : Parameter) (after : Dict) (pivotScope : Scope) (position : ℕ) :
    Option Program :=
  match validator.vars param.keyword with
  | none => some self
  | some data =>
    if (validator.docs pivotScope).head?.join = none then some self
    else if data.param scope ≠ some param.node then none
    else if scope = pivotScope then
      some (self.moveWithin round v validator scope doc before param after position)
    else if data.param pivotScope ≠ none then some self
    else some (self.moveAcross round v validator scope doc before param after pivotScope position)

/-- What a caller does. A parameter is given by its dictionary and its place there. -/
inductive Op
  /-- A variable of type `GebrGeoXmlDocument *` is set. -/
  | assign (scope : Scope) (cell : ℕ) (doc : Option ℕ)
  | new (flow line proj : Option ℕ)
  | update (v : ℕ)
  | pushDocument (v : ℕ) (doc : Option ℕ) (type : Scope)
  | popDocument (v : ℕ) (type : Scope)
  | insert (v : ℕ) (scope : Scope) (doc place : ℕ) (keyword : String) (type : GebrGeoXmlParameterType)
      (value : String) (required : Bool)
  | remove (v : ℕ) (scope : Scope) (doc place : ℕ)
  | rename (v : ℕ) (scope : Scope) (doc place : ℕ) (newName : String)
  | changeValue (v : ℕ) (scope : Scope) (doc place : ℕ) (newValue : String)
  | move (v : ℕ) (scope : Scope) (doc place : ℕ) (pivotScope : Scope) (position : ℕ)
  deriving DecidableEq

/-- The parameter at a place of a dictionary, between those before it and those after it. -/
def Program.paramAt (self : Program) (scope : Scope) (doc place : ℕ) :
    Option (Dict × Parameter × Dict) :=
  match (self.dicts scope doc).drop place with
  | [] => none
  | param :: after => some ((self.dicts scope doc).take place, param, after)

/-- The validator after `g_queue_push_head` on the stack of a scope. -/
def GebrValidator.push (validator : GebrValidator) (type : Scope) (doc : Option ℕ) : GebrValidator :=
  { validator with docs := Function.update validator.docs type (doc :: validator.docs type) }

def GebrValidator.pop (validator : GebrValidator) (type : Scope) : GebrValidator :=
  { validator with docs := Function.update validator.docs type (validator.docs type).tail }

/-- The validator that `gebr_validator_new` allocates. -/
def GebrValidator.blank (flow line proj : Option ℕ) : GebrValidator :=
  { docs := fun
      | .flow => [flow]
      | .line => [line]
      | .project => [proj]
    vars := fun _ => none }

/-- The validator that a call brings up to date, as the update finds it. -/
def Program.syncing (self : Program) : Op → Option (ℕ × GebrValidator)
  | .new flow line proj => some (self.validators.length, .blank flow line proj)
  | .update v => self.validators[v]?.map fun validator => (v, validator)
  | .pushDocument v doc type => self.validators[v]?.map fun validator => (v, validator.push type doc)
  | .popDocument v type => self.validators[v]?.map fun validator => (v, validator.pop type)
  | _ => none

/-- One call. It needs the validator and the parameter that it is about; `none` also ends the
program. -/
def Program.step (self : Program) : Op → Option Program
  | .assign scope cell doc =>
    some { self with
      cells := Function.update self.cells scope (Function.update (self.cells scope) cell doc) }
  | .new flow line proj =>
    let validator := GebrValidator.blank flow line proj
    some ({ self with validators := self.validators ++ [validator] }.update round
      self.validators.length validator)
  | .update v => self.validators[v]?.map (self.update round v)
  | .pushDocument v doc type =>
    self.validators[v]?.map fun validator => self.update round v (validator.push type doc)
  | .popDocument v type =>
    self.validators[v]?.map fun validator => self.update round v (validator.pop type)
  | .insert v scope doc place keyword type value required =>
    self.validators[v]?.map fun validator => self.insert round v validator scope doc place
      { node := self.fresh, keyword, type, value, required }
  | .remove v scope doc place =>
    self.validators[v]?.bind fun validator =>
      (self.paramAt scope doc place).map fun (before, param, after) =>
        self.remove v validator scope doc before param after
  | .rename v scope doc place newName =>
    self.validators[v]?.bind fun validator =>
      (self.paramAt scope doc place).map fun (before, param, after) =>
        self.rename v validator scope doc before param after newName
  | .changeValue v scope doc place newValue =>
    self.validators[v]?.bind fun _ =>
      (self.paramAt scope doc place).map fun (before, param, after) =>
        self.changeValue scope doc before param after newValue
  | .move v scope doc place pivotScope position =>
    self.validators[v]?.bind fun validator =>
      (self.paramAt scope doc place).bind fun (before, param, after) =>
        self.move round v validator scope doc before param after pivotScope position

end Operations

section Described

/-- The table holds, in the scope, exactly the parameters of the dictionary, in its order. -/
structure Describes (vars : Vars) (scope : Scope) (dict : Dict) : Prop where
  exactly : ∀ name node, (entry vars scope name).map Prod.fst = some node ↔
    ∃ param ∈ dict, param.keyword = name ∧ param.node = node
  ordered : List.IsChain (· < ·) (0 :: dict.map (getWeight vars scope))

/-- The table of the validator describes its own documents. -/
def Program.Described (self : Program) (validator : GebrValidator) : Prop :=
  ∀ scope, Describes validator.vars scope (self.dict scope (self.getDocument validator scope))

end Described

end Gebr.Validator
