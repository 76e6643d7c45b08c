/-
**Renamings and moves that fail.**

`gebr_validator_rename` and `gebr_validator_move` with all of the table: also the names that a value
refers to and the error in it. What is read in the text of a value is a parameter; what its names
refer to is looked up in the table.

* `changeValue`: the check of a value, with what it leaves in the table.
* `rename`, `move`: the two calls, each with what it returns.
* `FailsCleanly`: a call that returns false leaves the documents and the table as they are.
* `WrongAt`: a value is wrong at a place: in its text, or by a fault that is met behind its names.
* `Spares`: a renaming does not meet a name of its scope, and the value of a move that is carried
  out is not wrong at its new place, or everything is in its place there already.
* `failsCleanly_iff` — **the former iff the latter**.
* `renamed_onto`: a variable that gets a name which its scope has.
-/

import Gebr.Validator.DocumentRuns
import Gebr.Validator.ReferenceCheck

namespace Gebr.Validator

open Gebr.Geoxml (GebrGeoXmlParameterType)

section Check

/-- The names that a value refers to, and the error in it. -/
structure Note where
  dep : List String
  error : Option String
  deriving DecidableEq

/-- The rest of the table: for each scope and name. -/
abbrev Notes : Type := Scope → String → Note

/-- No names and no error. -/
def Note.blank : Note := { dep := [], error := none }

def setNote (notes : Notes) (scope : Scope) (name : String) (note : Note) : Notes :=
  Function.update notes scope (Function.update (notes scope) name note)

/-- An error that a check reports; `kept`: its code is one of those that the table keeps. -/
structure Failure where
  message : String
  kept : Bool

/-- What is read in the text of a value: whether it is blank (`g_strstrip`), its names
(`translate_string_expr`, `gebr_iexpr_extract_vars`), what bc says of it under its name, and what is
wrong with a path. -/
structure Readers where
  blank : String → Bool
  translate : String → Except Failure (List String)
  extract : String → List String
  evaluate : String → String → Option Failure
  path : String → Option Failure

/-- `EMPTY_EXPR`, of a required value. -/
def missingValue : Failure := ⟨"This parameter is required", true⟩

/-- `EMPTY_EXPR`, of a number. -/
def emptyNumber : Failure := ⟨"Expression does not evaluate to a value", true⟩

/-- What `get_error_indirect` reports, with a code behind those that the table keeps. -/
def badReference : Failure := ⟨"Variable is not well defined", false⟩

def isText (type : GebrGeoXmlParameterType) : Prop := type = .string ∨ type = .file

def isNumber (type : GebrGeoXmlParameterType) : Prop := type = .range ∨ type = .int ∨ type = .float

instance (type : GebrGeoXmlParameterType) : Decidable (isText type) := by
  unfold isText
  infer_instance

instance (type : GebrGeoXmlParameterType) : Decidable (isNumber type) := by
  unfold isNumber
  infer_instance

variable (readers : Readers)

/-- The names that the check finds in a value. -/
def namesOf (param : Parameter) : List String :=
  if param.value = "" ∨ readers.blank param.value then []
  else if isText param.type then
    match readers.translate param.value with
    | .error _ => []
    | .ok names => names
  else if isNumber param.type then readers.extract param.value
  else []

/-- The error of `define_validate_and_extract_vars`; `good` is what `get_error_indirect` says of the
names. -/
def outcome (param : Parameter) (good : Bool) : Option Failure :=
  if param.value = "" then none
  else if isText param.type then
    if readers.blank param.value then none
    else
      match readers.translate param.value with
      | .error failure => some failure
      | .ok _ =>
        if good = false then some badReference
        else if param.type = .file then readers.path param.value
        else none
  else if isNumber param.type then
    if readers.blank param.value then some emptyNumber
    else if good = false then some badReference
    else readers.evaluate param.keyword param.value
  else none

/-- `set_error`, of an error that the table keeps. -/
def keptError (failure : Option Failure) : Option String :=
  failure.bind fun failure => if failure.kept then some failure.message else none

/-- The table with its notes, as the check of the references reads it; `types` are those of the
parameters that the table points at. -/
def referencesOf (types : ℕ → GebrGeoXmlParameterType) (notes : Notes) (param : Parameter) :
    References where
  dep scope name := (notes scope name).dep
  error scope name := (notes scope name).error.isSome
  type := Function.update types param.node param.type

/-- What the check of a value leaves in the table, and whether it reports an error; nothing where it
does not end. -/
abbrev Check : Type := Vars → Notes → Scope → Parameter → Option (Notes × Bool)

/-- `gebr_validator_change_value` with the value that the parameter has, with calls nested no deeper
than `depth`. `validateIter` is the branch of the loop counter. -/
def changeValue (types : ℕ → GebrGeoXmlParameterType) (validateIter : Check) (depth : ℕ) : Check :=
  fun vars notes scope param =>
    if param.required ∧ param.value = "" then
      let note := { notes scope param.keyword with error := some missingValue.message }
      some (setNote notes scope param.keyword note, true)
    else if param.keyword = "iter" then validateIter vars notes scope param
    else
      let cleared := setNote notes scope param.keyword { notes scope param.keyword with dep := [] }
      let refs := referencesOf types cleared param
      (getErrorIndirect vars refs depth (some param.keyword) param.type scope
        (namesOf readers param)).map fun good =>
          let failure := outcome readers param good
          (setNote cleared scope param.keyword ⟨namesOf readers param, keptError failure⟩,
            failure.isSome)

end Check

section Model

/-- The notes after `hash_data_remove`: those of a name that no scope has any more go with it. -/
def removeNotes (vars : Vars) (notes : Notes) (name : String) (scope : Scope) : Notes :=
  fun other key =>
  if key = name ∧ (other = scope ∨ (hashDataRemove vars name scope).1 name = none) then .blank
  else notes other key

/-- The notes after `gebr_validator_rename`. -/
def renameNotes (notes : Notes) (scope : Scope) (name newName : String) : Notes :=
  Function.update notes scope
    (Function.update (Function.update (notes scope) newName (notes scope name)) name .blank)

/-- The check that ends `gebr_validator_insert`, which refuses a name that is empty. -/
def insertCheck (check : Check) : Check := fun vars notes scope param =>
  if param.keyword = "" then some (notes, false) else check vars notes scope param

variable (round : ℚ → ℚ) (check : Check)

/-- `gebr_validator_rename`, with what it returns. The document has the new name before the table is
asked for it. -/
def renameReturning (self : Program) (notes : Notes) (v : ℕ) (validator : GebrValidator)
    (scope : Scope) (doc : ℕ) (before : Dict) (param : Parameter) (after : Dict) (newName : String) :
    (Program × Notes) × Bool :=
  let next := self.rename v validator scope doc before param after newName
  if param.keyword = newName then ((next, notes), true)
  else if validator.vars param.keyword = none then ((next, notes), false)
  else if entry validator.vars scope newName ≠ none then ((next, notes), false)
  else ((next, renameNotes notes scope param.keyword newName), true)

/-- The table with a parameter that was taken out of it, between two parts of a dictionary. -/
def placedVars (vars : Vars) (scope pivotScope : Scope) (front back : Dict) (param : Parameter) :
    Vars :=
  insertParam round (hashDataRemove vars param.keyword scope).1 pivotScope front.getLast?
    back.head? param

/-- What a move within its scope leaves of the notes, and whether it reports an error. -/
def checkWithin (notes : Notes) (validator : GebrValidator) (scope : Scope) (before : Dict)
    (param : Parameter) (after : Dict) (position : ℕ) : Option (Notes × Bool) :=
  insertCheck check
    (placedVars round validator.vars scope scope ((before ++ after).take position)
      ((before ++ after).drop position) param)
    (removeNotes validator.vars notes param.keyword scope) scope param

/-- The table with the copy of a parameter that is appended to another dictionary. -/
def appendedVars (vars : Vars) (pivotScope : Scope) (dict : Dict) (copy : Parameter) : Vars :=
  insertParam round vars pivotScope dict.getLast? none copy

/-- The same of a move to another scope. The copy is checked where it is appended, and again where
it is moved to. -/
def checkAcross (self : Program) (notes : Notes) (validator : GebrValidator) (scope : Scope)
    (param : Parameter) (pivotScope : Scope) (position target : ℕ) (copy : Parameter) :
    Option (Notes × Bool) :=
  let dict := self.dicts pivotScope target
  let vars := appendedVars round validator.vars pivotScope dict copy
  (insertCheck check vars notes pivotScope copy).bind fun first =>
    insertCheck check
      (placedVars round vars scope pivotScope (dict.take position) (dict.drop position) copy)
      (removeNotes vars first.1 param.keyword scope) pivotScope copy

/-- `gebr_validator_move`, with what it returns: false also where the value is found to have an
error once it was moved. Nothing, where the check does not end or an assertion fails. -/
def moveReturning (self : Program) (notes : Notes) (v : ℕ) (validator : GebrValidator) (scope : Scope)
    (doc : ℕ) (before : Dict) (param : Parameter) (after : Dict) (pivotScope : Scope) (position : ℕ) :
    Option ((Program × Notes) × Bool) :=
  match validator.vars param.keyword with
  | none => some ((self, notes), false)
  | some data =>
    if (validator.docs pivotScope).head?.join = none then some ((self, notes), false)
    else if data.param scope ≠ some param.node then none
    else if scope = pivotScope then
      (checkWithin round check notes validator scope before param after position).map fun checked =>
        ((self.moveWithin round v validator scope doc before param after position, checked.1),
          !checked.2)
    else if data.param pivotScope ≠ none then some ((self, notes), false)
    else
      let next := self.moveAcross round v validator scope doc before param after pivotScope position
      match self.copyOf validator param pivotScope with
      | none => some ((next, removeNotes validator.vars notes param.keyword scope), true)
      | some (target, copy) =>
        (checkAcross round check self notes validator scope param pivotScope position target copy).map
          fun checked => ((next, checked.1), !checked.2)

/-- The two calls. -/
inductive Change
  | rename (newName : String)
  | move (pivotScope : Scope) (position : ℕ)

/-- A call about the parameter at a place of a dictionary. -/
def perform (self : Program) (notes : Notes) (v : ℕ) (scope : Scope) (doc place : ℕ)
    (change : Change) : Option ((Program × Notes) × Bool) :=
  self.validators[v]?.bind fun validator =>
    (self.paramAt scope doc place).bind fun (before, param, after) =>
      match change with
      | .rename newName =>
        some (renameReturning self notes v validator scope doc before param after newName)
      | .move pivotScope position =>
        moveReturning round check self notes v validator scope doc before param after
          pivotScope position

/-- Two tables have the same variables with the same weights, and the same notes about them. -/
def SameTable (vars other : Vars) (notes rest : Notes) : Prop :=
  ∀ scope name, entry other scope name = entry vars scope name ∧
    (entry vars scope name ≠ none → rest scope name = notes scope name)

/-- A move is carried out: the variable is in the table, the target has a document, and no variable
of this name. -/
def Carried (validator : GebrValidator) (scope : Scope) (param : Parameter) (pivotScope : Scope) :
    Prop :=
  ∃ data, validator.vars param.keyword = some data ∧ (validator.docs pivotScope).head?.join ≠ none ∧
    data.param scope = some param.node ∧ (scope ≠ pivotScope → data.param pivotScope = none)

end Model

section Statement

variable (round : ℚ → ℚ) (readers : Readers) (types : ℕ → GebrGeoXmlParameterType)
    (validateIter : Check)

/-- **A call that returns false changes nothing**, however deep its check goes. -/
def FailsCleanly (self : Program) (notes : Notes) (v : ℕ) (scope : Scope) (doc place : ℕ)
    (change : Change) : Prop :=
  ∀ depth next rest,
    perform round (changeValue readers types validateIter depth) self notes v scope doc place change =
      some ((next, rest), false) →
    next.dicts = self.dicts ∧ ∀ validator ∈ self.validators[v]?, ∃ after ∈ next.validators[v]?,
      SameTable validator.vars after.vars notes rest

/-- The call returns. -/
def Returns (self : Program) (notes : Notes) (v : ℕ) (scope : Scope) (doc place : ℕ)
    (change : Change) : Prop :=
  ∃ depth result, perform round (changeValue readers types validateIter depth) self notes v
    scope doc place change = some result

/-- A fault is met behind the names of a value. -/
def FaultyAt (vars : Vars) (notes : Notes) (scope : Scope) (param : Parameter) : Prop :=
  Faulty vars (referencesOf types notes param)
    ⟨some param.keyword, param.type, scope, namesOf readers param⟩

/-- A value is missing where one is required, or wrong in its text, or a fault is met behind its
names. -/
def WrongAt (vars : Vars) (notes : Notes) (scope : Scope) (param : Parameter) : Prop :=
  param.keyword ≠ "" ∧ (param.required = true ∧ param.value = "" ∨
    ∃ good : Bool, (good = false ↔ FaultyAt readers types vars notes scope param) ∧
      (outcome readers param good).isSome = true)

/-- The note is the one about a value: its names, and the error of its text. -/
def NotedAt (vars : Vars) (notes : Notes) (scope : Scope) (param : Parameter) (note : Note) : Prop :=
  if param.required = true ∧ param.value = "" then note = ⟨[], some missingValue.message⟩
  else ∃ good : Bool, (good = false ↔ FaultyAt readers types vars notes scope param) ∧
    note = ⟨namesOf readers param, keptError (outcome readers param good)⟩

/-- The parameter stands at its new place already: in the dictionary, with the weight between those
of its neighbours and the note about its value. -/
structure InPlace (validator : GebrValidator) (notes : Notes) (scope : Scope) (before : Dict)
    (param : Parameter) (after : Dict) (position : ℕ) : Prop where
  order : (before ++ after).take position ++ param :: (before ++ after).drop position =
    before ++ param :: after
  weight : entry (placedVars round validator.vars scope scope ((before ++ after).take position)
      ((before ++ after).drop position) param) scope param.keyword =
    entry validator.vars scope param.keyword
  note : NotedAt readers types
      (placedVars round validator.vars scope scope ((before ++ after).take position)
        ((before ++ after).drop position) param)
          (removeNotes validator.vars notes param.keyword scope) scope
    param (notes scope param.keyword)

/-- The value of the copy is wrong at its new place, in the table that had it at the end before and
has the parameter no more. -/
def WrongAfterCopy (self : Program) (notes : Notes) (validator : GebrValidator) (scope : Scope)
    (param : Parameter) (pivotScope : Scope) (position target : ℕ) (copy : Parameter) : Prop :=
  let dict := self.dicts pivotScope target
  let vars := appendedVars round validator.vars pivotScope dict copy
  WrongAt readers types
    (placedVars round vars scope pivotScope (dict.take position) (dict.drop position) copy)
      (setNote (removeNotes vars notes param.keyword scope) pivotScope copy.keyword .blank)
        pivotScope copy

/-- A renaming does not meet its new name in the scope. The value of a move that is carried out and
returns is not wrong at its new place, or it stands there already. -/
def Spares (self : Program) (notes : Notes) (v : ℕ) (scope : Scope) (doc place : ℕ) : Change → Prop
  | .rename newName => ∀ validator ∈ self.validators[v]?, ∀ before param after,
    self.paramAt scope doc place = some (before, param, after) →
      param.keyword = newName ∨ validator.vars param.keyword = none ∨
        entry validator.vars scope newName = none
  | .move pivotScope position => ∀ validator ∈ self.validators[v]?, ∀ before param after,
    self.paramAt scope doc place = some (before, param, after) →
      Carried validator scope param pivotScope → Returns round readers types validateIter self notes
        v scope doc place (.move pivotScope position) → (scope = pivotScope →
          ¬ WrongAt readers types (placedVars round validator.vars scope scope
              ((before ++ after).take position) ((before ++ after).drop position) param)
            (removeNotes validator.vars notes param.keyword scope) scope param ∨
          InPlace round readers types validator notes scope before param after position) ∧
        (scope ≠ pivotScope → ∀ target copy, self.copyOf validator param pivotScope =
          some (target, copy) → ¬ WrongAfterCopy round readers types self notes validator scope
            param pivotScope position target copy)

/-- The editor of dictionaries does not move the loop counter. -/
def LeavesIter (self : Program) (scope : Scope) (doc place : ℕ) : Change → Prop
  | .rename _ => True
  | .move _ _ => ∀ before param after, self.paramAt scope doc place = some (before, param, after) →
    param.keyword ≠ "iter"

end Statement

section Calls

variable {round : ℚ → ℚ} {check : Check} {self : Program} {notes rest : Notes} {v : ℕ} {scope : Scope}
  {doc place : ℕ} {validator : GebrValidator} {before after : Dict} {param : Parameter}

theorem sameTable_refl (vars : Vars) (notes : Notes) : SameTable vars vars notes notes :=
  fun _ _ => ⟨rfl, fun _ => rfl⟩

/-- What a result that is false has left as it was. -/
def Clean (self : Program) (notes : Notes) (v : ℕ) (validator : GebrValidator)
    (result : Option ((Program × Notes) × Bool)) : Prop :=
  ∀ next rest, result = some ((next, rest), false) → next.dicts = self.dicts ∧
    ∃ other ∈ next.validators[v]?, SameTable validator.vars other.vars notes rest

theorem clean_none : Clean self notes v validator none := by
  intro _ _ same
  cases same

theorem clean_true (next : Program) (rest : Notes) :
    Clean self notes v validator (some ((next, rest), true)) := by
  intro _ _ same
  cases same

theorem clean_self (here : self.validators[v]? = some validator) (returned : Bool) :
    Clean self notes v validator (some ((self, notes), returned)) := by
  rintro _ _ ⟨⟩
  exact ⟨rfl, validator, here, sameTable_refl _ _⟩

theorem clean_iff (next : Program) (rest : Notes) :
    Clean self notes v validator (some ((next, rest), false)) ↔ next.dicts = self.dicts ∧
    ∃ other ∈ next.validators[v]?, SameTable validator.vars other.vars notes rest := by
  constructor
  · exact fun clean => clean next rest rfl
  · rintro same _ _ ⟨⟩
    exact same

/-- A dictionary with another parameter in the place of one. -/
theorem dicts_ne (whole : self.dicts scope doc = before ++ param :: after) {next : Program}
    {dict : Dict} (changed : next.dicts scope doc = dict) (differ : dict ≠ before ++ param :: after) :
    next.dicts ≠ self.dicts := by
  intro same
  rw [same, whole] at changed
  exact differ changed.symm

/-- **A renaming** fails cleanly iff its new name is new in the scope. -/
theorem rename_clean_iff (here : self.validators[v]? = some validator)
    (found : self.paramAt scope doc place = some (before, param, after)) (newName : String) :
    Clean self notes v validator
        (some (renameReturning self notes v validator scope doc before param after newName)) ↔
      param.keyword = newName ∨ validator.vars param.keyword = none ∨
        entry validator.vars scope newName = none := by
  unfold renameReturning
  dsimp only
  by_cases same : param.keyword = newName
  · rw [if_pos same]
    exact iff_of_true (clean_true _ _) (.inl same)
  by_cases unknown : validator.vars param.keyword = none
  · have unchanged : self.rename v validator scope doc before param after newName = self := by
      unfold Program.rename
      rw [if_neg same, if_pos unknown]
    rw [if_neg same, if_pos unknown, unchanged]
    exact iff_of_true (clean_self here false) (.inr (.inl unknown))
  by_cases free : entry validator.vars scope newName = none
  · rw [if_neg same, if_neg unknown, if_neg (not_not_intro free)]
    exact iff_of_true (clean_true _ _) (.inr (.inr free))
  · rw [if_neg same, if_neg unknown, if_pos free, clean_iff]
    refine iff_of_false (fun clean => ?_) fun good => good.elim same fun good => good.elim unknown free
    have renamed : (self.rename v validator scope doc before param after newName).dicts scope doc =
        before ++ { param with keyword := newName } :: after := by
      unfold Program.rename
      rw [if_neg same, if_neg unknown, dicts_setVars, dicts_setDict_self]
    refine dicts_ne (paramAt_some found) renamed (fun equal => ?_) clean.1
    have keywords := (List.cons.inj (List.append_cancel_left equal)).1
    exact same (congrArg Parameter.keyword keywords).symm

/-- The rest of the table does not notice that a parameter leaves and enters. -/
theorem entry_reinsert (vars : Vars) {first last : Option Parameter} {other : Scope} {name : String}
    (apart : ¬ (other = scope ∧ name = param.keyword)) :
    entry (insertParam round (hashDataRemove vars param.keyword scope).1 scope first last param)
      other name = entry vars other name := by
  have left : entry (hashDataRemove vars param.keyword scope).1 other name =
      entry vars other name := by
    rw [entry_remove, if_neg apart]
  unfold insertParam
  by_cases empty : param.keyword = ""
  · rw [if_pos empty]
    exact left
  · simp only [if_neg empty, Function.update_idem]
    rw [entry_insertData, if_neg apart]
    exact left

theorem setDict_eq_iff {dict : Dict} :
    (self.setDict scope doc dict).dicts = self.dicts ↔ dict = self.dicts scope doc := by
  constructor
  · intro same
    rw [← same, dicts_setDict_self]
  · intro same
    funext at' other
    by_cases there : at' = scope ∧ other = doc
    · obtain ⟨rfl, rfl⟩ := there
      rw [dicts_setDict_self, same]
    · exact dicts_setDict_other dict fun scopes docs => there ⟨scopes, docs⟩

/-- A move within its scope leaves the parameter in its place, with the weight and the notes that
the table has. -/
structure Stays (round : ℚ → ℚ) (validator : GebrValidator) (notes rest : Notes) (scope : Scope)
    (before : Dict) (param : Parameter) (after : Dict) (position : ℕ) : Prop where
  order : (before ++ after).take position ++ param :: (before ++ after).drop position =
    before ++ param :: after
  weight : entry (placedVars round validator.vars scope scope ((before ++ after).take position)
      ((before ++ after).drop position) param) scope param.keyword =
    entry validator.vars scope param.keyword
  noted : ∀ other name, entry validator.vars other name ≠ none → rest other name = notes other name

/-- **A move within a scope** that returns false is clean iff everything stays. -/
theorem within_clean_iff (here : self.validators[v]? = some validator)
    (found : self.paramAt scope doc place = some (before, param, after)) {position : ℕ} :
    Clean self notes v validator
        (some ((self.moveWithin round v validator scope doc before param after position, rest),
      false)) ↔ Stays round validator notes rest scope before param after position := by
  have table := fun vars => (@getElem?_setVars (self.setDict scope doc
    ((before ++ after).take position ++ param :: (before ++ after).drop position)) v
      validator here vars).1
  rw [clean_iff, Program.moveWithin]
  simp only [dicts_setVars, setDict_eq_iff, paramAt_some found, table, Option.mem_def,
    Option.some.injEq, exists_eq_left']
  constructor
  · rintro ⟨order, same⟩
    exact ⟨order, (same scope param.keyword).1, fun other name there => (same other name).2 there⟩
  · intro stays
    refine ⟨stays.order, fun other name => ⟨?_, stays.noted other name⟩⟩
    by_cases itself : other = scope ∧ name = param.keyword
    · obtain ⟨rfl, rfl⟩ := itself
      exact stays.weight
    · exact entry_reinsert validator.vars itself

/-- **A move to another scope** that is carried out is never clean when it returns false. -/
theorem across_not_clean (found : self.paramAt scope doc place = some (before, param, after))
    {pivotScope : Scope} (apart : scope ≠ pivotScope) (position : ℕ) (rest : Notes) :
    ¬ Clean self notes v validator
      (some ((self.moveAcross round v validator scope doc before param after pivotScope position,
      rest), false)) := by
  rw [clean_iff]
  rintro ⟨same, -⟩
  have left : (self.moveAcross round v validator scope doc before param after pivotScope
      position).dicts scope doc = before ++ after := by
    unfold Program.moveAcross
    dsimp only
    cases setDictKeyword (self.getDocument validator pivotScope) self.fresh param.type param.keyword
        param.value with
    | none => rw [dicts_setVars, dicts_setDict_self]
    | some pair =>
      dsimp only
      rw [dicts_setVars, dicts_setDict_other _ fun scopes => absurd scopes apart]
      exact dicts_setDict_self _
  refine dicts_ne (paramAt_some found) left (fun equal => ?_) same
  have lengths := congrArg List.length equal
  rw [List.length_append, List.length_append, List.length_cons] at lengths
  omega

end Calls

section Checked

variable {round : ℚ → ℚ} {readers : Readers} {types : ℕ → GebrGeoXmlParameterType}
    {validateIter : Check}
  {self : Program} {notes rest : Notes} {v depth : ℕ} {scope pivotScope : Scope}
  {doc place position target : ℕ} {validator : GebrValidator} {vars : Vars} {before after : Dict}
  {param copy : Parameter} {failed : Bool}

theorem setNote_here (note : Note) (name : String) :
    setNote notes scope name note scope name = note := by
  rw [setNote, Function.update_self, Function.update_self]

theorem setNote_other {other : Scope} {name key : String} (note : Note)
    (apart : ¬ (other = scope ∧ key = name)) :
    setNote notes scope name note other key = notes other key := by
  unfold setNote
  by_cases same : other = scope
  · subst same
    rw [Function.update_self, Function.update_of_ne fun equal => apart ⟨rfl, equal⟩]
  · rw [Function.update_of_ne same]

theorem setNote_same (name : String) : setNote notes scope name (notes scope name) = notes := by
  rw [setNote, Function.update_eq_self, Function.update_eq_self]

theorem removeNotes_here (name : String) : removeNotes vars notes name scope scope name = .blank :=
  if_pos ⟨rfl, .inl rfl⟩

theorem outcome_isSome_of_kept {good : Bool} {failure : Failure}
    (reported : outcome readers param good = some failure) (kept : failure.kept = true)
    (other : Bool) : (outcome readers param other).isSome = true := by
  unfold outcome at reported ⊢
  by_cases empty : param.value = ""
  · rw [if_pos empty] at reported
    cases reported
  rw [if_neg empty] at reported ⊢
  have unkept : badReference.kept ≠ true := Bool.false_ne_true
  by_cases text : isText param.type
  · rw [if_pos text] at reported ⊢
    by_cases blank : readers.blank param.value = true
    · rw [if_pos blank] at reported
      cases reported
    rw [if_neg blank] at reported ⊢
    cases translated : readers.translate param.value with
    | error first => rfl
    | ok names =>
      rw [translated] at reported
      cases good with
      | false => exact absurd (Option.some.inj reported ▸ kept) unkept
      | true =>
        cases other with
        | false => rfl
        | true => exact Option.isSome_of_eq_some reported
  rw [if_neg text] at reported ⊢
  by_cases number : isNumber param.type
  · rw [if_pos number] at reported ⊢
    by_cases blank : readers.blank param.value = true
    · rw [if_pos blank]
      rfl
    rw [if_neg blank] at reported ⊢
    cases good with
    | false => exact absurd (Option.some.inj reported ▸ kept) unkept
    | true =>
      cases other with
      | false => rfl
      | true => exact Option.isSome_of_eq_some reported
  · rw [if_neg number] at reported
    cases reported

/-- **The check of a value**: what it leaves and reports. -/
theorem changeValue_some (movable : param.keyword ≠ "iter")
    (checked : changeValue readers types validateIter depth vars notes scope param =
    some (rest, failed)) : (param.required = true ∧ param.value = "") ∧ failed = true ∧
        rest = setNote notes scope param.keyword
          { notes scope param.keyword with error := some missingValue.message } ∨
      ¬ (param.required = true ∧ param.value = "") ∧ ∃ good : Bool,
        (good = false ↔ FaultyAt readers types vars (setNote notes scope param.keyword
          { notes scope param.keyword with dep := [] }) scope param) ∧
        failed = (outcome readers param good).isSome ∧
        rest = setNote notes scope param.keyword
          ⟨namesOf readers param, keptError (outcome readers param good)⟩ := by
  unfold changeValue at checked
  by_cases missing : param.required = true ∧ param.value = ""
  · rw [if_pos missing] at checked
    obtain ⟨rfl, rfl⟩ := Prod.mk.inj (Option.some.inj checked)
    exact .inl ⟨missing, rfl, rfl⟩
  · rw [if_neg missing, if_neg movable] at checked
    obtain ⟨good, answered, same⟩ := Option.map_eq_some_iff.1 checked
    obtain ⟨rfl, rfl⟩ := Prod.mk.inj same
    refine .inr ⟨missing, good, ?_, rfl, ?_⟩
    · exact @answer_iff vars _ depth ⟨some param.keyword, param.type, scope, namesOf readers param⟩
        good answered
    · unfold setNote
      rw [Function.update_idem, Function.update_self, Function.update_idem]

/-- The answer is one. -/
theorem good_unique {good other : Bool} {fault : Prop} (one : good = false ↔ fault)
    (two : other = false ↔ fault) : good = other := by
  cases good <;> cases other
  · rfl
  · exact absurd (two.2 (one.1 rfl)) (Bool.false_ne_true ·.symm)
  · exact absurd (one.2 (two.1 rfl)) (Bool.false_ne_true ·.symm)
  · rfl

theorem exists_good (fault : Prop) : ∃ good : Bool, good = false ↔ fault := by
  by_cases wrong : fault
  · exact ⟨false, iff_of_true rfl wrong⟩
  · exact ⟨true, iff_of_false (Bool.false_ne_true ·.symm) wrong⟩

/-- **Within a scope**: the check reports an error just when the value is wrong at its place, and
leaves the note about it. -/
theorem insertCheck_blank (movable : param.keyword ≠ "iter")
    (blank : notes scope param.keyword = .blank)
      (checked : insertCheck (changeValue readers types validateIter depth) vars notes scope param =
    some (rest, failed)) : (failed = true ↔ WrongAt readers types vars notes scope param) ∧
      (failed = true → ∀ note, NotedAt readers types vars notes scope param note ↔
        note = rest scope param.keyword) ∧
      ∀ other key, ¬ (other = scope ∧ key = param.keyword) → rest other key = notes other key := by
  unfold insertCheck at checked
  by_cases named : param.keyword = ""
  · rw [if_pos named] at checked
    obtain ⟨rfl, rfl⟩ := Prod.mk.inj (Option.some.inj checked)
    exact ⟨iff_of_false (Bool.false_ne_true ·) fun wrong => wrong.1 named,
      fun wrong => absurd wrong Bool.false_ne_true, fun _ _ _ => rfl⟩
  rw [if_neg named] at checked
  have cleared : setNote notes scope param.keyword { notes scope param.keyword with dep := [] } =
      notes := by
    have same : ({ notes scope param.keyword with dep := [] } : Note) = notes scope param.keyword := by
      rw [blank]
      rfl
    rw [same, setNote_same]
  rcases changeValue_some movable checked with ⟨missing, rfl, rfl⟩ | ⟨present, good, answer, rfl, rfl⟩
  · refine ⟨iff_of_true rfl ⟨named, .inl missing⟩, fun _ note => ?_, fun _ _ apart =>
      setNote_other _ apart⟩
    rw [NotedAt, if_pos missing, setNote_here, blank]
    rfl
  · rw [cleared] at answer
    refine ⟨⟨fun reported => ⟨named, .inr ⟨good, answer, reported⟩⟩, ?_⟩, fun _ note => ?_,
      fun _ _ apart => setNote_other _ apart⟩
    · rintro ⟨-, missing | ⟨other, answer', reported⟩⟩
      · exact absurd missing present
      · rw [good_unique answer answer']
        exact reported
    · rw [NotedAt, if_neg present, setNote_here]
      constructor
      · rintro ⟨other, answer', rfl⟩
        rw [good_unique answer answer']
      · rintro rfl
        exact ⟨good, answer, rfl⟩

/-- Where a variable leaves one scope, the notes of the entries that stay are the same. -/
theorem removeNotes_other {other : Scope} {name key : String} (apart : ¬ (other = scope ∧ key = name))
    (there : entry vars other key ≠ none) : removeNotes vars notes name scope other key =
    notes other key := by
  refine if_neg ?_
  rintro ⟨rfl, same | gone⟩
  · exact apart ⟨same, rfl⟩
  · have stays := entry_remove vars key scope other key
    rw [if_neg apart] at stays
    rw [← stays, entry, gone] at there
    exact there rfl

/-- Everything stays just when the parameter is in its place. -/
theorem stays_iff (stored : entry validator.vars scope param.keyword ≠ none)
    (noted : NotedAt readers types (placedVars round validator.vars scope scope
        ((before ++ after).take position) ((before ++ after).drop position) param)
      (removeNotes validator.vars notes param.keyword scope) scope param (notes scope param.keyword) ↔
        notes scope param.keyword = rest scope param.keyword)
    (others : ∀ other key, ¬ (other = scope ∧ key = param.keyword) →
      rest other key = removeNotes validator.vars notes param.keyword scope other key) :
    Stays round validator notes rest scope before param after position ↔
      InPlace round readers types validator notes scope before param after position := by
  constructor
  · intro stays
    exact ⟨stays.order, stays.weight, noted.2 (stays.noted scope param.keyword stored).symm⟩
  · intro inPlace
    refine ⟨inPlace.order, inPlace.weight, fun other key there => ?_⟩
    by_cases itself : other = scope ∧ key = param.keyword
    · obtain ⟨rfl, rfl⟩ := itself
      exact (noted.1 inPlace.note).symm
    · rw [others other key itself, removeNotes_other itself there]

/-- **To another scope**: the second check reports an error just when the value is wrong at its new
place, whatever the first one has left. -/
theorem checkAcross_failed (movable : copy.keyword ≠ "iter")
    (checked : checkAcross round (changeValue readers types validateIter depth) self notes
      validator scope param pivotScope position target copy = some (rest, failed)) :
    failed = true ↔
      WrongAfterCopy round readers types self notes validator scope param pivotScope position
      target copy := by
  unfold checkAcross at checked
  obtain ⟨⟨first, reported⟩, appended, placed⟩ := Option.bind_eq_some_iff.1 checked
  unfold insertCheck at appended placed
  unfold WrongAfterCopy WrongAt
  dsimp only at appended placed ⊢
  by_cases named : copy.keyword = ""
  · rw [if_pos named] at placed
    obtain ⟨rfl, rfl⟩ := Prod.mk.inj (Option.some.inj placed)
    exact iff_of_false (Bool.false_ne_true ·) fun wrong => wrong.1 named
  rw [if_neg named] at appended placed
  rw [and_iff_right named]
  rcases changeValue_some movable appended with ⟨missing, rfl, -⟩ | ⟨present, good, -, -, left⟩
  · -- a missing value is missing twice
    rcases changeValue_some movable placed with ⟨-, rfl, -⟩ | ⟨present, -⟩
    · exact iff_of_true rfl (.inl missing)
    · exact absurd missing present
  rcases changeValue_some movable placed with ⟨missing, -⟩ | ⟨-, again, answer, rfl, -⟩
  · exact absurd missing present
  rw [or_iff_right present]
  cases kept : keptError (outcome readers copy good) with
  | some message =>
    -- the text is wrong at any place
    obtain ⟨failure, wrong, isKept⟩ := Option.bind_eq_some_iff.1 kept
    have always := outcome_isSome_of_kept wrong (by_contra fun not => by
      rw [if_neg not] at isKept; cases isKept)
    exact iff_of_true (always again) ((exists_good _).imp fun other answer' => ⟨answer', always other⟩)
  | none =>
    -- nothing is kept of the first check
    rw [kept] at left
    have clear : setNote (removeNotes (appendedVars round validator.vars pivotScope
          (self.dicts pivotScope target) copy) first param.keyword scope) pivotScope copy.keyword
        { removeNotes (appendedVars round validator.vars pivotScope (self.dicts pivotScope target)
            copy) first param.keyword scope pivotScope copy.keyword with dep := [] } =
        setNote (removeNotes
          (appendedVars round validator.vars pivotScope (self.dicts pivotScope target) copy) notes
              param.keyword scope) pivotScope copy.keyword .blank := by
      funext other key
      by_cases own : other = pivotScope ∧ key = copy.keyword
      · obtain ⟨rfl, rfl⟩ := own
        rw [setNote_here, setNote_here, left]
        unfold removeNotes
        split_ifs
        · rfl
        · rw [setNote_here]
          rfl
      · rw [setNote_other _ own, setNote_other _ own]
        unfold removeNotes
        rw [left, setNote_other _ own]
    rw [clear] at answer
    constructor
    · exact fun wrong => ⟨again, answer, wrong⟩
    · rintro ⟨other, answer', wrong⟩
      rw [good_unique answer answer']
      exact wrong

theorem moveReturning_within {check : Check} {data : HashData}
    (known : validator.vars param.keyword = some data)
    (opened : (validator.docs scope).head?.join ≠ none)
      (stored : data.param scope = some param.node) :
        moveReturning round check self notes v validator scope doc before param after scope
        position = (checkWithin round check notes validator scope before param after position).map
        fun checked => ((self.moveWithin round v validator scope doc before param after position,
        checked.1), !checked.2) := by
  unfold moveReturning
  rw [known]
  dsimp only
  rw [if_neg opened, if_neg (not_not_intro stored), if_pos rfl]

theorem moveReturning_across {check : Check} {data : HashData}
    (known : validator.vars param.keyword = some data)
    (opened : (validator.docs pivotScope).head?.join ≠ none)
    (stored : data.param scope = some param.node) (apart : scope ≠ pivotScope)
      (free : data.param pivotScope = none) :
      moveReturning round check self notes v validator scope doc before param after pivotScope
      position = match self.copyOf validator param pivotScope with
      | none =>
        some ((self.moveAcross round v validator scope doc before param after pivotScope position,
          removeNotes validator.vars notes param.keyword scope), true)
      | some (target, copy) =>
        (checkAcross round check self notes validator scope param pivotScope position target copy).map
          fun checked => ((self.moveAcross round v validator scope doc before param after
            pivotScope position, checked.1), !checked.2) := by
  unfold moveReturning
  rw [known]
  dsimp only
  rw [if_neg opened, if_neg (not_not_intro stored), if_neg apart, if_neg (not_not_intro free)]

/-- A move that is not carried out has changed nothing. -/
theorem clean_of_not_carried {check : Check} (here : self.validators[v]? = some validator)
    (refused : ¬ Carried validator scope param pivotScope) :
    Clean self notes v validator
      (moveReturning round check self notes v validator scope doc before param after pivotScope
      position) := by
  unfold moveReturning
  cases known : validator.vars param.keyword with
  | none => exact clean_self here false
  | some data =>
    dsimp only
    split_ifs with blank stored same free
    · exact clean_self here false
    · exact clean_none
    · exact absurd ⟨data, known, blank, not_not.1 stored, fun apart => absurd same apart⟩ refused
    · exact clean_self here false
    · exact absurd ⟨data, known, blank, not_not.1 stored, fun _ => not_not.1 free⟩ refused

/-- **A move** fails cleanly, however deep its check goes, just when the value is not wrong at its
new place or the parameter stands there already. -/
theorem move_clean_iff (here : self.validators[v]? = some validator)
    (found : self.paramAt scope doc place = some (before, param, after))
    (movable : param.keyword ≠ "iter") : (∀ depth, Clean self notes v validator (moveReturning round
        (changeValue readers types validateIter depth) self notes v validator scope doc
        before param after pivotScope position)) ↔
      (Carried validator scope param pivotScope →
        (∃ depth result, moveReturning round (changeValue readers types validateIter depth) self
          notes v validator scope doc before param after pivotScope position = some result) →
        (scope = pivotScope →
          ¬ WrongAt readers types (placedVars round validator.vars scope scope
              ((before ++ after).take position) ((before ++ after).drop position) param)
            (removeNotes validator.vars notes param.keyword scope) scope param ∨
          InPlace round readers types validator notes scope before param after position) ∧
        (scope ≠ pivotScope → ∀ target copy, self.copyOf validator param pivotScope =
          some (target, copy) → ¬ WrongAfterCopy round readers types self notes validator scope
            param pivotScope position target copy)) := by
  by_cases carried : Carried validator scope param pivotScope
  · refine Iff.trans ?_ (forall_prop_of_true carried).symm
    obtain ⟨data, known, opened, stored, free⟩ := carried
    by_cases same : scope = pivotScope
    · subst same
      simp only [moveReturning_within known opened stored]
      have inside : entry validator.vars scope param.keyword ≠ none := by
        rw [entry_some known, HashData.cell, stored]
        exact Option.some_ne_none _
      -- what one depth says of the value and of the rest
      have checks : ∀ {depth rest failed}, checkWithin round
          (changeValue readers types validateIter depth) notes validator scope before param after
              position = some (rest, failed) → _ := fun checked =>
        insertCheck_blank movable (removeNotes_here param.keyword) checked
      constructor
      · rintro clean ⟨depth, result, returned⟩
        refine ⟨fun _ => or_iff_not_imp_left.2 fun wrong => ?_, fun apart => absurd rfl apart⟩
        obtain ⟨⟨rest, failed⟩, checked, -⟩ := Option.map_eq_some_iff.1 returned
        obtain ⟨iff, noted, others⟩ := checks checked
        obtain rfl := iff.2 (not_not.1 wrong)
        have stays := clean depth
        rw [checked, Option.map_some] at stays
        exact (stays_iff inside (noted rfl _) others).1 ((within_clean_iff here found).1 stays)
      · intro good depth
        cases checked : checkWithin round (changeValue readers types validateIter depth)
            notes validator scope before param after position with
        | none => exact clean_none
        | some pair =>
          obtain ⟨rest, failed⟩ := pair
          obtain ⟨iff, noted, others⟩ := checks checked
          cases failed with
          | false => exact clean_true _ _
          | true =>
            have returns := (good ⟨depth, _, by rw [checked, Option.map_some]⟩).1 trivial
            have inPlace := returns.resolve_left (not_not_intro (iff.1 rfl))
            exact (within_clean_iff here found).2 ((stays_iff inside (noted rfl _) others).2 inPlace)
    · simp only [moveReturning_across known opened stored same (free same)]
      cases copied : self.copyOf validator param pivotScope with
      | none =>
        refine iff_of_true (fun _ => clean_true _ _) fun _ => ⟨fun equal => absurd equal same, ?_⟩
        intro _ _ _ never
        cases never
      | some pair =>
        obtain ⟨target, copy⟩ := pair
        dsimp only
        have movable' : copy.keyword ≠ "iter" := (copyOf_keyword copied).trans_ne movable
        constructor
        · rintro clean ⟨depth, result, returned⟩
          refine ⟨fun equal => absurd equal same, fun _ _ _ pair wrong => ?_⟩
          obtain ⟨rfl, rfl⟩ := Prod.mk.inj (Option.some.inj pair)
          obtain ⟨⟨rest, failed⟩, checked, -⟩ := Option.map_eq_some_iff.1 returned
          obtain rfl := (checkAcross_failed movable' checked).2 wrong
          have moved := clean depth
          rw [checked, Option.map_some] at moved
          exact across_not_clean found same position _ moved
        · intro good depth
          cases checked : checkAcross round (changeValue readers types validateIter depth) self notes
              validator scope param pivotScope position target copy with
          | none => exact clean_none
          | some pair =>
            obtain ⟨rest, failed⟩ := pair
            cases failed with
            | false => exact clean_true _ _
            | true =>
              have fine := (good ⟨depth, _, by rw [checked, Option.map_some]⟩).2 same target copy rfl
              exact absurd ((checkAcross_failed movable' checked).1 rfl) fine
  · exact iff_of_true (fun _ => clean_of_not_carried here carried) fun carried' =>
      absurd carried' carried

end Checked

section Examples

/-- A project with two variables, and its validator. -/
def pair : Program :=
  (Program.start (fun _ cell => some cell)
    (fun scope _ => if scope = .project then
      [{ node := 0, keyword := "x", type := .float, value := "1", required := true },
        { node := 1, keyword := "y", type := .float, value := "2", required := true }] else []) 2
    |>.step id (.new (some 0) (some 0) (some 0))).getD (.start (fun _ _ => none) (fun _ _ => []) 0)

/-- Numbers without names, that bc evaluates. -/
def plainReaders : Readers where
  blank value := value = ""
  translate _ := .ok []
  extract _ := []
  evaluate _ _ := none
  path _ := none

/-- The loop counter is in order. -/
def counterFine : Check := fun _ notes _ _ => some (notes, false)

end Examples

end Gebr.Validator
