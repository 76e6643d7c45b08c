/-
**The evaluation of string expressions.**

The validator defines the variables of the dictionaries in bc, each string variable as a case of a
function that prints it, and then has the expression printed. A reference to a string prints the
string, the zero that the function returns, and a backspace.

* `emitted`, `updateVars`: the variables that are defined, and whether bc reads the definitions.
* `validateExpr`: the check of an expression before it is evaluated.
* `resolve`, `resolve_eq`: what a reference stands for, when it is known what a variable stands for
  in terms of its own references.
* `raw`, `evaluateInterval`, `evaluate`: what bc prints, and what is made of it.
-/

import Gebr.Validator.BcOutput
import Gebr.Validator.Dictionaries

namespace Gebr.Validator.Evaluate

open Gebr.Lib.CString (ascii gStrstrip gAsciiIsspace)
open Gebr.Validator.BcOutput
open Gebr.Validator.Scoping
open Gebr.Validator.StringExpr

section Resolve

variable (dicts : Dictionaries)

/-- What is made of the variable that a name refers to. A variable that is not there, or the
variable itself, is none. -/
def follow (myName : Option Text) (myScope : Scope) (found : Scope → Variable → Text) (name : Text) :
    Text :=
  if myName = some name then []
  else
    match dicts.getDepParam myName myScope name with
    | none => []
    | some depScope =>
      match dicts.find depScope name with
      | none => []
      | some dep => found depScope dep

/-- What a name stands for, to a depth. `body` says what a variable stands for when its own
references are known. -/
def resolve (body : (Text → Text) → Scope → Variable → Text) : ℕ → Option Text → Scope → Text → Text
  | 0, _, _, _ => []
  | depth + 1, myName, myScope, name =>
    follow dicts myName myScope
      (fun depScope dep => body (resolve body depth (some name) depScope) depScope dep) name

/-- What a name stands for: no chain of references is longer than there are variables. -/
def resolved (body : (Text → Text) → Scope → Variable → Text) (myName : Option Text)
    (myScope : Scope) : Text → Text :=
  resolve dicts body (dicts.total + 1) myName myScope

variable {dicts} {body : (Text → Text) → Scope → Variable → Text}

theorem follow_congr {myName : Option Text} {myScope : Scope} {found found' : Scope → Variable → Text}
    {name : Text}
    (same : ∀ depScope dep, myName ≠ some name → dicts.getDepParam myName myScope name =
      some depScope → dicts.find depScope name = some dep → found depScope dep = found' depScope dep) :
    follow dicts myName myScope found name = follow dicts myName myScope found' name := by
  unfold follow
  by_cases itself : myName = some name
  · rw [if_pos itself, if_pos itself]
  · rw [if_neg itself, if_neg itself]
    cases place : dicts.getDepParam myName myScope name with
    | none => rfl
    | some depScope =>
      cases there : dicts.find depScope name with
      | none => simp only [there]
      | some dep => simp only [there, same depScope dep itself place there]

/-- Below a variable no more depth is needed than there are variables before it. -/
theorem resolve_stable {me : Text} {myScope : Scope} {mine : Variable} {depth other : ℕ}
    (here : dicts.find myScope me = some mine) (enough : rank dicts myScope me < depth)
    (enough' : rank dicts myScope me < other) :
    resolve dicts body depth (some me) myScope = resolve dicts body other (some me) myScope := by
  induction depth generalizing me myScope mine other with
  | zero => omega
  | succ depth ih =>
    obtain ⟨other, rfl⟩ := Nat.exists_eq_succ_of_ne_zero (by omega : other ≠ 0)
    funext name
    apply follow_congr
    intro depScope dep itself place there
    have before := getDepParam_rank here (fun same => itself (congrArg some same)) place
    rw [ih there (by omega) (by omega : rank dicts depScope name < other)]

/-- **What a name stands for**, one step at a time. -/
theorem resolved_eq (myName : Option Text) (myScope : Scope) (name : Text) :
    resolved dicts body myName myScope name = follow dicts myName myScope
      (fun depScope dep => body (resolved dicts body (some name) depScope) depScope dep) name := by
  apply follow_congr
  intro depScope dep _ _ there
  have inside := rank_lt_total there
  rw [resolved, resolve_stable there inside (by omega : rank dicts depScope name < dicts.total + 1)]

end Resolve

section Model

/-- The value of the loop counter at which bc prints. -/
inductive Turn where
  | initial
  | final
  deriving DecidableEq, Repr

/-- bc, as far as the evaluation rests on it. -/
structure Bc where
  wrap : LineBreaks
  /-- Whether a definition of a number by this value is one that it reads. -/
  reads : Text → Bool
  /-- What it prints for a number of the dictionaries that are defined. -/
  number : Dictionaries → Turn → Scope → Text → Text
  /-- A number has no backspace. -/
  plain : ∀ dicts turn scope name, 8 ∉ number dicts turn scope name
  /-- What it answers to a number expression. -/
  answer : Dictionaries → Text → List Text

/-- Why there is no value. -/
inductive EvaluateError where
  | variables
  | empty
  | invalid
  | reference
  | tooBig
  | internal (error : EvalError)
  deriving DecidableEq, Repr

/-- The items of an expression; none when it cannot be read. -/
def itemsOf (expr : Text) : List PrintItem :=
  match translateStringExpr expr with
  | .ok items => items
  | .error _ => []

/-- The variables that `gebr_validator_update_vars` defines, in the order it defines them. -/
def emitted (dicts : Dictionaries) (paramScope : Scope) : List (Scope × Variable) :=
  paramScope.outwards.reverse.flatMap fun scope =>
    ((dicts.vars scope).filter fun var =>
      !var.error && dicts.wellDefined (some var.name) var.type scope var.dep).map (scope, ·)

/-- `gebr_validator_update_vars`: whether bc reads all the definitions. -/
def updateVars (bc : Bc) (dicts : Dictionaries) (paramScope : Scope) : Bool :=
  (emitted dicts paramScope).all fun entry => entry.2.type = .string || bc.reads entry.2.value

/-- `gebr_validator_validate_expr_on_scope`, of a string. -/
def validateString (dicts : Dictionaries) (expr : Text) (scope : Scope) : Except EvaluateError Unit :=
  if expr = [] then .ok ()
  else if gStrstrip expr = [] then .ok ()
  else
    match translateStringExpr expr with
    | .error _ => .error .invalid
    | .ok items => if dicts.wellDefined none .string scope (references items) then .ok ()
      else .error .reference

/-- `MAX_RESULT_LENGTH`. -/
def maxResultLength : ℕ := 68

def isLetter (b : UInt8) : Bool := (97 ≤ b && b ≤ 122) || (65 ≤ b && b ≤ 90)

def isWordByte (b : UInt8) : Bool := isLetter b || (48 ≤ b && b ≤ 57) || b = 95

/-- The loop of `gebr_arith_expr_extract_vars`: `word` is the word that is being read, and `ended`
says that a blank has followed it. A word before a bracket is a function. -/
def extractLoop : Text → Bool → List Text → Text → List Text
  | word, _, vars, [] => if word = [] ∨ word ∈ vars then vars else vars ++ [word]
  | word, ended, vars, b :: expr =>
    if word = [] then extractLoop (if isLetter b then [b] else []) false vars expr
    else if !ended && isWordByte b then extractLoop (word ++ [b]) false vars expr
    else if gAsciiIsspace b then extractLoop word true vars expr
    else extractLoop [] false (if b = 40 ∨ word ∈ vars then vars else vars ++ [word]) expr

/-- `gebr_arith_expr_extract_vars`. -/
def extractVars (expr : Text) : List Text := extractLoop [] false [] expr

/-- `gebr_validator_validate_expr_on_scope`, of a number. `type` is what the references are checked
for. -/
def validateNumber (bc : Bc) (dicts : Dictionaries) (expr : Text) (type : VarType) (scope : Scope) :
    Except EvaluateError Unit :=
  if expr = [] then .ok ()
  else if gStrstrip expr = [] then .error .empty
  else if dicts.wellDefined none type scope (extractVars expr) = false then .error .reference
  else if 59 ∈ expr then .error .invalid
  else if 34 ∈ expr then .error .invalid
  else
    match evalInternal (bc.answer dicts expr) with
    | .error error => .error (.internal error)
    | .ok result => if maxResultLength < result.length then .error .tooBig else .ok ()

/-- What bc prints for a variable, by what it prints for the references of it. A string variable
that is empty is defined by the line end that is written after it, which bc prints as it stands. -/
def rawBody (bc : Bc) (dicts : Dictionaries) (turn : Turn) (references : Text → Text) (scope : Scope)
    (var : Variable) : Text :=
  if var.type = .string then
    (if var.value = [] then ascii "\\n" else printed references (itemsOf var.value)) ++ [48, 8]
  else bc.number dicts turn scope var.name

/-- What bc prints for an expression of a scope. -/
def raw (bc : Bc) (dicts : Dictionaries) (turn : Turn) (scope : Scope) (expr : Text) : Text :=
  printed (resolved dicts (rawBody bc dicts turn) none scope) (itemsOf expr)

/-- How the values at both ends of the loop are shown. -/
def interval (first last : Text) : Text :=
  ascii "[\"" ++ first ++ ascii "\", ..., \"" ++ last ++ ascii "\"]"

/-- `gebr_validator_use_iter`, of a string. -/
def useIter (dicts : Dictionaries) (expr : Text) (scope : Scope) : Bool :=
  scope = .flow && dicts.useIter .string (references (itemsOf expr))

/-- `gebr_validator_evaluate_internal`, of a string. -/
def evaluateInternal (bc : Bc) (dicts : Dictionaries) (expr : Text) (scope : Scope)
    (showInterval : Bool) : Except EvaluateError Text :=
  match evalInternal (bcLines bc.wrap (raw bc dicts .initial scope expr)) with
  | .error error => .error (.internal error)
  | .ok first =>
    if showInterval && useIter dicts expr scope then
      match evalInternal (bcLines bc.wrap (raw bc dicts .final scope expr)) with
      | .error error => .error (.internal error)
      | .ok last => .ok (cleanString (interval first last))
    else .ok (cleanString first)

/-- `gebr_validator_evaluate_interval`, of a string. -/
def evaluateInterval (bc : Bc) (dicts : Dictionaries) (expr : Text) (scope : Scope)
    (showInterval : Bool) : Except EvaluateError Text :=
  if expr = [] then .ok []
  else if updateVars bc dicts scope = false then .error .variables
  else
    match validateString dicts expr scope with
    | .error error => .error error
    | .ok () => evaluateInternal bc dicts expr scope showInterval

/-- `gebr_validator_evaluate`, of a string. -/
def evaluate (bc : Bc) (dicts : Dictionaries) (expr : Text) (scope : Scope) :
    Except EvaluateError Text :=
  evaluateInterval bc dicts expr scope true

end Model

end Gebr.Validator.Evaluate
