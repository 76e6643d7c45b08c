/-
**The value of a string expression is its substitution.**

* `Valid`: dictionaries whose variables are valid; `meaning` is how the value of a string is written
  in the grammar of expressions.
* `substitution`: the text of an expression with its brackets made single and each name replaced by
  the value of the variable it refers to, a string by its own substitution.
* `spoils_resolve` — **what bc prints for a name is cleaned to what it stands for**, at every depth.
* `evaluate_eq` — **the value of an expression**: its substitution, or, of one that depends on the
  loop counter, both ends of it.
* `not_plain_substitution`: expressions that are evaluated to something else.
-/

import Gebr.Validator.Evaluate

namespace Gebr.Validator.Evaluate

open Gebr.Lib.CString (ascii)
open Gebr.Validator.BcOutput
open Gebr.Validator.Scoping
open Gebr.Validator.StringExpr

section Model

/-- **Dictionaries of valid variables**: none has an error, all that they refer to is well-defined,
bc reads the definitions of the numbers, and the strings are written in the grammar of
expressions. -/
structure Valid (bc : Bc) (dicts : Dictionaries) (meaning : Scope → Text → List Piece) : Prop where
  error : ∀ scope, ∀ var ∈ dicts.vars scope, var.error = false
  defined : ∀ scope, ∀ var ∈ dicts.vars scope,
    dicts.wellDefined (some var.name) var.type scope var.dep = true
  reads : ∀ scope, ∀ var ∈ dicts.vars scope, var.type ≠ .string → bc.reads var.value = true
  formed : ∀ scope, ∀ var ∈ dicts.vars scope, var.type = .string →
    ∀ piece ∈ meaning scope var.name, piece.WellFormed
  written : ∀ scope, ∀ var ∈ dicts.vars scope, var.type = .string →
    render (meaning scope var.name) = var.value
  dep : ∀ scope, ∀ var ∈ dicts.vars scope, var.type = .string → var.dep =
    names (meaning scope var.name)
  given : ∀ scope, ∀ var ∈ dicts.vars scope, var.type = .string → var.value ≠ []
  /-- A text of a document has no backspace. -/
  plain : ∀ scope, ∀ var ∈ dicts.vars scope, var.type = .string → 8 ∉ var.value

/-- What a variable stands for, when it is known what its references stand for. -/
def substBody (bc : Bc) (dicts : Dictionaries) (meaning : Scope → Text → List Piece) (turn : Turn)
    (references : Text → Text) (scope : Scope) (var : Variable) : Text :=
  if var.type = .string then substitute references (meaning scope var.name)
  else bc.number dicts turn scope var.name

/-- **The substitution of an expression** at a turn of the loop. -/
def substitution (bc : Bc) (dicts : Dictionaries) (meaning : Scope → Text → List Piece) (turn : Turn)
    (scope : Scope) (pieces : List Piece) : Text :=
  substitute (resolved dicts (substBody bc dicts meaning turn) none scope) pieces

/-- What is shown for an expression. -/
def shown (bc : Bc) (dicts : Dictionaries) (meaning : Scope → Text → List Piece) (scope : Scope)
    (pieces : List Piece) : Text :=
  if useIter dicts (render pieces) scope then
    interval (substitution bc dicts meaning .initial scope pieces)
      (substitution bc dicts meaning .final scope pieces)
  else substitution bc dicts meaning .initial scope pieces

end Model

section Cleaning

variable {bc : Bc} {dicts : Dictionaries} {meaning : Scope → Text → List Piece} {pieces : List Piece}

theorem itemsOf_render (formed : ∀ piece ∈ pieces, piece.WellFormed) :
    itemsOf (render pieces) = compile none pieces := by
  unfold itemsOf
  rw [translate_render formed]

theorem printed_render (value : Text → Text) (formed : ∀ piece ∈ pieces, piece.WellFormed) :
    printed value (itemsOf (render pieces)) = substitute value pieces := by
  rw [itemsOf_render formed, printed_compile]
  rfl

theorem spoils_substitute {spoiled value : Text → Text}
    (each : ∀ name, Spoils (spoiled name) (value name)) (plain : 8 ∉ render pieces) :
    Spoils (substitute spoiled pieces) (substitute value pieces) := by
  induction pieces with
  | nil => exact spoils_text List.not_mem_nil
  | cons piece pieces ih =>
    rw [render, List.flatMap_cons, List.mem_append, not_or] at plain
    have later := ih plain.2
    rw [substitute, substitute, List.flatMap_cons, List.flatMap_cons]
    cases piece with
    | text t => exact (spoils_text plain.1).append later
    | openBracket => exact (spoils_text (show 8 ∉ [91] by decide)).append later
    | closeBracket => exact (spoils_text (show 8 ∉ [93] by decide)).append later
    | var name => exact (each name).append later

/-- **What bc prints for a name is cleaned to what it stands for.** -/
theorem spoils_resolve (valid : Valid bc dicts meaning) (turn : Turn) (depth : ℕ)
    (myName : Option Text) (myScope : Scope) (name : Text) :
    Spoils (resolve dicts (rawBody bc dicts turn) depth myName myScope name)
      (resolve dicts (substBody bc dicts meaning turn) depth myName myScope name) := by
  induction depth generalizing myName myScope name with
  | zero => exact spoils_text List.not_mem_nil
  | succ depth ih =>
    unfold resolve follow
    split
    · exact spoils_text List.not_mem_nil
    · cases dicts.getDepParam myName myScope name with
      | none => exact spoils_text List.not_mem_nil
      | some depScope =>
        dsimp only
        cases found : dicts.find depScope name with
        | none => exact spoils_text List.not_mem_nil
        | some dep =>
          have there : dep ∈ dicts.vars depScope := List.mem_of_find?_eq_some found
          dsimp only
          unfold rawBody substBody
          by_cases string : dep.type = .string
          · have plain := valid.plain depScope dep there string
            have written := valid.written depScope dep there string
            rw [if_pos string, if_pos string, if_neg (valid.given depScope dep there string),
              ← written, printed_render _ (valid.formed depScope dep there string)]
            rw [← written] at plain
            exact (spoils_substitute (fun inner => ih (some name) depScope inner) plain).nested
              (by decide)
          · rw [if_neg string, if_neg string]
            exact spoils_text (bc.plain dicts turn depScope dep.name)

theorem spoils_raw (valid : Valid bc dicts meaning) (turn : Turn) (scope : Scope)
    (formed : ∀ piece ∈ pieces, piece.WellFormed) (plain : 8 ∉ render pieces) :
    Spoils (raw bc dicts turn scope (render pieces))
    (substitution bc dicts meaning turn scope pieces) := by
  rw [raw, printed_render _ formed]
  exact spoils_substitute (fun name => spoils_resolve valid turn _ none scope name) plain

theorem spoils_interval {first first' last last' : Text} (begins : Spoils first first')
    (ends : Spoils last last') : Spoils (interval first last) (interval first' last') := by
  have words : ∀ text ∈ [ascii "[\"", ascii "\", ..., \"", ascii "\"]"], 8 ∉ text := by decide
  unfold interval
  exact ((((spoils_text (words _ (by simp))).append begins).append
    (spoils_text (words _ (by simp)))).append ends).append (spoils_text (words _ (by simp)))

end Cleaning

section Evaluate

variable {bc : Bc} {dicts : Dictionaries} {meaning : Scope → Text → List Piece} {scope : Scope}
  {pieces : List Piece}

/-- Valid variables are all defined. -/
theorem updateVars_of_valid (valid : Valid bc dicts meaning) (scope : Scope) :
    updateVars bc dicts scope = true := by
  rw [updateVars, List.all_eq_true]
  rintro ⟨place, var⟩ member
  rw [emitted, List.mem_flatMap] at member
  obtain ⟨outer, -, member⟩ := member
  obtain ⟨var', inside, same⟩ := List.mem_map.1 member
  cases same
  have there := List.mem_of_mem_filter inside
  by_cases string : var.type = .string
  · simp [string]
  · simp [valid.reads place var there string]

/-- An expression that names valid variables is accepted. -/
theorem validateString_of_valid (valid : Valid bc dicts meaning)
    (formed : ∀ piece ∈ pieces, piece.WellFormed)
    (refers : ∀ name ∈ names pieces, (dicts.getParam name scope).isSome = true) :
    validateString dicts (render pieces) scope = .ok () := by
  have well : dicts.wellDefined none .string scope (names pieces) = true := by
    rw [wellDefined_eq, List.all_eq_true]
    intro name member
    obtain ⟨depScope, nearest⟩ := Option.isSome_iff_exists.1 (refers name member)
    obtain ⟨-, dep, found⟩ := firstScope_eq_some nearest
    have there : dep ∈ dicts.vars depScope := List.mem_of_find?_eq_some found
    rw [refers_expression, nearest, Option.bind_some, found, Option.map_some, Option.getD_some,
      valid.error depScope dep there, ← find_name found, valid.defined depScope dep there]
    rfl
  unfold validateString
  rw [translate_render formed]
  dsimp only
  rw [references_compile, if_pos well, ite_self, ite_self]

/-- What an expression is evaluated to: both ends of the loop where they are asked for. -/
theorem evaluateInterval_eq {showInterval : Bool} (valid : Valid bc dicts meaning)
    (formed : ∀ piece ∈ pieces, piece.WellFormed)
    (refers : ∀ name ∈ names pieces, (dicts.getParam name scope).isSome = true)
    (plain : 8 ∉ render pieces)
    (printable : Printable bc.wrap (raw bc dicts .initial scope (render pieces)))
    (printable' : (showInterval && useIter dicts (render pieces) scope) = true →
      Printable bc.wrap (raw bc dicts .final scope (render pieces))) :
    evaluateInterval bc dicts (render pieces) scope showInterval =
      .ok (if showInterval && useIter dicts (render pieces) scope then
        interval (substitution bc dicts meaning .initial scope pieces)
          (substitution bc dicts meaning .final scope pieces)
      else substitution bc dicts meaning .initial scope pieces) := by
  have spoils := fun turn => spoils_raw valid turn scope formed plain
  unfold evaluateInterval
  by_cases none : render pieces = []
  · have nothing : useIter dicts (render pieces) scope = false := by
      rw [none]
      unfold useIter Dictionaries.useIter
      split <;> simp [itemsOf, translateStringExpr, translateLoop, closeConstant, references,
        wellDefined_eq]
    have empty := (spoils .initial).cleanString_eq
    rw [none] at empty
    rw [if_pos none, nothing, Bool.and_false, if_neg (by decide), ← empty]
    rfl
  · rw [if_neg none, updateVars_of_valid valid scope, if_neg (by decide),
      validateString_of_valid valid formed refers]
    dsimp only
    unfold evaluateInternal
    rw [evalInternal_bcLines printable]
    dsimp only
    split
    · rename_i loop
      rw [evalInternal_bcLines (printable' loop)]
      dsimp only
      rw [(spoils_interval (spoils .initial) (spoils .final)).cleanString_eq]
    · rw [(spoils .initial).cleanString_eq]

/-- **The value of an expression.** -/
theorem evaluate_eq (valid : Valid bc dicts meaning) (formed : ∀ piece ∈ pieces, piece.WellFormed)
    (refers : ∀ name ∈ names pieces, (dicts.getParam name scope).isSome = true)
    (plain : 8 ∉ render pieces)
    (printable : Printable bc.wrap (raw bc dicts .initial scope (render pieces)))
    (printable' : useIter dicts (render pieces) scope = true →
      Printable bc.wrap (raw bc dicts .final scope (render pieces))) :
    evaluate bc dicts (render pieces) scope = .ok (shown bc dicts meaning scope pieces) := by
  have value := @evaluateInterval_eq _ _ _ scope pieces true valid formed refers plain
    printable printable'
  rw [evaluate, value, Bool.true_and, shown]

/-- bc with lines as long as need be. It reads every definition that is not empty, and prints the
loop counter from one to three. -/
def loopBc : Bc where
  wrap := .whole
  reads := fun value => value ≠ []
  number := fun _ turn _ _ => if turn = .initial then ascii "1" else ascii "3"
  plain := fun _ turn _ _ => by cases turn <;> decide
  answer := fun _ _ => [ascii "1\n"]

/-- A dictionary of the flow alone. -/
def flowDicts (vars : List Variable) (distinct : (vars.map Variable.name).Nodup) : Dictionaries where
  vars := fun scope => if scope = .flow then vars else []
  distinct := by
    intro scope
    split
    · exact distinct
    · exact List.nodup_nil

/-- The loop counter, and two strings of which one refers to the other. -/
def sampleDicts : Dictionaries :=
  flowDicts [⟨ascii "iter", .float, ascii "(1)+(1)*((3)-1)", [], false⟩,
    ⟨ascii "quote", .string, ascii "a\"\\", [], false⟩,
    ⟨ascii "twice", .string, ascii "[quote][[[quote]", [ascii "quote", ascii "quote"], false⟩]
      (by decide)

/-- How the strings are written. -/
def sampleMeaning (_ : Scope) (name : Text) : List Piece :=
  if name = ascii "quote" then [.text (ascii "a\"\\")]
  else [.var (ascii "quote"), .openBracket, .var (ascii "quote")]

theorem sample_valid : Valid loopBc sampleDicts sampleMeaning := by
  refine ⟨?_, ?_, ?_, ?_, ?_, ?_, ?_, ?_⟩ <;>
    (intro scope var member
     cases scope <;> revert var <;> decide +kernel)

/-- A string that is nested twice, with quotes and backslashes. -/
theorem evaluate_eq_sample :
    evaluate loopBc sampleDicts (render [.var (ascii "twice"), .closeBracket, .text (ascii ".")])
        .flow = .ok (shown loopBc sampleDicts sampleMeaning .flow
          [.var (ascii "twice"), .closeBracket, .text (ascii ".")]) ∧
      shown loopBc sampleDicts sampleMeaning .flow
        [.var (ascii "twice"), .closeBracket, .text (ascii ".")] = ascii "a\"\\[a\"\\]." :=
  ⟨evaluate_eq sample_valid (by decide) (by decide +kernel) (by decide)
    ⟨by decide +kernel, by decide +kernel, by decide +kernel, by decide +kernel⟩
      (fun loop => absurd loop (by decide +kernel)),
    by decide +kernel⟩

/-- **What is not plain substitution**: of an expression that depends on the loop counter both ends
are shown, by design. And a backslash at the end, an empty string, an empty number, an end of a line
in the text (a line feed, a carriage return, a paragraph separator) and a text like a message of bc
are not read as they stand. -/
theorem not_plain_substitution :
    (evaluate loopBc sampleDicts (ascii "x-[iter]") .flow = .ok (ascii "[\"x-1\", ..., \"x-3\"]") ∧
      ∀ turn, substitution loopBc sampleDicts sampleMeaning turn .flow
        [.text (ascii "x-"), .var (ascii "iter")] ≠ ascii "[\"x-1\", ..., \"x-3\"]") ∧
      evaluate loopBc sampleDicts (ascii "a\\") .flow = .error (.internal .noValue) ∧
      evaluate loopBc (flowDicts [⟨ascii "s", .string, [], [], false⟩] (by decide))
        (ascii "[s]") .flow = .ok (ascii "\\n") ∧
      evaluate loopBc (flowDicts [⟨ascii "n", .float, [], [], false⟩] (by decide)) (ascii "a") .flow =
        .error .variables ∧
      evaluate loopBc sampleDicts (ascii "a\nb") .flow = .error (.internal .multiple) ∧
      evaluate loopBc sampleDicts (ascii "a\rb") .flow = .error (.internal .multiple) ∧
      evaluate loopBc sampleDicts (97 :: Gebr.Lib.LineBreaks.paragraph ++ [98]) .flow = .error
      (.internal .multiple) ∧ evaluate loopBc sampleDicts (ascii "(standard_in) a") .flow = .error
      (.internal .invalid) := by
  refine ⟨⟨by decide +kernel, ?_⟩, by decide +kernel, by decide +kernel, by decide +kernel,
    by decide +kernel, by decide +kernel, by decide +kernel, by decide +kernel⟩
  intro turn
  cases turn <;> decide +kernel

end Evaluate

end Gebr.Validator.Evaluate
