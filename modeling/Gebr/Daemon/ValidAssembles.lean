/-
**A program that is valid is assembled.**

The validator accepts a program before it is run; the daemon parses the same parameters once more,
with the dictionaries as they were or as `define_bc_variables` has left them.

* `validateParam`, `isValid`: the client's side.
* `Agreement`: a valid program is parsed, both come to the same parameters, and what the daemon
  misses makes the program invalid.
* `grammar`, `standsFor`: how a text is written in the grammar of expressions, and what it stands
  for.
* `evaluates_iff`: when the daemon reads the value of a string that the validator has accepted.
* `agreement_iff` — **when the two sides agree**: what each string stands for is printed as one
  result, and no group is beside a selected parameter.
* `backslash_at_the_end`: a valid program with a string that the daemon cannot read.
-/

import Gebr.Daemon.LoopOutput
import Gebr.Daemon.ParseParameters
import Gebr.Validator.Substitution

namespace Gebr.Daemon.Parse

open Gebr.Daemon.LoopOutput (rewrite find_rewrite firstScope_congr)
open Gebr.Geoxml (GebrGeoXmlParameterType)
open Gebr.Geoxml.Tree
open Gebr.Lib.CString (ascii gStrstrip)
open Gebr.Validator (Scope)
open Gebr.Validator.BcOutput
open Gebr.Validator.Evaluate
open Gebr.Validator.Scoping
open Gebr.Validator.StringExpr

section Model

/-- A program, as far as its parameters go. -/
structure Program where
  title : Text
  parameters : List (Parameter ProgramParameter Unit)
  mpi : List (Parameter ProgramParameter Unit)

/-- `gebr_validator_validate_expr`. `path` is `gebr_validate_path` on what the line's paths make of
an expression. Of what a number refers to only FLOAT and INT are asked whether it is a string. -/
def validateExpr (bc : Bc) (path : Text → Bool) (dicts : Dictionaries) (type : GebrGeoXmlParameterType)
    (value : Text) : Bool :=
  match type with
  | .string => (validateString dicts value .flow).isOk
  | .file => (validateString dicts value .flow).isOk && (gStrstrip value = [] || path value)
  | .range => (validateNumber bc dicts value .string .flow).isOk
  | .int => (validateNumber bc dicts value .int .flow).isOk
  | .float => (validateNumber bc dicts value .float .flow).isOk
  | _ => true

/-- `gebr_validator_validate_param`, of an ordinary program. -/
def validateParam (bc : Bc) (path : Text → Bool) (dicts : Dictionaries)
    (parameter : ProgramParameter) : Bool :=
  if parameter.getStringValue = [] then !parameter.required
  else parameter.values.all (validateExpr bc path dicts parameter.type)

/-- `validate_program_parameter`. -/
def validateProgramParameter (bc : Bc) (path : Text → Bool) (dicts : Dictionaries) (selected : Bool)
    (parameter : ProgramParameter) : Bool :=
  !selected || validateParam bc path dicts parameter

/-- `gebr_geoxml_program_is_valid`. -/
def isValid (bc : Bc) (path : Text → Bool) (dicts : Dictionaries) (program : Program) : Bool :=
  foreachParameters (validateProgramParameter bc path dicts) none 0 program.parameters &&
    foreachParameters (validateProgramParameter bc path dicts) none 0 program.mpi

/-- How the daemon evaluates the value of a string. -/
def evaluator (bc : Bc) (dicts : Dictionaries) (expr : Text) : Except EvaluateError Text :=
  evaluateInterval bc dicts expr .flow false

/-- `job_parse_parameters` of a program. -/
def parseProgram (bc : Bc) (dicts : Dictionaries) (nVars : ℕ) (program : Program) (buffers : Buffers) :
    Buffers × Bool :=
  jobParseParameters (evaluator bc dicts) nVars program.title program.parameters buffers

/-- **The two sides agree on a program.** -/
structure Agreement (bc : Bc) (path : Text → Bool) (dicts : Dictionaries) (nVars : ℕ)
    (program : Program) : Prop where
  assembles : isValid bc path dicts program = true → ∀ after ∈ [dicts, rewrite dicts], ∀ buffers,
    (parseProgram bc after nVars program buffers).2 = true
  traversals : parsedParameters program.parameters = validatedParameters none 0 program.parameters
  missing : ∀ after ∈ [dicts, rewrite dicts], ∀ buffers label title, buffers.issues = [] →
    .required label title ∈ (parseProgram bc after nVars program buffers).1.issues →
      isValid bc path dicts program = false

/-- How a text is written in the grammar of expressions; one that is not of it has no pieces. -/
noncomputable def grammar (expr : Text) : List Piece :=
  open Classical in
  if written : ∃ pieces : List Piece, (∀ piece ∈ pieces, piece.WellFormed) ∧ render pieces = expr then
    written.choose
  else []

/-- What a variable stands for, when it is known what its references stand for. A string leaves a
zero and a backspace behind it, and an empty one is written as a line end. -/
noncomputable def variableText (bc : Bc) (dicts : Dictionaries) (references : Text → Text)
    (scope : Scope) (var : Variable) : Text :=
  if var.type = .string then
    (if var.value = [] then ascii "\\n" else substitute references (grammar var.value)) ++ [48, 8]
  else bc.number dicts .initial scope var.name

/-- **What an expression of the flow stands for**: its text, with each name replaced by what the
variable stands for that it refers to. -/
noncomputable def standsFor (bc : Bc) (dicts : Dictionaries) (expr : Text) : Text :=
  substitute (resolved dicts (variableText bc dicts) none .flow) (grammar expr)

/-- bc reads the number of each variable that has no error and refers to others as it may. -/
def ReadsNumbers (bc : Bc) (dicts : Dictionaries) : Prop :=
  ∀ scope, ∀ var ∈ dicts.vars scope, var.type ≠ .string → var.error = false →
    dicts.wellDefined (some var.name) var.type scope var.dep = true → bc.reads var.value = true

/-- When they agree: bc reads the numbers of the dictionaries, and the lines that it prints for what
each value that is no blank stands for are one result. -/
structure Condition (bc : Bc) (path : Text → Bool) (dicts : Dictionaries) (program : Program) :
    Prop where
  readable : isValid bc path dicts program = true → ∀ after ∈ [dicts, rewrite dicts],
    ∀ parameter ∈ parsedParameters program.parameters, parameter.Evaluated →
      ∀ value ∈ parameter.values, gStrstrip value ≠ [] → ReadsNumbers bc after ∧
        Readable (bcLines bc.wrap (standsFor bc after (gStrstrip value)))
  noStray : NoStray program.parameters

end Model

section Strings

variable {bc : Bc} {path : Text → Bool} {dicts after : Dictionaries} {value : Text}

theorem isOk_unit {error : Type} {result : Except error Unit} (ok : result.isOk = true) :
    result = .ok () := by
  cases result with
  | error _ => cases ok
  | ok _ => rfl

/-- The rewriting of the dictionaries leaves every name where it was. -/
theorem wellDefined_rewrite {scope : Scope} {names : List Text}
    (well : dicts.wellDefined none .string scope names = true) :
    (rewrite dicts).wellDefined none .string scope names = true := by
  have plain : ∀ scope name var, (rewrite dicts).find scope name = some var →
      var.error = false ∧ var.dep = [] := by
    intro scope name var found
    obtain ⟨place, rewritten⟩ := find_rewrite dicts scope name
    rw [rewritten, Option.map_eq_some_iff] at found
    obtain ⟨before, -, rfl⟩ := found
    exact ⟨rfl, rfl⟩
  rw [wellDefined_of_plain plain, List.all_eq_true]
  intro name member
  have same : (rewrite dicts).getParam name scope = dicts.getParam name scope := by
    apply firstScope_congr
    intro scope
    obtain ⟨place, rewritten⟩ := find_rewrite dicts scope name
    rw [rewritten]
    exact Option.isSome_map
  rw [same]
  exact getParam_of_wellDefined well name member

/-- What the validator accepts is accepted once more by the daemon, without the blanks around it. -/
theorem validateString_strip (ends : 0 ∉ value) (accepted : validateString dicts value .flow = .ok ())
    (known : after ∈ [dicts, rewrite dicts]) :
    validateString after (gStrstrip value) .flow = .ok () := by
  by_cases blank : gStrstrip value = []
  · rw [blank]
    rfl
  · have given : value ≠ [] := by
      rintro rfl
      exact blank rfl
    unfold validateString at accepted
    rw [if_neg given, if_neg blank] at accepted
    cases read : translateStringExpr value with
    | error _ => rw [read] at accepted; cases accepted
    | ok items =>
      rw [read] at accepted
      dsimp only at accepted
      have well : dicts.wellDefined none .string .flow (references items) = true := by
        by_contra ill
        rw [if_neg ill] at accepted
        cases accepted
      obtain ⟨others, read', same⟩ := translate_strip ends read
      have well' : after.wellDefined none .string .flow (references others) = true := by
        rw [same]
        rcases List.mem_cons.1 known with rfl | member
        · exact well
        · rw [List.mem_singleton.1 member]
          exact wellDefined_rewrite well
      unfold validateString
      rw [if_neg blank, read']
      dsimp only
      rw [if_pos well', ite_self]

/-- The items of an expression print what its pieces stand for. -/
theorem printed_grammar (references : Text → Text) (expr : Text) :
    printed references (itemsOf expr) = substitute references (grammar expr) := by
  unfold grammar
  split
  · rename_i written
    obtain ⟨formed, same⟩ := written.choose_spec
    conv_lhs => rw [← same]
    exact printed_render references formed
  · rename_i foreign
    unfold itemsOf
    split
    · rename_i items read
      exact absurd (exists_render read) foreign
    · rfl

/-- **bc prints what an expression stands for.** -/
theorem raw_eq (bc : Bc) (dicts : Dictionaries) (expr : Text) :
    raw bc dicts .initial .flow expr = standsFor bc dicts expr := by
  have body : rawBody bc dicts .initial = variableText bc dicts := by
    funext references scope var
    unfold rawBody variableText
    rw [printed_grammar]
  rw [raw, printed_grammar, body, standsFor]

/-- All the numbers of the dictionaries are defined for a flow. -/
theorem updateVars_iff (bc : Bc) (dicts : Dictionaries) :
    updateVars bc dicts .flow = true ↔ ReadsNumbers bc dicts := by
  have every : ∀ scope : Scope, scope ∈ Scope.flow.outwards.reverse := by
    intro scope
    cases scope <;> decide
  unfold updateVars ReadsNumbers
  rw [List.all_eq_true]
  constructor
  · intro all scope var member number free well
    have there : (scope, var) ∈ emitted dicts .flow := by
      refine List.mem_flatMap.2
        ⟨scope, every scope, List.mem_map.2 ⟨var, List.mem_filter.2 ⟨member, ?_⟩, rfl⟩⟩
      rw [free, well]
      rfl
    exact (Bool.or_eq_true_iff.1 (all _ there)).resolve_left (by simpa using number)
  · rintro reads ⟨scope, var⟩ there
    obtain ⟨outer, -, listed⟩ := List.mem_flatMap.1 there
    obtain ⟨found, inside, same⟩ := List.mem_map.1 listed
    obtain ⟨rfl, rfl⟩ := Prod.mk.inj same
    obtain ⟨member, fine⟩ := List.mem_filter.1 inside
    rw [Bool.and_eq_true_iff, Bool.not_eq_true'] at fine
    by_cases string : found.type = .string
    · simp [string]
    · simp [reads outer found member string fine.1 fine.2]

/-- **When the daemon reads a value** that is accepted. -/
theorem evaluates_iff (accepted : validateString dicts (gStrstrip value) .flow = .ok ()) :
    Evaluates (evaluator bc dicts) value ↔ (gStrstrip value ≠ [] → ReadsNumbers bc dicts ∧
      Readable (bcLines bc.wrap (standsFor bc dicts (gStrstrip value)))) := by
  rw [← updateVars_iff, ← raw_eq]
  unfold Evaluates evaluator evaluateInterval
  by_cases blank : gStrstrip value = []
  · exact iff_of_true ⟨[], if_pos blank⟩ fun given => absurd blank given
  · rw [if_neg blank, forall_prop_of_true blank, accepted]
    cases defined : updateVars bc dicts .flow with
    | false =>
      refine iff_of_false ?_ fun both => Bool.false_ne_true both.1
      rintro ⟨_, never⟩
      cases never
    | true =>
      rw [if_neg (by decide), and_iff_right rfl, ← evalInternal_ok_iff]
      dsimp only
      unfold evaluateInternal
      cases answer : evalInternal
        (bcLines bc.wrap (raw bc dicts .initial .flow (gStrstrip value))) with
      | error error =>
        refine iff_of_false ?_ ?_
        · rintro ⟨_, never⟩
          cases never
        · rintro ⟨_, never⟩
          cases never
      | ok first => exact iff_of_true ⟨cleanString first, rfl⟩ ⟨first, rfl⟩

end Strings

section Agreement

variable {bc : Bc} {path : Text → Bool} {dicts after : Dictionaries} {nVars : ℕ} {program : Program}
  {parameter : ProgramParameter}

/-- The validator goes over the parameters that are selected where they are. -/
theorem isValid_eq : isValid bc path dicts program =
    ((validatedParameters none 0 program.parameters).all (validateParam bc path dicts) &&
      (validatedParameters none 0 program.mpi).all (validateParam bc path dicts)) := by
  have walk : ∀ parameters : List (Parameter ProgramParameter Unit),
      foreachParameters (validateProgramParameter bc path dicts) none 0 parameters =
        (validatedParameters none 0 parameters).all (validateParam bc path dicts) :=
    fun parameters => foreachParameters_eq none 0 parameters
  rw [isValid, walk, walk]

/-- What is parsed of a valid program was accepted. -/
theorem validateParam_of_isValid (valid : isValid bc path dicts program = true)
    (member : parameter ∈ parsedParameters program.parameters) :
    validateParam bc path dicts parameter = true := by
  rw [isValid_eq, Bool.and_eq_true, List.all_eq_true] at valid
  exact valid.1 parameter ((parsedParameters_sublist program.parameters 0).subset member)

theorem validateParam_missing (missing : parameter.Missing) :
    validateParam bc path dicts parameter = false := by
  rw [validateParam, if_pos missing.2.1, missing.1]
  rfl

/-- The values of a string that is accepted are accepted. -/
theorem validateString_of_validateParam (accepted : validateParam bc path dicts parameter = true)
    (evaluated : parameter.Evaluated) {value : Text} (member : value ∈ parameter.values) :
    validateString dicts value .flow = .ok () := by
  rw [validateParam, if_neg evaluated.2, List.all_eq_true] at accepted
  have here := accepted value member
  rcases evaluated.1 with kind | kind
  · rw [kind] at here
    exact isOk_unit here
  · rw [kind] at here
    exact isOk_unit (Bool.and_eq_true_iff.1 here).1

theorem parseProgram_result (buffers : Buffers) :
    (parseProgram bc after nVars program buffers).2 = true ↔
      ∀ parameter ∈ parsedParameters program.parameters, ¬ parameter.Missing ∧
      (parameter.Evaluated → ∀ value ∈ parameter.values, Evaluates (evaluator bc after) value) := by
  rw [parseProgram, jobParseParameters, parseParameters_eq]
  exact run_result (fun parameter buffers => @leaf_result _ nVars program.title parameter buffers) _
    buffers

/-- A missing parameter that the daemon tells of makes the program invalid. -/
theorem isValid_of_missing {buffers : Buffers} {label title : Text} (silent : buffers.issues = [])
    (told : .required label title ∈ (parseProgram bc after nVars program buffers).1.issues) :
    isValid bc path dicts program = false := by
  rw [parseProgram, jobParseParameters, parseParameters_eq] at told
  rcases run_told (fun parameter buffers told => leaf_told buffers told) _ _
    told with before | ⟨p, member, missing⟩
  · rw [silent] at before
    cases before
  · by_contra valid
    have accepted := validateParam_of_isValid (Bool.not_eq_false _ ▸ valid) member
    rw [validateParam_missing missing] at accepted
    cases accepted

/-- **When the two sides agree.** -/
theorem agreement_iff (bc : Bc) (path : Text → Bool) (dicts : Dictionaries) (nVars : ℕ)
    (program : Program) : Agreement bc path dicts nVars program ↔ Condition bc path dicts program := by
  have values : isValid bc path dicts program = true → ∀ after ∈ [dicts, rewrite dicts],
      ∀ parameter ∈ parsedParameters program.parameters, parameter.Evaluated →
        ∀ value ∈ parameter.values,
          (Evaluates (evaluator bc after) value ↔
              (gStrstrip value ≠ [] → ReadsNumbers bc after ∧
                  Readable (bcLines bc.wrap (standsFor bc after (gStrstrip value))))) := by
    intro valid after known parameter member evaluated value given
    have accepted := validateString_of_validateParam (validateParam_of_isValid valid member)
      evaluated given
    exact evaluates_iff (validateString_strip (parameter.ends value given) accepted known)
  constructor
  · rintro ⟨assembles, traversals, -⟩
    refine ⟨fun valid after known parameter member evaluated value given => ?_,
      (parsedParameters_eq_iff program.parameters 0).1 traversals⟩
    have parsed := (parseProgram_result ⟨[], [], 0, []⟩).1
      (assembles valid after known ⟨[], [], 0, []⟩)
    exact (values valid after known parameter member evaluated value given).1
      ((parsed parameter member).2 evaluated value given)
  · rintro ⟨readable, noStray⟩
    refine ⟨fun valid after known buffers => ?_,
      (parsedParameters_eq_iff program.parameters 0).2 noStray,
      fun after known buffers label title silent told => isValid_of_missing silent told⟩
    rw [parseProgram_result]
    intro parameter member
    refine ⟨fun missing => ?_, fun evaluated value given => ?_⟩
    · have accepted := validateParam_of_isValid valid member
      rw [validateParam_missing missing] at accepted
      cases accepted
    · exact (values valid after known parameter member evaluated value given).2
        (readable valid after known parameter member evaluated value given)

end Agreement

section Example

/-- bc with lines as long as need be. -/
def plainBc : Bc where
  wrap := .whole
  reads := fun value => value ≠ []
  number := fun _ _ _ _ => ascii "1"
  plain := fun _ _ _ _ => by decide
  answer := fun _ _ => [ascii "1\n"]

def noDicts : Dictionaries where
  vars := fun _ => []
  distinct := fun _ => List.nodup_nil

/-- A parameter with one string. -/
def stringParameter (value : Text) (ends : 0 ∉ value) : ProgramParameter where
  type := .string
  keyword := ascii "dir="
  label := ascii "Directory"
  required := true
  separator := none
  values := [value]
  min := []
  max := []
  digits := []
  known := known_string
  given := given_one value
  ends := ends_one value ends

/-- **A backslash at the end**: the program is valid, and the daemon does not assemble it. -/
theorem backslash_at_the_end :
    isValid plainBc (fun _ => true) noDicts
        ⟨ascii "ls", [.program (stringParameter (ascii "data\\") (by decide))], []⟩ = true ∧
      parseProgram plainBc noDicts 0
        ⟨ascii "ls", [.program (stringParameter (ascii "data\\") (by decide))], []⟩
        ⟨[], [], 0, []⟩ =
          (⟨[], [.text (ascii "dir=\"")], 0, [.evaluation (.internal .noValue)]⟩, false) := by
  exact ⟨by decide +kernel, by rfl⟩

end Example

end Gebr.Daemon.Parse
