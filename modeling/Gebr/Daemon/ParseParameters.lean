/-
**The command line of a program, from its parameters.**

The daemon writes the command line of each program, with the expressions of its number parameters
left to bc: each is a line of the bc program, and the command line refers to the value it prints by
its index.

* `ProgramParameter`: a parameter with its property; its values are as the document has them.
* `strtodEnd`: what `g_ascii_strtod` leaves of a string.
* `jobParseLeaf`: `job_parse_parameter` of a parameter that is no group.
* `jobParseParameters`: the walk over all of them.
* `leaf_result`, `leaf_told`: whether a parameter is parsed, which does not depend on what was
  written before, and when a missing one is told of.
-/

import Gebr.Geoxml.DictSplit
import Gebr.Geoxml.ParameterTree
import Gebr.Validator.Evaluate

namespace Gebr.Daemon.Parse

open Gebr.Geoxml (GebrGeoXmlParameterType)
open Gebr.Geoxml.Tree
open Gebr.Lib.CString (ascii gStrstrip isDigit isSpace takeSign)
open Gebr.Validator.Evaluate (EvaluateError)
open Gebr.Validator.StringExpr (Text)

section Strtod

def isHexDigit (b : UInt8) : Bool := isDigit b || (97 ≤ b && b ≤ 102) || (65 ≤ b && b ≤ 70)

/-- What follows the digits of a number, among which there may be a point. -/
def mantissaEnd (isDigit : UInt8 → Bool) (s : Text) : Option Text :=
  match s.dropWhile isDigit with
  | 46 :: fraction =>
    if s.takeWhile isDigit = [] ∧ fraction.takeWhile isDigit = [] then none
    else some (fraction.dropWhile isDigit)
  | rest => if s.takeWhile isDigit = [] then none else some rest

/-- What follows an exponent, if there is one. -/
def exponentEnd (marks : List UInt8) : Text → Text
  | [] => []
  | b :: rest =>
    let digits := (takeSign rest).2
    if b ∈ marks ∧ digits.takeWhile isDigit ≠ [] then digits.dropWhile isDigit else b :: rest

def toLower (b : UInt8) : UInt8 := if 65 ≤ b && b ≤ 90 then b + 32 else b

/-- What follows a word, in small or capital letters. -/
def wordEnd (word s : Text) : Option Text :=
  if (s.take word.length).map toLower = word then some (s.drop word.length) else none

/-- What follows the words that stand for numbers. -/
def specialEnd (s : Text) : Option Text :=
  match wordEnd (ascii "infinity") s with
  | some rest => some rest
  | none =>
    match wordEnd (ascii "inf") s with
    | some rest => some rest
    | none => wordEnd (ascii "nan") s

/-- What follows a number without its sign. -/
def numberEnd (s : Text) : Option Text :=
  let hexadecimal :=
    match s with
    | 48 :: x :: rest => if toLower x = 120 then mantissaEnd isHexDigit rest else none
    | _ => none
  match hexadecimal with
  | some rest => some (exponentEnd [112, 80] rest)
  | none =>
    match mantissaEnd isDigit s with
    | some rest => some (exponentEnd [101, 69] rest)
    | none => specialEnd s

/-- `end_str` of `g_ascii_strtod`: without a number it is the whole string. -/
def strtodEnd (s : Text) : Text := (numberEnd (takeSign (s.dropWhile isSpace)).2).getD s

end Strtod

section Model

/-- A parameter with a property. The type of a reference is the type of what it refers to. -/
structure ProgramParameter where
  type : GebrGeoXmlParameterType
  keyword : Text
  label : Text
  required : Bool
  /-- The separator, of a list. -/
  separator : Option Text
  values : List Text
  min : Text
  max : Text
  digits : Text
  known : type ≠ .group ∧ type ≠ .reference
  given : values ≠ []
  ends : ∀ value ∈ values, 0 ∉ value

theorem known_float : GebrGeoXmlParameterType.float ≠ .group ∧ GebrGeoXmlParameterType.float ≠
    .reference := by
  decide

theorem known_string : GebrGeoXmlParameterType.string ≠ .group ∧ GebrGeoXmlParameterType.string ≠
    .reference := by
  decide

theorem given_one (value : Text) : [value] ≠ [] := List.cons_ne_nil value []

theorem ends_one (value : Text) (ends : 0 ∉ value) : ∀ other ∈ [value], 0 ∉ other := by
  intro other member
  rwa [List.mem_singleton.1 member]

/-- `gebr_geoxml_program_parameter_get_string_value`. -/
def ProgramParameter.getStringValue (parameter : ProgramParameter) : Text :=
  match parameter.separator with
  | none => parameter.values.headD []
  | some separator => separator.intercalate parameter.values

/-- A part of a command line: text, or a reference to what bc has printed. -/
inductive CmdPiece where
  | text (text : Text)
  | value (index : ℕ)
  deriving DecidableEq, Repr

/-- A line of the bc program, with its comment. -/
structure ExprLine where
  code : Text
  index : ℕ
  label : Text
  deriving DecidableEq, Repr

/-- What the daemon tells the user. -/
inductive Issue where
  /-- Required parameter of program not provided. -/
  | required (label title : Text)
  | evaluation (error : EvaluateError)
  | unknownType
  deriving DecidableEq, Repr

/-- What is written while the parameters are parsed. -/
structure Buffers where
  exprBuf : List ExprLine
  cmd : List CmdPiece
  exprCount : ℕ
  issues : List Issue

def Buffers.append (buffers : Buffers) (piece : CmdPiece) : Buffers :=
  { buffers with cmd := buffers.cmd ++ [piece] }

def Buffers.issue (buffers : Buffers) (issue : Issue) : Buffers :=
  { buffers with issues := buffers.issues ++ [issue] }

/-- `replace_quotes`. -/
def replaceQuotes (label : Text) : Text := label.map fun b => if b = 39 then 34 else b

/-- `g_shell_quote`. -/
def gShellQuote (text : Text) : Text :=
  39 :: (text.flatMap fun b => if b = 39 then ascii "'\\''" else [b]) ++ [39]

/-- The expression of a number, rounded where the type asks for it and kept within its bounds.
(Below a maximum alone it is the larger one that is taken.) -/
def ProgramParameter.code (parameter : ProgramParameter) (strip : Text) : Text :=
  let rounds := parameter.type = .int ∨ (parameter.type = .range ∧ parameter.digits = ascii "0")
  let temp := if rounds then ascii "round(" ++ strip ++ ascii ")" else strip
  if parameter.min ≠ [] ∧ parameter.max ≠ [] then
    ascii "min(" ++ parameter.max ++ ascii ",max(" ++ parameter.min ++ ascii "," ++ temp ++ ascii "))"
  else if parameter.min ≠ [] then
    ascii "max(" ++ parameter.min ++ ascii "," ++ temp ++ ascii ")"
  else if parameter.max ≠ [] then
    ascii "max(" ++ parameter.max ++ ascii "," ++ temp ++ ascii ")"
  else temp

/-- The separator is written before all values but the first. -/
def separate (parameter : ProgramParameter) (first : Bool) (buffers : Buffers) : Buffers :=
  if first then buffers else buffers.append (.text (parameter.separator.getD []))

/-- The loop over the values of a string or a file. -/
def writeStrings (evaluate : Text → Except EvaluateError Text) (parameter : ProgramParameter) :
    Bool → List Text → Buffers → Buffers × Bool
  | _, [], buffers => (buffers, true)
  | first, value :: values, buffers =>
    match evaluate (gStrstrip value) with
    | .error error => (buffers.issue (.evaluation error), false)
    | .ok result =>
      writeStrings evaluate parameter false values
        ((separate parameter first buffers).append (.text result))

/-- A number that is an expression: a line of the bc program, and a reference to what it prints. -/
def writeExpression (nVars : ℕ) (parameter : ProgramParameter) (first : Bool) (strip : Text)
    (buffers : Buffers) : Buffers :=
  let line : ExprLine :=
    ⟨parameter.code strip, buffers.exprCount + nVars, replaceQuotes parameter.label⟩
  let written := (separate parameter first
    { buffers with exprBuf := buffers.exprBuf ++ [line] }).append (.value (buffers.exprCount + nVars))
  { written with exprCount := buffers.exprCount + 1 }

/-- The loop over the values of a number. -/
def writeNumbers (nVars : ℕ) (parameter : ProgramParameter) : Bool → List Text → Buffers → Buffers
  | _, [], buffers => buffers
  | first, value :: values, buffers =>
    writeNumbers nVars parameter false values
      (if strtodEnd (gStrstrip value) ≠ [] then
        writeExpression nVars parameter first (gStrstrip value) buffers
      else (separate parameter first buffers).append (.text (gStrstrip value)))

/-- A parameter without a value: whether it may be so. -/
def notProvided (title : Text) (parameter : ProgramParameter) (buffers : Buffers) : Buffers × Bool :=
  if parameter.required then (buffers.issue (.required parameter.label title), false) else
    (buffers, true)

/-- `job_parse_parameter` of a parameter that is no group. -/
def jobParseLeaf (evaluate : Text → Except EvaluateError Text) (nVars : ℕ) (title : Text)
    (parameter : ProgramParameter) (buffers : Buffers) : Buffers × Bool :=
  match parameter.type with
  | .file | .string =>
    if parameter.getStringValue = [] then notProvided title parameter buffers
    else
      andThen
        (writeStrings evaluate parameter true parameter.values
          (buffers.append (.text (parameter.keyword ++ [34]))))
        fun buffers => (buffers.append (.text (ascii "\" ")), true)
  | .int | .range | .float =>
    if parameter.getStringValue = [] then notProvided title parameter buffers
    else
      ((writeNumbers nVars parameter true parameter.values
        (buffers.append (.text (parameter.keyword ++ [34])))).append (.text (ascii "\" ")), true)
  | .enum =>
    if parameter.getStringValue ≠ [] then
      (buffers.append (.text (parameter.keyword ++ gShellQuote parameter.getStringValue ++ [32])),
        true)
    else notProvided title parameter buffers
  | .flag =>
    if parameter.values.headD [] = ascii "on" then
      (buffers.append (.text (parameter.keyword ++ [32])), true)
    else (buffers, true)
  | .group | .reference => (buffers.issue .unknownType, false)

/-- `job_parse_parameters` of the parameters of a program. -/
def jobParseParameters (evaluate : Text → Except EvaluateError Text) (nVars : ℕ) (title : Text)
    (parameters : List (Parameter ProgramParameter Unit)) (buffers : Buffers) : Buffers × Bool :=
  parseParameters (jobParseLeaf evaluate nVars title) parameters buffers

end Model

section Result

variable {evaluate : Text → Except EvaluateError Text} {nVars : ℕ} {title : Text}
  {parameter : ProgramParameter}

/-- A value that the daemon evaluates has a value. -/
def Evaluates (evaluate : Text → Except EvaluateError Text) (value : Text) : Prop :=
  ∃ result, evaluate (gStrstrip value) = .ok result

/-- The values of a parameter are evaluated. -/
def ProgramParameter.Evaluated (parameter : ProgramParameter) : Prop :=
  (parameter.type = .string ∨ parameter.type = .file) ∧ parameter.getStringValue ≠ []

/-- A parameter that is required and has no value, of a type that is asked for it. -/
def ProgramParameter.Missing (parameter : ProgramParameter) : Prop :=
  parameter.required = true ∧ parameter.getStringValue = [] ∧ parameter.type ≠ .flag

theorem writeStrings_result (first : Bool) (values : List Text) (buffers : Buffers) :
    (writeStrings evaluate parameter first values buffers).2 = true ↔
      ∀ value ∈ values, Evaluates evaluate value := by
  induction values generalizing first buffers with
  | nil => exact iff_of_true rfl nofun
  | cons value values ih =>
    rw [writeStrings, List.forall_mem_cons]
    cases answer : evaluate (gStrstrip value) with
    | error error =>
      refine iff_of_false Bool.false_ne_true fun all => ?_
      obtain ⟨_, ok⟩ := all.1
      rw [answer] at ok
      cases ok
    | ok result =>
      dsimp only
      rw [ih, and_iff_right (show Evaluates evaluate value from ⟨result, answer⟩)]

theorem writeStrings_issues (first : Bool) (values : List Text) (buffers : Buffers) {issue : Issue}
    (told : issue ∈ (writeStrings evaluate parameter first values buffers).1.issues) :
    issue ∈ buffers.issues ∨ ∃ error, issue = .evaluation error := by
  induction values generalizing first buffers with
  | nil => exact .inl told
  | cons value values ih =>
    rw [writeStrings] at told
    cases answer : evaluate (gStrstrip value) with
    | error error =>
      rw [answer] at told
      rcases List.mem_append.1 told with before | here
      · exact .inl before
      · exact .inr ⟨error, List.mem_singleton.1 here⟩
    | ok result =>
      rw [answer] at told
      have later := ih false _ told
      rwa [show ((separate parameter first buffers).append (.text result)).issues = buffers.issues by
        unfold separate Buffers.append; split <;> rfl] at later

theorem writeNumbers_issues (first : Bool) (values : List Text) (buffers : Buffers) :
    (writeNumbers nVars parameter first values buffers).issues = buffers.issues := by
  induction values generalizing first buffers with
  | nil => rfl
  | cons value values ih =>
    rw [writeNumbers, ih]
    unfold writeExpression separate Buffers.append
    split <;> split <;> rfl

theorem notProvided_result (buffers : Buffers) :
    (notProvided title parameter buffers).2 = true ↔ parameter.required = false := by
  unfold notProvided
  cases parameter.required with
  | false => exact iff_of_true rfl rfl
  | true => exact iff_of_false Bool.false_ne_true Bool.noConfusion

theorem andThen_result {σ : Type} (after : σ × Bool) (next : σ → σ) :
    (andThen after fun s => (next s, true)).2 = after.2 := by
  obtain ⟨s, well⟩ := after
  cases well <;> rfl

/-- **Whether a parameter is parsed.** -/
theorem leaf_result (buffers : Buffers) :
    (jobParseLeaf evaluate nVars title parameter buffers).2 = true ↔ ¬ parameter.Missing ∧
    (parameter.Evaluated → ∀ value ∈ parameter.values, Evaluates evaluate value) := by
  have known := parameter.known
  unfold jobParseLeaf ProgramParameter.Missing ProgramParameter.Evaluated
  cases kind : parameter.type
  case flag =>
    refine iff_of_true ?_ ⟨fun missing => missing.2.2 rfl, fun evaluated => ?_⟩
    · dsimp only
      split <;> rfl
    · rcases evaluated.1 with other | other <;> cases other
  case group => exact absurd kind known.1
  case reference => exact absurd kind known.2
  all_goals
    by_cases none : parameter.getStringValue = [] <;>
      simp [none, notProvided_result, andThen_result, writeStrings_result]

/-- What is told of a parameter that is required. -/
theorem leaf_told (buffers : Buffers) {label name : Text}
    (told : .required label name ∈ (jobParseLeaf evaluate nVars title parameter buffers).1.issues) :
    .required label name ∈ buffers.issues ∨ parameter.Missing := by
  have known := parameter.known
  have asked : parameter.type ≠ .flag → parameter.getStringValue = [] →
      .required label name ∈ (notProvided title parameter buffers).1.issues →
      .required label name ∈ buffers.issues ∨ parameter.Missing := by
    intro kind none told
    unfold notProvided at told
    split at told
    · rename_i required
      exact .inr ⟨required, none, kind⟩
    · exact .inl told
  unfold jobParseLeaf at told
  cases kind : parameter.type
  case flag =>
    simp only [kind] at told
    split at told <;> exact .inl told
  case group => exact absurd kind known.1
  case reference => exact absurd kind known.2
  case enum =>
    simp only [kind] at told
    split at told
    · exact .inl told
    · rename_i none
      exact asked (by rw [kind]; exact nofun) (not_not.1 none) told
  case string | file =>
    simp only [kind] at told
    split at told
    · rename_i none
      exact asked (by rw [kind]; exact nofun) none told
    · have strings : .required label name ∈ (writeStrings evaluate parameter true parameter.values
          (buffers.append (.text (parameter.keyword ++ [34])))).1.issues := by
        unfold andThen at told
        split at told <;> exact told
      rcases writeStrings_issues _ _ _ strings with before | ⟨error, other⟩
      · exact .inl before
      · cases other
  all_goals
    simp only [kind] at told
    split at told
    · rename_i none
      exact asked (by rw [kind]; exact nofun) none told
    · have numbers : (writeNumbers nVars parameter true parameter.values
          (buffers.append (.text (parameter.keyword ++ [34])))).issues = buffers.issues :=
        writeNumbers_issues _ _ _
      left
      rw [← numbers]
      exact told

end Result

end Gebr.Daemon.Parse
