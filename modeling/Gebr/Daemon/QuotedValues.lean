/-
**The values of a string between the quotes of the command line.**

The daemon writes the values of a text or a file between double quotes, with the references to the
dictionary as `${...}` among them. What `escape_quote_and_slash` makes of a value is not what is
written.

* `StaysQuoted`: the shell reads the keyword and one quoted text, in which the values stand as they
  are and only the references are expanded.
* `staysQuoted_iff`: **so it is read if and only if nothing in the values and the separator is
  special where it stands.**
* `evaluateInterval_pieces`: what a value is evaluated to, once each variable stands for its
  reference.
-/

import Gebr.Daemon.BcProgram
import Gebr.Lib.DoubleQuotes
import Gebr.Validator.Substitution

namespace Gebr.Daemon.Quoted

open Gebr.Daemon.Parse
open Gebr.Geoxml.Tree
open Gebr.Lib.CString (ascii gStrstrip)
open Gebr.Lib.DoubleQuotes
open Gebr.Validator (Scope)
open Gebr.Validator.BcOutput
open Gebr.Validator.Evaluate
open Gebr.Validator.Scoping
open Gebr.Validator.StringExpr

section Purpose

/-- What is meant by the values and the separators between them, when it is known which parts of the
values are references. -/
def meant (parameter : ProgramParameter) (results : List (List Chunk)) : List Chunk :=
  ((parameter.separator.getD []).map Chunk.byte).intercalate results

/-- **The values stay within their quotes**: a parameter is written as its keyword and a text that
begins with a double quote, behind which the shell reads what is meant, the closing quote and a
blank. -/
def StaysQuoted (evaluate : Text → Except EvaluateError Text) (nVars : ℕ) (title : Text)
    (parameter : ProgramParameter) (results : List (List Chunk)) : Prop :=
  ∃ (texts : List Text) (quoted : Text),
      (∀ buffers, jobParseLeaf evaluate nVars title parameter buffers =
        ({ buffers with cmd := buffers.cmd ++ texts.map .text }, true)) ∧
    texts.flatten = parameter.keyword ++ 34 :: quoted ∧
    readQuoted quoted = (meant parameter results, .closed [32])

end Purpose

section Dictionary

/-- What is meant by a piece of an expression, when it is known what a name refers to. -/
def pieceChunks (body : Text → Text) : Piece → List Chunk
  | .text t => t.map .byte
  | .openBracket => [.byte 91]
  | .closeBracket => [.byte 93]
  | .var name => [.reference (body name)]

theorem spell_pieceChunks (body : Text → Text) (pieces : List Piece) :
    spell (pieces.flatMap (pieceChunks body)) =
      substitute (fun name => 36 :: 123 :: body name ++ [125]) pieces := by
  induction pieces with
  | nil => rfl
  | cons piece pieces ih =>
    rw [List.flatMap_cons, spell_append, ih, substitute, substitute, List.flatMap_cons]
    cases piece with
    | text t => rw [pieceChunks, spell_bytes]
    | openBracket => rfl
    | closeBracket => rfl
    | var name => rw [pieceChunks, spell_cons, Chunk.spell, spell, List.flatMap_nil, List.append_nil]

/-- **Each variable of the dictionaries stands for its reference**, as `define_bc_variables` leaves
them: a string for `${keyword}`, a number for `${V[index]}`. -/
structure StandFor (dicts : Dictionaries) (meaning : Scope → Text → List Piece)
    (body : Scope → Text → Text) : Prop where
  string : ∀ scope, ∀ var ∈ dicts.vars scope, var.type = .string
  stands : ∀ scope, ∀ var ∈ dicts.vars scope, ∀ value,
    substitute value (meaning scope var.name) = 36 :: 123 :: body scope var.name ++ [125]

/-- What the name of a variable refers to in an expression. -/
def bodyOf (dicts : Dictionaries) (body : Scope → Text → Text) (scope : Scope) (name : Text) : Text :=
  ((dicts.getParam name scope).map fun place => body place name).getD []

variable {bc : Bc} {dicts : Dictionaries} {meaning : Scope → Text → List Piece}
    {body : Scope → Text → Text}
  {pieces : List Piece} {scope : Scope}

theorem resolved_reference (standFor : StandFor dicts meaning body) {name : Text}
    (refers : (dicts.getParam name scope).isSome = true) (turn : Turn) :
    resolved dicts (substBody bc dicts meaning turn) none scope name =
      36 :: 123 :: bodyOf dicts body scope name ++ [125] := by
  obtain ⟨place, nearest⟩ := Option.isSome_iff_exists.1 refers
  obtain ⟨-, var, found⟩ := firstScope_eq_some nearest
  have there : var ∈ dicts.vars place := List.mem_of_find?_eq_some found
  have here : dicts.getDepParam none scope name = some place := by
    unfold Dictionaries.getDepParam
    rw [nearest]
  rw [resolved_eq, follow, if_neg nofun, here]
  simp only [found, substBody, if_pos (standFor.string place var there),
    standFor.stands place var there]
  rw [bodyOf, nearest, find_name found]
  rfl

theorem substitute_congr {value value' : Text → Text}
    (same : ∀ name ∈ names pieces, value name = value' name) :
    substitute value pieces = substitute value' pieces := by
  induction pieces with
  | nil => rfl
  | cons piece pieces ih =>
    rw [substitute, substitute, List.flatMap_cons, List.flatMap_cons]
    cases piece with
    | text t => exact congrArg _ (ih same)
    | openBracket => exact congrArg _ (ih same)
    | closeBracket => exact congrArg _ (ih same)
    | var name =>
      have later := ih fun other member => same other (List.mem_cons_of_mem name member)
      exact congrArg₂ _ (same name List.mem_cons_self) later

/-- **What a value is evaluated to once the variables stand for their references**: its text as it
is, and a reference for each name, whatever the strings of the dictionary are. -/
theorem evaluateInterval_pieces (valid : Valid bc dicts meaning)
    (standFor : StandFor dicts meaning body) (formed : ∀ piece ∈ pieces, piece.WellFormed)
    (refers : ∀ name ∈ names pieces, (dicts.getParam name scope).isSome = true)
    (plain : 8 ∉ render pieces)
    (printable : Printable bc.wrap (raw bc dicts .initial scope (render pieces))) :
      evaluateInterval bc dicts (render pieces) scope false = .ok
      (spell (pieces.flatMap (pieceChunks (bodyOf dicts body scope)))) := by
  have value := @evaluateInterval_eq _ _ _ scope pieces false valid formed refers plain printable
    fun loop => absurd loop Bool.false_ne_true
  rw [value, Bool.false_and, if_neg Bool.false_ne_true, spell_pieceChunks, substitution]
  exact congrArg _
    (substitute_congr fun name member => resolved_reference standFor (refers name member) .initial)

end Dictionary

section Writing

variable {evaluate : Text → Except EvaluateError Text} {nVars : ℕ} {title : Text}
    {parameter : ProgramParameter}

/-- What is written for the values from one of them on. -/
theorem writeStrings_texts {values : List Text} {results : List (List Chunk)}
    (evaluated : List.Forall₂ (fun value chunks => evaluate (gStrstrip value) = .ok (spell chunks))
    values results) : ∃ texts : List Text,
        (∀ buffers, writeStrings evaluate parameter false values buffers =
      ({ buffers with cmd := buffers.cmd ++ texts.map .text }, true)) ∧ texts.flatten =
      results.flatMap fun chunks => parameter.separator.getD [] ++ spell chunks := by
  induction evaluated with
  | nil => exact ⟨[], fun buffers => by rw [writeStrings, List.map_nil, List.append_nil], rfl⟩
  | @cons value chunks values results answer _ ih =>
    obtain ⟨texts, written, same⟩ := ih
    refine ⟨parameter.separator.getD [] :: spell chunks :: texts, fun buffers => ?_, ?_⟩
    · rw [writeStrings, answer]
      simp only [written, separate, Buffers.append, Bool.false_eq_true, if_false, List.map_cons,
        List.append_assoc, List.cons_append, List.nil_append]
    · rw [List.flatten_cons, List.flatten_cons, same, List.flatMap_cons, List.append_assoc]

/-- The values with the separator between them, from the first one on. -/
theorem spell_meant (chunks : List Chunk) (results : List (List Chunk)) :
    spell (meant parameter (chunks :: results)) =
      spell chunks ++ results.flatMap fun chunks => parameter.separator.getD [] ++ spell chunks := by
  rw [meant]
  induction results generalizing chunks with
  | nil => rw [List.intercalate_singleton, List.flatMap_nil, List.append_nil]
  | cons next results ih =>
    rw [List.intercalate_cons_cons, spell_append, spell_append, spell_bytes, ih, List.flatMap_cons,
      List.append_assoc, List.append_assoc]

/-- **What is written for a text or a file.** -/
theorem leaf_texts {results : List (List Chunk)} (asked : parameter.Evaluated)
    (evaluated : List.Forall₂ (fun value chunks => evaluate (gStrstrip value) = .ok (spell chunks))
      parameter.values results) :
    ∃ texts : List Text, (∀ buffers, jobParseLeaf evaluate nVars title parameter buffers =
        ({ buffers with cmd := buffers.cmd ++ texts.map .text }, true)) ∧
      texts.flatten = parameter.keyword ++ 34 :: (spell (meant parameter results) ++ [34, 32]) := by
  cases values : parameter.values with
  | nil => exact absurd values parameter.given
  | cons value others =>
    rw [values] at evaluated
    cases evaluated with
    | @cons _ chunks _ results answer rest =>
      obtain ⟨texts, written, same⟩ := @writeStrings_texts _ parameter _ _ rest
      refine ⟨(parameter.keyword ++ [34]) :: spell chunks :: (texts ++ [[34, 32]]),
        fun buffers => ?_, ?_⟩
      · have loop : ∀ buffers, writeStrings evaluate parameter true parameter.values buffers =
            ({ buffers with cmd := buffers.cmd ++ (spell chunks :: texts).map .text }, true) := by
          intro buffers
          rw [values, writeStrings, answer]
          simp only [written, separate, Buffers.append, if_true, List.map_cons, List.append_assoc,
            List.singleton_append]
        have quote : ascii "\" " = [34, 32] := by decide +kernel
        obtain ⟨type, some_value⟩ := asked
        unfold jobParseLeaf
        rcases type with type | type <;>
          simp only [type, if_neg some_value, loop, andThen, if_true, quote, Buffers.append,
            List.map_cons, List.map_append, List.map_nil, List.append_assoc, List.cons_append,
              List.nil_append]
      · rw [spell_meant, List.flatten_cons, List.flatten_cons, List.flatten_append, same]
        simp only [List.flatten_singleton, List.append_assoc, List.singleton_append]

/-- The values stay within their quotes if they are read so, before the closing quote and the
blank. -/
theorem staysQuoted_iff_read {results : List (List Chunk)} (asked : parameter.Evaluated)
    (evaluated : List.Forall₂ (fun value chunks => evaluate (gStrstrip value) = .ok (spell chunks))
      parameter.values results) :
    StaysQuoted evaluate nVars title parameter results ↔
      readQuoted (spell (meant parameter results) ++ [34, 32]) =
      (meant parameter results, .closed [32]) := by
  obtain ⟨texts, written, flat⟩ := @leaf_texts _ nVars title _ _ asked evaluated
  constructor
  · rintro ⟨texts', quoted, written', flat', read⟩
    have same := congrArg (fun result => result.1.cmd)
      ((written ⟨[], [], 0, []⟩).symm.trans (written' _))
    obtain rfl : texts = texts' :=
      List.map_injective_iff.2 (fun _ _ equal => CmdPiece.text.inj equal)
        (List.append_cancel_left same)
    obtain rfl : spell (meant parameter results) ++ [34, 32] = quoted :=
      (List.cons.inj (List.append_cancel_left (flat.symm.trans flat'))).2
    exact read
  · exact fun read => ⟨texts, _, written, flat, read⟩

/-- **The values of a text or a file stay within their quotes if and only if nothing in them is
special to the shell where it stands**, whatever they are evaluated to. -/
theorem staysQuoted_iff {results : List (List Chunk)} (asked : parameter.Evaluated)
    (evaluated : List.Forall₂ (fun value chunks => evaluate (gStrstrip value) = .ok (spell chunks))
      parameter.values results) :
    StaysQuoted evaluate nVars title parameter results ↔ Safe (meant parameter results) :=
  (staysQuoted_iff_read asked evaluated).trans (readQuoted_spell_iff _ [32])

/-- A dictionary of one string, as `define_bc_variables` leaves it. -/
def oneString : Dictionaries :=
  flowDicts [⟨ascii "who", .string, ascii "$\x7bwho\x7d", [], false⟩] (by decide)

/-- A text parameter of one value. -/
def message (value : Text) (ends : 0 ∉ value) : ProgramParameter where
  type := .string
  keyword := ascii "-m "
  label := ascii "Message"
  required := true
  separator := none
  values := [value]
  min := []
  max := []
  digits := []
  known := known_string
  given := given_one value
  ends := ends_one value ends

theorem oneString_valid : Valid loopBc oneString fun _ _ => [.text (ascii "$\x7bwho\x7d")] := by
  refine ⟨?_, ?_, ?_, ?_, ?_, ?_, ?_, ?_⟩ <;>
    (intro scope var member
     cases scope <;> revert var <;> decide +kernel)

theorem oneString_standFor :
    StandFor oneString (fun _ _ => [.text (ascii "$\x7bwho\x7d")]) fun _ name => name where
  string := by
    intro scope
    cases scope <;> decide +kernel
  stands := by
    have names : ∀ scope, ∀ var ∈ oneString.vars scope, var.name = ascii "who" := by
      intro scope
      cases scope <;> decide +kernel
    intro scope var member value
    rw [names scope var member, substitute, List.flatMap_singleton]
    rfl

/-- A value with a reference. -/
theorem staysQuoted_hello :
    StaysQuoted (fun expr => evaluateInterval loopBc oneString expr .flow false) 0 []
      (message (ascii "hello [who]!") (by decide +kernel))
      [(ascii "hello ").map .byte ++ [.reference (ascii "who"), .byte 33]] := by
  have written : gStrstrip (ascii "hello [who]!") =
      render [.text (ascii "hello "), .var (ascii "who"), .text (ascii "!")] := by decide +kernel
  have evaluated : evaluateInterval loopBc oneString (gStrstrip (ascii "hello [who]!")) .flow false =
      .ok (spell ((ascii "hello ").map .byte ++ [.reference (ascii "who"), .byte 33])) := by
    rw [written]
    exact evaluateInterval_pieces oneString_valid oneString_standFor (by decide) (by decide +kernel)
      (by decide) ⟨by decide +kernel, by decide +kernel, by decide +kernel, by decide +kernel⟩
  refine (staysQuoted_iff ⟨.inl rfl, by decide +kernel⟩ ?_).2 (by decide +kernel)
  exact .cons evaluated .nil

/-- A value with quotes of its own, which close the quoted text. -/
theorem own_quotes :
    ¬ StaysQuoted (fun expr => evaluateInterval loopBc oneString expr .flow false) 0 []
      (message (ascii "say \"hi\"") (by decide +kernel)) [(ascii "say \"hi\"").map .byte] := by
  intro stays
  have read := (staysQuoted_iff_read ⟨.inl rfl, by
    decide +kernel⟩ (.cons (by decide +kernel) .nil)).1 stays
  exact absurd ((readQuoted_spell_iff _ [32]).1 read) (by decide +kernel)

end Writing

end Gebr.Daemon.Quoted
