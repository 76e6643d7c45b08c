/-
**The places of what bc prints.**

The script refers to the items that bc prints by their places, which are counted where the lines of
the bc program are written.

* `PlacesAgree`: each line of the bc program on which bc prints is the one that the references to
  its place are for, and there are as many as the daemon has counted.
* `PrintsOnce`: of the lines that each number and each expression is written on, bc prints on one.
* `Respects`, `assembly_related`: two ways to write a command line that go together at each step go
  together over all of the assembly.
* `leaf_written`, `writer_respects`: the references are to the expressions they are written for.
* `numbered_of_assemble`: what is true of every script, whatever bc prints.
* `placesAgree_iff` — **when the places agree**.
* `failed_variable`: a variable that bc cannot compute moves all the places behind it.
-/

import Gebr.Daemon.BcProgram

namespace Gebr.Daemon.Index

open Gebr.Daemon.Parse (known_float given_one ProgramParameter ExprLine CmdPiece Buffers
  replaceQuotes gShellQuote strtodEnd jobParseParameters jobParseLeaf writeStrings writeNumbers
  writeExpression separate notProvided)
open Gebr.Flow.Chain (Program GebrGeoXmlFlow Issue fromConfigured)
open Gebr.Geoxml.Tree
open Gebr.Lib.CString (ascii decimal gStrstrip)
open Gebr.Lib.Sections
open Gebr.Validator (Scope)
open Gebr.Validator.Evaluate (EvaluateError)
open Gebr.Validator.StringExpr (Text)

section Statement

/-- The entries of the lines on which bc prints a value, in order. -/
def printing (prints : List Text → Text → Bool) (script : Script) : List (Option Entry) :=
  chosen prints [] (tagged (parts script.exprBuf))

/-- A part of the command line stands for itself, or for the expression of the entry that it refers
to. -/
def Stands (entryAt : ℕ → Option Entry) : CmdPiece → Spelled → Prop
  | .text text, .text other => text = other
  | .value i, .expression code => ∃ line, entryAt i = some (.expression line) ∧ line.code = code
  | _, _ => False

/-- The value of a dictionary's number is a reference to its definition. -/
def RefersToDefinition (entryAt : ℕ → Option Entry) (param new : DictParameter) : Prop :=
  param.IsNumber → ∃ i, new.value = reference i ∧
    entryAt i = some (.defines param.keyword param.value (replaceQuotes param.label) i)

/-- The entry of the line on which bc prints for the i-th time. -/
def printed (prints : List Text → Text → Bool) (script : Script) (i : ℕ) : Option Entry :=
  (printing prints script)[i]?.join

/-- **The places agree**: with the lines, with the number that the daemon has counted, with the
references of the dictionaries, and with those of the command line. -/
structure PlacesAgree (prints : List Text → Text → Bool) (server : Server) (job : FlowJob)
    (script : Script) : Prop where
  count : (printing prints script).length = script.nVars + script.exprCount
  lines : ∀ i < script.nVars + script.exprCount, ∃ entry,
    printed prints script i = some entry ∧ entry.index = i
  dictionary : ∀ scope,
    List.Forall₂ (RefersToDefinition (printed prints script)) (job.counted scope) (script.dicts scope)
  command : ∃ spelling, spell server job = .ok spelling ∧
    List.Forall₂ (Stands (printed prints script)) script.cmd spelling.cmd
  below : ∀ i, .value i ∈ script.cmd → i < script.nVars + script.exprCount

/-- bc prints nothing for the header: it sets the scale and defines functions. -/
def Quiet (prints : List Text → Text → Bool) : Prop := times prints [] bcHeader = 0

/-- bc prints on one of the lines that are written for each number and each expression. -/
def PrintsOnce (prints : List Text → Text → Bool) (server : Server) (job : FlowJob) : Prop :=
  OnceEach prints bcHeader ((definitions server job).map fun entry => (some entry, entry.lines))

end Statement

section Related

variable {σ τ σ' τ' : Type}

/-- Two results go together: both fail in the same way, or both are there and go together. -/
def Related (R : σ → τ → Prop) : Except Issue σ → Except Issue τ → Prop
  | .ok s, .ok t => R s t
  | .error issue, .error fault => issue = fault
  | _, _ => False

theorem Related.bind {R : σ → τ → Prop} {Q : σ' → τ' → Prop} {x : Except Issue σ}
    {y : Except Issue τ} {f : σ → Except Issue σ'} {g : τ → Except Issue τ'} (first : Related R x y)
    (next : ∀ s t, R s t → Related Q (f s) (g t)) : Related Q (x >>= f) (y >>= g) := by
  cases x with
  | error issue =>
    cases y with
    | error fault => exact first
    | ok t => exact first.elim
  | ok s =>
    cases y with
    | error fault => exact first.elim
    | ok t => exact next s t first

/-- What is written with two writers goes together at each step. -/
structure Respects (w : Writer σ) (v : Writer τ) (R : σ → τ → Prop) : Prop where
  append : ∀ text s t, R s t → R (w.append text s) (v.append text t)
  parse : ∀ title parameters s t, R s t →
    (w.parse title parameters s).2 = (v.parse title parameters t).2 ∧
      R (w.parse title parameters s).1 (v.parse title parameters t).1
  parseMpi : ∀ title parameters s t, R s t →
    R (w.parseMpi title parameters s) (v.parseMpi title parameters t)
  appendMpi : ∀ s t, R s t → R (w.appendMpi s) (v.appendMpi t)

variable {w : Writer σ} {v : Writer τ} {R : σ → τ → Prop} {s : σ} {t : τ} (server : Server)
  {job : FlowJob} (program : Program ProgramRest)

theorem Respects.readMpi (both : Respects w v R) (related : R s t) :
    R (readMpi w server program s).1 (readMpi v server program t).1 ∧
      (readMpi w server program s).2 = (Index.readMpi v server program t).2 := by
  unfold Index.readMpi
  cases program.rest.mpiParameters with
  | none => exact ⟨related, rfl⟩
  | some parameters => exact ⟨both.parseMpi _ _ _ _ related, rfl⟩

theorem Respects.writeBinary (both : Respects w v R) (related : R s t) (separator : Text)
    (mpi : Option MpiImpl) :
    R (writeBinary w separator program mpi s) (writeBinary v separator program mpi t) := by
  unfold Index.writeBinary
  cases mpi with
  | none => exact both.append _ _ _ related
  | some mpi => exact both.append _ _ _ (both.appendMpi _ _ (both.append _ _ _ related))

theorem Respects.addParameters (both : Respects w v R) (related : R s t) :
    Related R (addParameters w program s) (addParameters v program t) := by
  obtain ⟨same, after⟩ := both.parse program.title program.rest.parameters s t related
  unfold Index.addParameters
  dsimp only
  rw [same]
  split_ifs
  · exact after
  · rfl

theorem Respects.writeInput (both : Respects w v R) (related : R s t) :
    Related R (writeInput w server job program s) (writeInput v server job program t) := by
  unfold Index.writeInput
  split_ifs
  · exact related
  · rfl
  · cases server.evaluate job.flow.input with
    | error _ => rfl
    | ok result => exact both.append _ _ _ related

theorem Respects.writeFile (both : Respects w v R) (related : R s t) (mark expr : Text)
    (append hasControl : Bool) :
    Related R (writeFile w server mark expr append hasControl s)
      (writeFile v server mark expr append hasControl t) := by
  unfold Index.writeFile
  cases server.evaluate expr with
  | error _ => rfl
  | ok result => exact both.append _ _ _ related

theorem Respects.writeError (both : Respects w v R) (related : R s t) (hasControl : Bool) :
    Related R (writeError w server job hasControl program s)
      (writeError v server job hasControl program t) := by
  unfold Index.writeError
  split_ifs
  · exact both.writeFile server related _ _ _ _
  · exact related

/-- The loop over the other programs ends with the same flags. -/
theorem Respects.otherPrograms (both : Respects w v R) (related : R s t)
    (hasControl previousStdout : Bool) (programs : List (Program ProgramRest)) :
    Related (fun last other => R last.1 other.1 ∧ last.2 = other.2)
      (otherPrograms w server hasControl previousStdout programs s)
      (otherPrograms v server hasControl previousStdout programs t) := by
  induction programs generalizing hasControl previousStdout s t with
  | nil => exact ⟨related, rfl⟩
  | cons program programs ih =>
    rw [Index.otherPrograms, Index.otherPrograms]
    split_ifs
    · exact ih related hasControl previousStdout
    · exact ih related true previousStdout
    · obtain ⟨read, same⟩ := both.readMpi server program related
      cases chainSeparator previousStdout program with
      | error issue => rfl
      | ok separator =>
        dsimp only
        rw [same]
        have added := both.addParameters program
          (both.writeBinary program read separator (Index.readMpi v server program t).2)
        revert added
        cases Index.addParameters w program _ with
        | error issue =>
          cases Index.addParameters v program _ with
          | error fault => exact id
          | ok t => exact False.elim
        | ok s =>
          cases Index.addParameters v program _ with
          | error fault => exact False.elim
          | ok t => exact fun added => ih added hasControl program.stdout

theorem Respects.firstProgram (both : Respects w v R) (related : R s t) (hasControl : Bool)
    (programs : List (Program ProgramRest)) :
    Related R (firstProgram w server job hasControl program programs s)
      (firstProgram v server job hasControl program programs t) := by
  obtain ⟨read, same⟩ := both.readMpi server program related
  unfold Index.firstProgram
  dsimp only
  rw [same]
  split_ifs
  · rfl
  · refine (both.addParameters program (both.writeBinary program read _ _)).bind fun s t related => ?_
    refine (both.writeInput server program related).bind fun s t related => ?_
    refine (both.writeError server program related _).bind fun s t related => ?_
    refine (both.otherPrograms server related _ _ _).bind fun last _ ended => ?_
    obtain ⟨related, flags⟩ := ended
    unfold writeOutput
    rw [flags]
    split_ifs
    · exact both.writeFile server related _ _ _ _
    · exact related

/-- **Two writers that go together at each step go together over the assembly.** -/
theorem Respects.assembly_related (both : Respects w v R) (related : R s t) :
    Related R (jobAssemblyCmdline w server job s) (jobAssemblyCmdline v server job t) := by
  unfold jobAssemblyCmdline
  split_ifs
  · rfl
  · cases fromConfigured job.flow.programs with
    | nil => rfl
    | cons program programs =>
      dsimp only
      split_ifs
      · cases fromConfigured programs with
        | nil => rfl
        | cons program programs => exact both.firstProgram server program related _ _
      · exact both.firstProgram server program related _ _

end Related

section Written

variable {dict : List Entry} {before : List ExprLine} {b : Buffers} {cmd : List Spelled}
  {codes : List (Text × Text)} {evaluate : Text → Except EvaluateError Text}

/-- The entry at a place: those of the dictionaries are before the expressions. -/
def entryAt (dict : List Entry) (lines : List ExprLine) (i : ℕ) : Option Entry :=
  (dict ++ lines.map .expression)[i]?

theorem entryAt_grows {lines more : List ExprLine} (grows : lines <+: more) {i : ℕ} {entry : Entry}
    (found : entryAt dict lines i = some entry) : entryAt dict more i = some entry := by
  obtain ⟨rest, rfl⟩ := grows
  unfold entryAt at found ⊢
  obtain ⟨inside, -⟩ := List.getElem?_eq_some_iff.1 found
  rw [List.map_append, ← List.append_assoc, List.getElem?_append_left inside]
  exact found

/-- What a part of the command line refers to stays where it is. -/
theorem Stands.imp {entryAt other : ℕ → Option Entry}
    (same : ∀ i entry, entryAt i = some entry → other i = some entry) {piece : CmdPiece}
    {spelled : Spelled} (stands : Stands entryAt piece spelled) : Stands other piece spelled := by
  cases piece with
  | text text =>
    cases spelled with
    | text other => exact stands
    | expression code => exact stands
  | value i =>
    cases spelled with
    | text other => exact stands
    | expression code =>
      obtain ⟨line, found, code⟩ := stands
      exact ⟨line, same i _ found, code⟩

/-- **What has been written**: the lines are numbered on from the dictionaries, none is lost, and
the command line stands for what it spells. -/
structure Written (dict : List Entry) (before : List ExprLine) (b : Buffers) (cmd : List Spelled)
    (codes : List (Text × Text)) : Prop where
  grows : before <+: b.exprBuf
  count : b.exprBuf.length = b.exprCount
  lines : b.exprBuf = linesOf dict.length codes
  cmd : List.Forall₂ (Stands (entryAt dict b.exprBuf)) b.cmd cmd

theorem Written.append (written : Written dict before b cmd codes) (text : Text) :
    Written dict before (b.append (.text text)) (cmd ++ [.text text]) codes where
  grows := written.grows
  count := written.count
  lines := written.lines
  cmd := List.rel_append written.cmd (.cons rfl .nil)

theorem Written.issue (written : Written dict before b cmd codes) (issue : Parse.Issue) :
    Written dict before (b.issue issue) cmd codes :=
  ⟨written.grows, written.count, written.lines, written.cmd⟩

theorem Written.separate (written : Written dict before b cmd codes) (parameter : ProgramParameter)
    (first : Bool) :
    Written dict before (separate parameter first b) (cmd ++ spelledSeparator parameter first)
      codes := by
  cases first with
  | true =>
    rw [spelledSeparator, if_pos rfl, List.append_nil]
    exact written
  | false => exact written.append _

/-- **One more expression**: its line is at the place that the command line refers to. -/
theorem Written.value (written : Written dict before b cmd codes) (code label : Text) :
    Written dict before
      { b with
        exprBuf := b.exprBuf ++ [⟨code, b.exprCount + dict.length, label⟩]
        cmd := b.cmd ++ [.value (b.exprCount + dict.length)]
        exprCount := b.exprCount + 1 }
      (cmd ++ [.expression code]) (codes ++ [(code, label)]) where
  grows := written.grows.trans (List.prefix_append _ _)
  count := by
    show (b.exprBuf ++ [_]).length = _
    rw [List.length_append, written.count]
    rfl
  lines := by
    show b.exprBuf ++ [_] = linesOf _ (codes ++ [_])
    rw [linesOf, List.zipIdx_append, List.map_append, ← linesOf, ← written.lines]
    have place : b.exprCount + dict.length = dict.length + codes.length := by
      rw [← written.count, written.lines, linesOf, List.length_map, List.length_zipIdx, Nat.add_comm]
    rw [place]
    rfl
  cmd := by
    refine List.rel_append (written.cmd.imp fun piece spelled stands => ?_) (.cons ?_ .nil)
    · exact stands.imp fun i entry found => entryAt_grows (List.prefix_append _ _) found
    · refine ⟨⟨code, b.exprCount + dict.length, label⟩, ?_, rfl⟩
      unfold entryAt
      rw [List.map_append, ← List.append_assoc]
      have last : b.exprCount + dict.length = (dict ++ b.exprBuf.map Entry.expression).length := by
        rw [List.length_append, List.length_map, written.count, Nat.add_comm]
      rw [last]
      exact List.getElem?_concat_length

/-- An expression of a parameter, with its separator. -/
theorem Written.writeExpression (written : Written dict before b cmd codes)
    (parameter : ProgramParameter) (first : Bool) (strip : Text) :
    Written dict before (writeExpression dict.length parameter first strip b)
      (cmd ++ spelledSeparator parameter first ++ [.expression (parameter.code strip)])
      (codes ++ [(parameter.code strip, replaceQuotes parameter.label)]) := by
  have wrote := (written.separate parameter first).value (parameter.code strip)
    (replaceQuotes parameter.label)
  cases first <;> exact wrote

theorem append_cons_assoc {α : Type} (front mid : List α) (item : α) (back : List α) :
    front ++ (mid ++ item :: back) = front ++ mid ++ [item] ++ back := by
  rw [List.append_cons, ← List.append_assoc, ← List.append_assoc]

theorem Written.writeNumbers (written : Written dict before b cmd codes) (parameter : ProgramParameter)
    (first : Bool) (values : List Text) :
    Written dict before (writeNumbers dict.length parameter first values b)
      (cmd ++ spelledNumbers parameter first values) (codes ++ numberCodes parameter values) := by
  induction values generalizing first b cmd codes with
  | nil => exact (List.append_nil cmd).symm ▸ (List.append_nil codes).symm ▸ written
  | cons value values ih =>
    rw [Parse.writeNumbers, spelledNumbers, append_cons_assoc, spelledNumber, numberCodes,
      List.filter_cons]
    by_cases expression : strtodEnd (gStrstrip value) ≠ []
    · rw [if_pos expression, if_pos expression, if_pos (decide_eq_true expression), List.map_cons,
        List.append_cons codes]
      exact ih (written.writeExpression parameter first (gStrstrip value)) false
    · rw [if_neg expression, if_neg expression, if_neg (by simpa using expression)]
      exact ih ((written.separate parameter first).append (gStrstrip value)) false

/-- The values of a string, up to the first that has no value. -/
theorem Written.writeStrings (written : Written dict before b cmd codes) (parameter : ProgramParameter)
    (first : Bool) (values : List Text) :
    (writeStrings evaluate parameter first values b).2 =
        (spelledStrings evaluate parameter first values).2 ∧
      Written dict before (writeStrings evaluate parameter first values b).1
        (cmd ++ (spelledStrings evaluate parameter first values).1) codes := by
  induction values generalizing first b cmd with
  | nil => exact ⟨rfl, (List.append_nil cmd).symm ▸ written⟩
  | cons value values ih =>
    rw [Parse.writeStrings, spelledStrings]
    cases evaluate (gStrstrip value) with
    | error error => exact ⟨rfl, (List.append_nil cmd).symm ▸ written.issue _⟩
    | ok result =>
      dsimp only
      rw [append_cons_assoc]
      exact ih ((written.separate parameter first).append result) false

theorem Written.strings (written : Written dict before b cmd codes) (parameter : ProgramParameter) :
    let after := andThen
      (Parse.writeStrings evaluate parameter true parameter.values
        (b.append (.text (parameter.keyword ++ [34]))))
      fun buffers => (buffers.append (.text (ascii "\" ")), true)
    let values := spelledStrings evaluate parameter true parameter.values
    after.2 = values.2 ∧ Written dict before after.1 (cmd ++
      (.text (parameter.keyword ++ [34]) :: values.1 ++
        (if values.2 then [.text (ascii "\" ")] else []))) codes := by
  intro after values
  obtain ⟨same, wrote⟩ := (written.append (parameter.keyword ++ [34])).writeStrings parameter true
    parameter.values
  have given : after = andThen _ _ := rfl
  rw [given, andThen, same]
  cases complete : values.2 with
  | true =>
    rw [if_pos rfl, if_pos rfl, ← List.append_assoc, List.append_cons cmd]
    exact ⟨rfl, wrote.append _⟩
  | false =>
    rw [if_neg Bool.false_ne_true, if_neg Bool.false_ne_true, List.append_nil, List.append_cons cmd]
    exact ⟨same.trans complete, wrote⟩

theorem Written.numbers (written : Written dict before b cmd codes) (parameter : ProgramParameter) :
    Written dict before
      ((Parse.writeNumbers dict.length parameter true parameter.values
        (b.append (.text (parameter.keyword ++ [34])))).append (.text (ascii "\" ")))
      (cmd ++ (.text (parameter.keyword ++ [34]) :: spelledNumbers parameter true parameter.values ++
        [.text (ascii "\" ")]))
      (codes ++ numberCodes parameter parameter.values) := by
  rw [← List.append_assoc, List.append_cons cmd]
  exact ((written.append _).writeNumbers parameter true parameter.values).append _

theorem Written.notProvided (written : Written dict before b cmd codes) (title : Text)
    (parameter : ProgramParameter) :
    (notProvided title parameter b).2 = !parameter.required ∧
      Written dict before (notProvided title parameter b).1 (cmd ++ []) codes := by
  rw [List.append_nil, Parse.notProvided]
  cases parameter.required with
  | true => exact ⟨rfl, written.issue _⟩
  | false => exact ⟨rfl, written⟩

/-- **A parameter is written as it is spelled.** -/
theorem leaf_written (written : Written dict before b cmd codes) (title : Text)
    (parameter : ProgramParameter) :
    (jobParseLeaf evaluate dict.length title parameter b).2 = (spelledLeaf evaluate parameter).2 ∧
      Written dict before (jobParseLeaf evaluate dict.length title parameter b).1
        (cmd ++ (spelledLeaf evaluate parameter).1) (codes ++ leafCodes parameter) := by
  have known := parameter.known
  unfold jobParseLeaf spelledLeaf leafCodes
  cases kind : parameter.type
  case group => exact absurd kind known.1
  case reference => exact absurd kind known.2
  case flag =>
    dsimp only
    rw [List.append_nil codes]
    split_ifs
    · exact ⟨rfl, written.append _⟩
    · exact ⟨rfl, (List.append_nil cmd).symm ▸ written⟩
  case enum =>
    dsimp only
    rw [List.append_nil codes]
    split_ifs
    · exact ⟨rfl, written.append _⟩
    · exact written.notProvided title parameter
  case string | file =>
    dsimp only
    rw [List.append_nil codes]
    by_cases none : parameter.getStringValue = []
    · rw [if_pos none, if_pos none]
      exact written.notProvided title parameter
    · rw [if_neg none, if_neg none]
      exact written.strings parameter
  all_goals
    dsimp only
    by_cases none : parameter.getStringValue = []
    · rw [if_pos none, if_pos none, if_pos none, List.append_nil codes]
      exact written.notProvided title parameter
    · rw [if_neg none, if_neg none, if_neg none]
      exact ⟨rfl, written.numbers parameter⟩

end Written

section Writers

variable {dict : List Entry} {before : List ExprLine} {b : Buffers} {s : Spelling}
  {evaluate : Text → Except EvaluateError Text}

theorem run_written (written : Written dict before b s.cmd s.codes) (title : Text)
    (parameters : List ProgramParameter) :
    let spelled := run (spellLeaf evaluate) parameters s
    (run (jobParseLeaf evaluate dict.length title) parameters b).2 = spelled.2 ∧
      Written dict before (run (jobParseLeaf evaluate dict.length title) parameters b).1
        spelled.1.cmd spelled.1.codes := by
  induction parameters generalizing b s with
  | nil => exact ⟨rfl, written⟩
  | cons parameter parameters ih =>
    have here : (jobParseLeaf evaluate dict.length title parameter b).2 =
          (spellLeaf evaluate parameter s).2 ∧
        Written dict before (jobParseLeaf evaluate dict.length title parameter b).1
          (spellLeaf evaluate parameter s).1.cmd (spellLeaf evaluate parameter s).1.codes :=
      leaf_written written title parameter
    obtain ⟨same, wrote⟩ := here
    rw [run, run, andThen, andThen, same]
    split_ifs
    · exact ih wrote
    · exact ⟨same, wrote⟩

/-- **The parameters of a program are written as they are spelled.** -/
theorem parameters_written (written : Written dict before b s.cmd s.codes) (title : Text)
    (parameters : List (Parameter ProgramParameter Unit)) :
    let spelled := spelledParameters evaluate parameters s
    (jobParseParameters evaluate dict.length title parameters b).2 = spelled.2 ∧
      Written dict before (jobParseParameters evaluate dict.length title parameters b).1
        spelled.1.cmd spelled.1.codes := by
  unfold jobParseParameters spelledParameters
  rw [parseParameters_eq, parseParameters_eq]
  exact run_written written title (parsedParameters parameters)

/-- The buffers of the daemon, and the command lines that they stand for. -/
def Together (dict : List Entry) (s : CommandState) (t : SpelledState) : Prop :=
  Written dict [] s.buffers t.spelling.cmd t.spelling.codes ∧
    List.Forall₂ (Stands (entryAt dict s.buffers.exprBuf)) s.mpiCmd t.mpiCmd

/-- **The daemon's writer goes together with the one that spells.** -/
theorem writer_respects (dict : List Entry) :
    Respects (commandWriter evaluate dict.length) (spelledWriter evaluate) (Together dict) where
  append text s t := fun ⟨written, mpi⟩ => ⟨written.append text, mpi⟩
  parse title parameters s t := by
    rintro ⟨written, mpi⟩
    have from_here : Written dict s.buffers.exprBuf s.buffers t.spelling.cmd t.spelling.codes :=
      ⟨List.prefix_rfl, written.count, written.lines, written.cmd⟩
    obtain ⟨same, wrote⟩ := @parameters_written _ _ _ _ evaluate from_here title parameters
    refine ⟨same, ⟨List.nil_prefix, wrote.count, wrote.lines, wrote.cmd⟩, ?_⟩
    exact mpi.imp fun _ _ stands => stands.imp fun _ _ found => entryAt_grows wrote.grows found
  parseMpi title parameters s t := by
    rintro ⟨written, -⟩
    have from_here : Written dict s.buffers.exprBuf { s.buffers with cmd := [] }
        (Spelling.mk [] t.spelling.codes).cmd (Spelling.mk [] t.spelling.codes).codes :=
      ⟨List.prefix_rfl, written.count, written.lines, .nil⟩
    obtain ⟨-, wrote⟩ := @parameters_written _ _ _ _ evaluate from_here title parameters
    refine ⟨⟨List.nil_prefix, wrote.count, wrote.lines, ?_⟩, wrote.cmd⟩
    exact written.cmd.imp fun _ _ stands => stands.imp fun _ _ found => entryAt_grows wrote.grows found
  appendMpi s t := by
    rintro ⟨written, mpi⟩
    exact ⟨⟨List.nil_prefix, written.count, written.lines, List.rel_append written.cmd mpi⟩, mpi⟩

end Writers

section Dictionaries

theorem definesOf_append (j : ℕ) (front back : List DictParameter) :
    definesOf j (front ++ back) = definesOf j front ++ definesOf (j + front.length) back := by
  rw [definesOf, List.zipIdx_append, List.map_append]
  rfl

theorem index_definesOf (j : ℕ) (params : List DictParameter) :
    (definesOf j params).map Entry.index = List.range' j params.length := by
  rw [definesOf, List.map_map, ← List.zipIdx_map_snd]
  rfl

theorem index_linesOf (j : ℕ) (codes : List (Text × Text)) :
    ((linesOf j codes).map Entry.expression).map Entry.index = List.range' j codes.length := by
  rw [linesOf, List.map_map, List.map_map, ← List.zipIdx_map_snd]
  rfl

/-- **Every definition carries the index of its place.** -/
theorem index_definitions (server : Server) (job : FlowJob) :
    (definitions server job).map Entry.index = List.range (definitions server job).length := by
  unfold definitions
  cases spell server job with
  | error issue => rfl
  | ok spelling =>
    have lengths : (definesOf 0 job.numbers ++
        (linesOf job.numbers.length spelling.codes).map Entry.expression).length =
          job.numbers.length + spelling.codes.length := by
      simp [definesOf, linesOf]
    have joined := @List.range'_append_1 0 job.numbers.length spelling.codes.length
    rw [Nat.zero_add] at joined
    dsimp only
    rw [lengths, List.map_append, index_definesOf, index_linesOf, joined, List.range_eq_range']

/-- The loop writes a definition for a number, and replaces its value. -/
theorem defineParameters_number (evaluate : DictParameter → Text) (j : ℕ) {param : DictParameter}
    (params : List DictParameter) (number : param.IsNumber) :
    let rest := defineParameters evaluate (j + 1) params
    defineParameters evaluate j (param :: params) =
      { rest with
        exprBuf := .defines param.keyword param.value (replaceQuotes param.label) j :: rest.exprBuf
        params := { param with type := .string, value := reference j } :: rest.params } := by
  intro rest
  rw [defineParameters]
  rcases number with float | int
  · rw [float]
  · rw [int]

/-- The loop writes no definition for another parameter. -/
theorem defineParameters_other (evaluate : DictParameter → Text) (j : ℕ) {param : DictParameter}
    (params : List DictParameter) (other : ¬ param.IsNumber) :
    let rest := defineParameters evaluate j params
    let all := defineParameters evaluate j (param :: params)
    all.exprBuf = rest.exprBuf ∧ all.count = rest.count ∧ ∃ new, all.params = new :: rest.params := by
  intro rest all
  have step : all = defineParameters evaluate j (param :: params) := rfl
  rw [defineParameters] at step
  split at step
  case h_1 float => exact absurd (.inl float) other
  case h_2 int => exact absurd (.inr int) other
  all_goals exact step ▸ ⟨rfl, rfl, _, rfl⟩

/-- The numbers of a dictionary are written one by one. -/
theorem defineParameters_written (evaluate : DictParameter → Text) (j : ℕ)
    (params : List DictParameter) : let numbers := params.filter fun param => param.IsNumber
    (defineParameters evaluate j params).exprBuf = definesOf j numbers ∧
      (defineParameters evaluate j params).count = j + numbers.length := by
  intro numbers
  induction params generalizing j with
  | nil => exact ⟨rfl, rfl⟩
  | cons param params ih =>
    by_cases number : param.IsNumber
    · obtain ⟨written, count⟩ := ih (j + 1)
      have first : numbers = param :: params.filter fun param => param.IsNumber :=
        List.filter_cons_of_pos (decide_eq_true number)
      rw [defineParameters_number evaluate j params number, first]
      refine ⟨congrArg (Entry.defines param.keyword param.value _ j :: ·) written, ?_⟩
      rw [List.length_cons, ← Nat.add_assoc, Nat.add_right_comm]
      exact count
    · obtain ⟨buffer, same, -⟩ := defineParameters_other evaluate j params number
      have rest : numbers = params.filter fun param => param.IsNumber :=
        List.filter_cons_of_neg (mt of_decide_eq_true number)
      rw [buffer, same, rest]
      exact ih j

/-- Each number is replaced by a reference to what is written for it. -/
theorem defineParameters_refers (evaluate : DictParameter → Text) (j : ℕ)
    (params : List DictParameter) :
        List.Forall₂ (fun param new => param.IsNumber → ∃ i, new.value = reference i ∧
          .defines param.keyword param.value (replaceQuotes param.label) i ∈
      (defineParameters evaluate j params).exprBuf) params
      (defineParameters evaluate j params).params := by
  induction params generalizing j with
  | nil => exact .nil
  | cons param params ih =>
    by_cases number : param.IsNumber
    · rw [defineParameters_number evaluate j params number]
      refine .cons (fun _ => ⟨j, rfl, List.mem_cons_self⟩) ((ih (j + 1)).imp ?_)
      intro other new refers number
      obtain ⟨i, value, member⟩ := refers number
      exact ⟨i, value, List.mem_cons_of_mem _ member⟩
    · obtain ⟨buffer, -, new, all⟩ := defineParameters_other evaluate j params number
      rw [buffer, all]
      exact .cons (fun is_number => absurd is_number number) (ih j)

/-- The numbers of all dictionaries are written one by one. -/
theorem defineBcVariables_written (evaluate : Scope → DictParameter → Text) (job : FlowJob) :
    (defineBcVariables evaluate job.counted).exprBuf = definesOf 0 job.numbers ∧
      (defineBcVariables evaluate job.counted).nVars = job.numbers.length := by
  obtain ⟨first, project⟩ := defineParameters_written (evaluate .project) 0 (job.counted .project)
  obtain ⟨second, line⟩ := defineParameters_written (evaluate .line)
    (defineParameters (evaluate .project) 0 (job.counted .project)).count (job.counted .line)
  obtain ⟨third, flow⟩ := defineParameters_written (evaluate .flow)
    (defineParameters (evaluate .line)
      (defineParameters (evaluate .project) 0 (job.counted .project)).count (job.counted .line)).count
    (job.counted .flow)
  unfold defineBcVariables FlowJob.numbers
  dsimp only
  rw [List.filter_append, List.filter_append, definesOf_append, definesOf_append, List.length_append,
    first, second, third, flow, line, project, Nat.zero_add, Nat.zero_add]
  exact ⟨rfl, by rw [List.length_append, List.length_append]⟩

/-- Each number of a dictionary is replaced by a reference to what is written for it. -/
theorem defineBcVariables_refers (evaluate : Scope → DictParameter → Text)
    (dicts : Scope → List DictParameter) (scope : Scope) :
    List.Forall₂ (fun param new => param.IsNumber → ∃ i, new.value = reference i ∧
        .defines param.keyword param.value (replaceQuotes param.label) i ∈
          (defineBcVariables evaluate dicts).exprBuf)
      (dicts scope) ((defineBcVariables evaluate dicts).dicts scope) := by
  cases scope
  all_goals
    refine (defineParameters_refers _ _ _).imp fun param new refers number => ?_
    obtain ⟨i, value, member⟩ := refers number
    refine ⟨i, value, ?_⟩
    simp only [defineBcVariables, List.mem_append]
    tauto

end Dictionaries

section Agreement

variable {prints : List Text → Text → Bool} {server : Server} {job : FlowJob} {script : Script}

/-- **What is true of every script**: its entries are the definitions of the flow, they are counted,
and every reference is to the entry that it is for. -/
structure Numbered (server : Server) (job : FlowJob) (script : Script) : Prop where
  entries : script.exprBuf = definitions server job
  count : script.exprBuf.length = script.nVars + script.exprCount
  dictionary : ∀ scope, List.Forall₂ (fun param new => param.IsNumber → ∃ i, new.value = reference i ∧
      .defines param.keyword param.value (replaceQuotes param.label) i ∈ script.exprBuf)
    (job.counted scope) (script.dicts scope)
  command : ∃ spelling, spell server job = .ok spelling ∧
    List.Forall₂ (Stands fun i => script.exprBuf[i]?) script.cmd spelling.cmd

/-- **A script that is assembled is numbered.** -/
theorem numbered_of_assemble (assembled : assemble server job = .ok script) :
    Numbered server job script := by
  obtain ⟨entries, number⟩ := defineBcVariables_written server.strings job
  have length : (definesOf 0 job.numbers).length = job.numbers.length := by
    rw [definesOf, List.length_map, List.length_zipIdx]
  have start : Together (definesOf 0 job.numbers) ⟨⟨[], [], 0, []⟩, []⟩ ⟨⟨[], []⟩, []⟩ :=
    ⟨⟨List.nil_prefix, rfl, rfl, .nil⟩, .nil⟩
  have related : Related (Together (definesOf 0 job.numbers))
      (jobAssemblyCmdline (commandWriter server.evaluate _) server job _)
      (jobAssemblyCmdline (spelledWriter server.evaluate) server job _) :=
    (writer_respects _).assembly_related server start
  rw [length] at related
  unfold assemble at assembled
  dsimp only at assembled
  rw [entries, number] at assembled
  cases wrote : jobAssemblyCmdline (commandWriter server.evaluate job.numbers.length) server job
      ⟨⟨[], [], 0, []⟩, []⟩ with
  | error issue =>
    rw [wrote] at assembled
    cases assembled
  | ok written =>
    rw [wrote] at assembled related
    obtain rfl := Except.ok.inj assembled
    cases spelt : jobAssemblyCmdline (spelledWriter server.evaluate) server job ⟨⟨[], []⟩, []⟩ with
    | error issue =>
      rw [spelt] at related
      exact related.elim
    | ok spelled =>
      rw [spelt] at related
      obtain ⟨wrote, -⟩ := related
      have spelt : spell server job = .ok spelled.spelling := by
        rw [spell, spelt]
        rfl
      refine ⟨?_, ?_, fun scope => ?_, spelled.spelling, spelt, wrote.cmd⟩
      · dsimp only
        rw [definitions, spelt, wrote.lines, length]
      · dsimp only
        rw [List.length_append, length, List.length_map, wrote.count]
      · have refers := defineBcVariables_refers server.strings job.counted scope
        refine refers.imp fun param new refers number => ?_
        obtain ⟨i, value, member⟩ := refers number
        exact ⟨i, value, List.mem_append_left _ (entries ▸ member)⟩

/-- There is an entry where the command line refers to one. -/
theorem stands_value {entryAt : ℕ → Option Entry} {cmd : List CmdPiece} {spelled : List Spelled}
    (stands : List.Forall₂ (Stands entryAt) cmd spelled) {i : ℕ} (member : .value i ∈ cmd) :
    ∃ entry, entryAt i = some entry := by
  induction stands with
  | nil => exact absurd member List.not_mem_nil
  | @cons piece spelled _ _ here _ ih =>
    rcases List.mem_cons.1 member with rfl | later
    · cases spelled with
      | text text => exact here.elim
      | expression code =>
        obtain ⟨line, found, -⟩ := here
        exact ⟨_, found⟩
    · exact ih later

variable (numbered : Numbered server job script)

include numbered

theorem Numbered.indexes :
    script.exprBuf.map Entry.index = List.range (script.nVars + script.exprCount) := by
  rw [← numbered.count, numbered.entries]
  exact index_definitions server job

theorem Numbered.getElem? {entry : Entry} (member : entry ∈ script.exprBuf) :
    script.exprBuf[entry.index]? = some entry := by
  obtain ⟨i, found⟩ := List.mem_iff_getElem?.1 member
  have index : (script.exprBuf.map Entry.index)[i]? = some entry.index := by
    rw [List.getElem?_map, found]
    rfl
  rw [numbered.indexes, List.getElem?_eq_some_iff] at index
  obtain ⟨_, same⟩ := index
  rw [List.getElem_range] at same
  rw [← same]
  exact found

/-- **bc prints for the entries as they stand** iff it prints once for each. -/
theorem Numbered.printing_iff (quiet : Quiet prints) :
    printing prints script = script.exprBuf.map some ↔ PrintsOnce prints server job := by
  have distinct : ((script.exprBuf.map fun entry => (some entry, entry.lines)).map
      Prod.fst).Nodup := by
    rw [List.map_map]
    refine List.Nodup.map (Option.some_injective _) ?_
    have indexes := numbered.indexes ▸ List.nodup_range
    exact List.Nodup.of_map _ indexes
  have firsts : (script.exprBuf.map fun entry => (some entry, entry.lines)).map Prod.fst =
      script.exprBuf.map some := by
    rw [List.map_map]
    rfl
  unfold printing PrintsOnce parts
  rw [← numbered.entries]
  split_ifs with empty
  · rw [empty]
    exact iff_of_true rfl trivial
  · rw [chosen_tagged_cons, quiet, List.replicate_zero, List.nil_append, List.nil_append, ← firsts]
    exact chosen_sections_iff distinct

/-- When bc prints for the entries as they stand, the places agree. -/
theorem Numbered.placesAgree (same : printing prints script = script.exprBuf.map some) :
    PlacesAgree prints server job script := by
  have place (i : ℕ) : printed prints script i = script.exprBuf[i]? := by
    rw [printed, same, List.getElem?_map]
    cases script.exprBuf[i]? <;> rfl
  obtain ⟨spelling, spelt, stands⟩ := numbered.command
  constructor
  · rw [same, List.length_map, numbered.count]
  · intro i inside
    rw [← numbered.count] at inside
    refine ⟨script.exprBuf[i], ?_, ?_⟩
    · rw [place, List.getElem?_eq_getElem inside]
    · have index : (script.exprBuf.map Entry.index)[i]? = some i := by
        rw [numbered.indexes, List.getElem?_range (numbered.count ▸ inside)]
      rw [List.getElem?_map, List.getElem?_eq_getElem inside] at index
      exact Option.some.inj index
  · intro scope
    refine (numbered.dictionary scope).imp fun param new refers number => ?_
    obtain ⟨i, value, member⟩ := refers number
    refine ⟨i, value, ?_⟩
    rw [place]
    exact numbered.getElem? member
  · refine ⟨spelling, spelt, stands.imp fun piece spelled one => one.imp fun i entry found => ?_⟩
    rw [place]
    exact found
  · intro i member
    obtain ⟨entry, found⟩ := stands_value stands member
    rw [← numbered.count]
    exact (List.getElem?_eq_some_iff.1 found).1

/-- When the places agree, bc prints for the entries as they stand. -/
theorem Numbered.printing_of_placesAgree (agrees : PlacesAgree prints server job script) :
    printing prints script = script.exprBuf.map some := by
  apply List.ext_getElem?
  intro i
  by_cases inside : i < script.nVars + script.exprCount
  · obtain ⟨entry, printed, index⟩ := agrees.lines i inside
    have found : (printing prints script)[i]? = some (some entry) := Option.join_eq_some_iff.1 printed
    have member : entry ∈ script.exprBuf := by
      have tag := mem_of_mem_chosen (List.mem_of_getElem? found)
      unfold parts at tag
      split_ifs at tag
      · exact absurd tag List.not_mem_nil
      · simpa using tag
    rw [found, List.getElem?_map, ← index, numbered.getElem? member]
    rfl
  · have outside := Nat.le_of_not_lt inside
    rw [List.getElem?_eq_none (agrees.count.symm ▸ outside), List.getElem?_eq_none]
    rw [List.length_map, numbered.count]
    exact outside

omit numbered in
/-- **When the places agree**: bc prints on one line for each number of the dictionaries and for
each expression. -/
theorem placesAgree_iff (quiet : Quiet prints) (assembled : assemble server job = .ok script) :
    PlacesAgree prints server job script ↔ PrintsOnce prints server job := by
  have numbered := numbered_of_assemble assembled
  rw [← numbered.printing_iff quiet]
  exact ⟨numbered.printing_of_placesAgree, numbered.placesAgree⟩

end Agreement

section Example

/-- A server without MPI, whose validator leaves strings as they are. -/
def plainServer : Server where
  strings _ param := param.value
  evaluate value := .ok value
  useIter _ := false
  mpiConfig _ := none
  mpiServers _ := []
  hostsFile := []

/-- A program with one number, which is an expression. -/
def sumProgram : Program ProgramRest where
  title := ascii "sum"
  status := ascii "configured"
  control := []
  stdin := false
  stdout := false
  stderr := false
  errorid := []
  rest :=
    { binary := ascii "sum"
      parameters := [.program
        { type := .float
          keyword := ascii "n="
          label := ascii "N"
          required := false
          separator := none
          values := [ascii "1+1"]
          min := []
          max := []
          digits := []
          known := known_float
          given := given_one _
          ends := by decide }]
      mpi := []
      mpiParameters := none
      ini := []
      step := [] }

/-- A flow of this program, whose project has one variable. -/
def sumJob (value : Text) : FlowJob where
  flow := ⟨[sumProgram], [], [], []⟩
  outputAppend := false
  errorAppend := false
  dicts scope := if scope = .project then [⟨.float, ascii "x", ascii "X", value⟩] else []

/-- Where bc prints on the lines of these scripts: nothing for a definition of a function or where
something is divided by zero. -/
def sumPrints (_ : List Text) (line : Text) : Bool :=
  line.head? = some 9 ∧ ¬ (ascii "\tdefine").isPrefixOf line = true ∧ ¬ ascii "/0)" <:+: line

theorem sumPrints_quiet : Quiet sumPrints := by
  show times sumPrints [] bcHeader = 0
  decide +kernel

/-- The places agree where bc can compute the variable. -/
theorem placesAgree_iff_two : ∃ script, assemble plainServer (sumJob (ascii "2")) = .ok script ∧
    PlacesAgree sumPrints plainServer (sumJob (ascii "2")) script := by
  refine ⟨_, rfl, (placesAgree_iff sumPrints_quiet rfl).2 ?_⟩
  refine ⟨?_, ?_, trivial⟩
  · rfl
  · rfl

/-- **A variable that bc cannot compute**: the first value that it prints is the one of the
expression, which the command line takes for the second. -/
theorem failed_variable : ∃ script, assemble plainServer (sumJob (ascii "1/0")) = .ok script ∧
    printing sumPrints script = [some (.expression ⟨ascii "1+1", 1, ascii "N"⟩)] ∧
    .value 1 ∈ script.cmd ∧ ¬ PlacesAgree sumPrints plainServer (sumJob (ascii "1/0")) script := by
  refine ⟨_, rfl, by decide +kernel, by decide +kernel, fun agrees => ?_⟩
  exact absurd agrees.count (by decide +kernel)

end Example

end Gebr.Daemon.Index
