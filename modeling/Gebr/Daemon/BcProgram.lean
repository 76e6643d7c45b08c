/-
**The bc program of a script, and the command line that refers to what it prints.**

The daemon leaves numbers to bc: each number of the dictionaries and each expression of a parameter
is written as a line of one bc program, and the array `V` of the script holds what that program
prints. The command line and the dictionaries refer to its items by their places.

* `Entry`: what is written for a number. `assembleBcCmdLine` is the bc program in the script.
* `defineBcVariables`: the numbers of the dictionaries, and what the dictionaries have instead of
  them.
* `Writer`: what the command line is written with; `jobAssemblyCmdline` is over any writer.
* `commandWriter`, `assemble`: the script.
* `spelledWriter`, `spell`: the command line with the expressions themselves.
* `definitions`: the numbers and the expressions of a flow.
* `bcProgram_lines`: the lines of the bc program, each with what it is part of.
-/

import Gebr.Daemon.ParseParameters
import Gebr.Flow.ChainValidate
import Gebr.Lib.Sections

namespace Gebr.Daemon.Index

open Gebr.Daemon.Parse (ProgramParameter ExprLine CmdPiece Buffers replaceQuotes gShellQuote strtodEnd
  jobParseParameters)
open Gebr.Flow.Chain (Program GebrGeoXmlFlow Issue fromConfigured)
open Gebr.Geoxml (GebrGeoXmlParameterType)
open Gebr.Geoxml.Tree
open Gebr.Lib.CString (ascii decimal gStrstrip)
open Gebr.Lib.Sections (tagged)
open Gebr.Validator (Scope)
open Gebr.Validator.Evaluate (EvaluateError)
open Gebr.Validator.StringExpr (Text)

section Entries

/-- What is written in the bc program: a number of a dictionary, or an expression of a parameter. -/
inductive Entry where
  | defines (keyword value label : Text) (index : ℕ)
  | expression (line : ExprLine)
  deriving DecidableEq, Repr

/-- The index in the comment. -/
def Entry.index : Entry → ℕ
  | .defines _ _ _ index => index
  | .expression line => line.index

/-- The text, without the newline at its end. -/
def Entry.written : Entry → Text
  | .defines keyword value label index =>
    9 :: keyword ++ ascii " = (" ++ value ++ ascii ") ; " ++ keyword ++ ascii "\t# V[" ++
      decimal index ++ ascii "]: " ++ label
  | .expression line =>
    9 :: line.code ++ ascii " # V[" ++ decimal line.index ++ ascii "]: " ++ line.label

/-- The lines of the text: there are several if a value or a label has a newline. -/
def Entry.lines (entry : Entry) : List Text := entry.written.splitOn 10

/-- The lines before the entries. -/
def bcHeader : List Text :=
  [ascii "scale=5",
    ascii "\tdefine min(a,b)\x7b if(a<b) \x7breturn a;\x7d else \x7breturn b;\x7d\x7d",
    ascii "\tdefine max(a,b)\x7b if(a>b) \x7breturn a;\x7d else \x7breturn b;\x7d\x7d",
    ascii "\tdefine round(x)\x7b auto s; s = scale; if(x>0) x+=0.5 else x-=0.5; scale = 0; x/=1; " ++
      ascii "scale = s; return (x);\x7d"]

/-- The bc program, between the quotes of the script. -/
def bcProgram (entries : List Entry) : Text :=
  bcHeader.flatMap (· ++ [10]) ++ entries.flatMap fun entry => entry.written ++ [10]

/-- `assemble_bc_cmd_line`. -/
def assembleBcCmdLine (entries : List Entry) : Text :=
  if entries = [] then []
  else ascii "\n# Dictionary\nV=($(echo '" ++ bcProgram entries ++ ascii "' | bc -l ))\n"

/-- The parts of the bc program, with the entry that each is for. -/
def parts (entries : List Entry) : List (Option Entry × List Text) :=
  if entries = [] then [] else (none, bcHeader) :: entries.map fun entry => (some entry, entry.lines)

end Entries

section Dictionary

/-- A parameter of a dictionary. -/
structure DictParameter where
  type : GebrGeoXmlParameterType
  keyword : Text
  label : Text
  value : Text
  deriving DecidableEq, Repr

/-- It is a number for `define_bc_variables`. -/
def DictParameter.IsNumber (param : DictParameter) : Prop := param.type = .float ∨ param.type = .int

instance (param : DictParameter) : Decidable param.IsNumber := inferInstanceAs (Decidable (_ ∨ _))

/-- The reference to a number, as the validator is to read it. -/
def reference (j : ℕ) : Text := ascii "$\x7bV[[" ++ decimal j ++ ascii "]]\x7d"

/-- What is made of the dictionary of a document. -/
structure Defined where
  exprBuf : List Entry
  /-- The strings: keyword, result and label. -/
  strBuf : List (Text × Text × Text)
  params : List DictParameter
  count : ℕ

/-- The loop of `define_bc_variables` over a dictionary, with so many numbers before it. What the
validator makes of a string is a parameter. -/
def defineParameters (evaluate : DictParameter → Text) : ℕ → List DictParameter → Defined
  | j, [] => ⟨[], [], [], j⟩
  | j, param :: params =>
    match param.type with
    | .float | .int =>
      let rest := defineParameters evaluate (j + 1) params
      { rest with
        exprBuf := .defines param.keyword param.value (replaceQuotes param.label) j :: rest.exprBuf
        params := { param with type := .string, value := reference j } :: rest.params }
    | .string =>
      let rest := defineParameters evaluate j params
      { rest with
        strBuf := (param.keyword, evaluate param, replaceQuotes param.label) :: rest.strBuf
        params := { param with value := ascii "$\x7b" ++ param.keyword ++ ascii "\x7d" } ::
          rest.params }
    | _ =>
      let rest := defineParameters evaluate j params
      { rest with params := param :: rest.params }

/-- What is made of all dictionaries. -/
structure BcVariables where
  exprBuf : List Entry
  strBuf : List (Text × Text × Text)
  dicts : Scope → List DictParameter
  nVars : ℕ

/-- `define_bc_variables`: the project, the line and the flow. -/
def defineBcVariables (evaluate : Scope → DictParameter → Text) (dicts : Scope → List DictParameter) :
    BcVariables :=
  let project := defineParameters (evaluate .project) 0 (dicts .project)
  let line := defineParameters (evaluate .line) project.count (dicts .line)
  let flow := defineParameters (evaluate .flow) line.count (dicts .flow)
  { exprBuf := project.exprBuf ++ line.exprBuf ++ flow.exprBuf
    strBuf := project.strBuf ++ line.strBuf ++ flow.strBuf
    dicts := fun scope =>
      match scope with
      | .project => project.params
      | .line => line.params
      | .flow => flow.params
    nVars := flow.count }

end Dictionary

section Job

/-- The rest of a program: its binary, its parameters, those of its MPI, and the bounds of a
loop. -/
structure ProgramRest where
  binary : Text
  parameters : List (Parameter ProgramParameter Unit)
  mpi : Text
  mpiParameters : Option (List (Parameter ProgramParameter Unit))
  ini : Text
  step : Text

/-- A flow as the daemon receives it. -/
structure FlowJob where
  flow : GebrGeoXmlFlow ProgramRest
  outputAppend : Bool
  errorAppend : Bool
  dicts : Scope → List DictParameter

/-- `GebrdMpiConfig`. -/
structure MpiConfig where
  libpath : Text
  mpirun : Text

/-- What the daemon has beside the flow: the validator's answers (`strings` while the variables are
defined, `evaluate` after it), and its MPI. -/
structure Server where
  strings : Scope → DictParameter → Text
  evaluate : Text → Except EvaluateError Text
  useIter : Text → Bool
  mpiConfig : Text → Option MpiConfig
  mpiServers : Text → List Text
  hostsFile : Text

/-- A command of MPI, before its parameters and after the command it runs. -/
structure MpiImpl where
  front : Text
  back : Text

/-- The path of the libraries, before a command of MPI. -/
def MpiConfig.ld (config : MpiConfig) : Text :=
  if config.libpath ≠ [] then ascii "LD_LIBRARY_PATH=" ++ config.libpath ++ ascii ":$LD_LIBRARY_PATH"
  else []

/-- `gebrd_open_mpi_build_command`. -/
def openMpi (config : MpiConfig) (servers : List Text) : MpiImpl where
  front := ascii "LD_LIBRARY_PATH=" ++ config.ld ++ ascii ":$LD_LIBRARY_PATH " ++ config.mpirun ++
    ascii " --host " ++ (ascii ",").intercalate servers ++ ascii " "
  back := []

/-- `gebrd_mpich2_initialize`, `gebrd_mpich2_build_command` and `gebrd_mpich2_finalize`. -/
def mpich2 (config : MpiConfig) (servers : List Text) (hostsFile : Text) : MpiImpl where
  front := ascii "( _gebr_tmp=\x60mktemp " ++ hostsFile ++ ascii "\x60 && echo '" ++
    servers.flatMap (· ++ [10]) ++ ascii "' >> $_gebr_tmp; " ++ config.ld ++ ascii " " ++
      config.mpirun ++
    ascii " -f $_gebr_tmp "
  back := ascii "; rm $_gebr_tmp )"

/-- `job_get_mpi_impl`. -/
def jobGetMpiImpl (server : Server) (name : Text) : Option MpiImpl :=
  match server.mpiConfig name with
  | none => none
  | some config =>
    if name = ascii "openmpi" then some (openMpi config (server.mpiServers name))
    else if name = ascii "mpich2" then some (mpich2 config (server.mpiServers name) server.hostsFile)
    else none

/-- `escape_quote_and_slash`. -/
def escapeQuoteAndSlash (text : Text) : Text :=
  text.flatMap fun b => if b = 92 ∨ b = 34 then [92, b] else [b]

/-- The bounds of the loop of a flow, if its control program is a configured one. -/
def loopBounds (programs : List (Program ProgramRest)) : Option (Text × Text) :=
  match programs.find? fun program =>
      program.getControl ≠ .ordinary ∧ program.getControl ≠ .unknown with
  | none => none
  | some program =>
    if program.getControl = .for ∧ program.getStatus = .configured then
      some (program.rest.ini, program.rest.step)
    else none

/-- `iter_expr`: the quotes of the script are left for the counter. -/
def iterExpr (ini step : Text) : Text :=
  ascii "(" ++ ini ++ ascii ") + (" ++ step ++ ascii ") * '\"$counter\"'"

/-- The dictionaries, after `define_bc_variables` has set the value of the first parameter of the
flow. -/
def FlowJob.counted (job : FlowJob) : Scope → List DictParameter :=
  match loopBounds job.flow.programs with
  | none => job.dicts
  | some (ini, step) => fun scope =>
    if scope = .flow then
      (job.dicts .flow).modifyHead fun param => { param with value := iterExpr ini step }
    else job.dicts scope

end Job

section Assembly

/-- What a command line is written with: text, the parameters of a program, those of its MPI into a
buffer of their own, and that buffer. -/
structure Writer (σ : Type) where
  append : Text → σ → σ
  parse : Text → List (Parameter ProgramParameter Unit) → σ → σ × Bool
  parseMpi : Text → List (Parameter ProgramParameter Unit) → σ → σ
  appendMpi : σ → σ

variable {σ : Type}

/-- The parameters of the MPI of a program; whether they are parsed is not asked. -/
def readMpi (w : Writer σ) (server : Server) (program : Program ProgramRest) (s : σ) :
    σ × Option MpiImpl :=
  match program.rest.mpiParameters with
  | none => (s, none)
  | some parameters => (w.parseMpi program.title parameters s, jobGetMpiImpl server program.rest.mpi)

/-- The binary of a program, after what separates it from the one before. -/
def writeBinary (w : Writer σ) (separator : Text) (program : Program ProgramRest)
    (mpi : Option MpiImpl) (s : σ) : σ :=
  match mpi with
  | none => w.append (separator ++ ascii "$exec " ++ program.rest.binary ++ ascii " ") s
  | some mpi =>
    w.append (ascii " " ++ program.rest.binary ++ mpi.back ++ ascii " ")
      (w.appendMpi (w.append (separator ++ mpi.front) s))

/-- `job_add_program_parameters`. -/
def addParameters (w : Writer σ) (program : Program ProgramRest) (s : σ) : Except Issue σ :=
  let parsed := w.parse program.title program.rest.parameters s
  if parsed.2 then .ok parsed.1 else .error .other

/-- The input of the first program. -/
def writeInput (w : Writer σ) (server : Server) (job : FlowJob) (program : Program ProgramRest)
    (s : σ) : Except Issue σ :=
  if program.stdin = false then .ok s
  else if job.flow.input = [] then .error .noInputFile
  else
    match server.evaluate job.flow.input with
    | .error _ => .error .other
    | .ok result => .ok (w.append (ascii "<\"" ++ escapeQuoteAndSlash result ++ ascii "\" ") s)

/-- A file that is written to. -/
def writeFile (w : Writer σ) (server : Server) (mark expr : Text) (append hasControl : Bool) (s : σ) :
    Except Issue σ :=
  match server.evaluate expr with
  | .error _ => .error .other
  | .ok result =>
    let operator := if append || (hasControl && !server.useIter expr) then
      ascii ">> \"" else ascii "> \""
    .ok (w.append (mark ++ operator ++ escapeQuoteAndSlash result ++ ascii "\" ") s)

/-- What stands between a program and the one before it. -/
def chainSeparator (previousStdout : Bool) (program : Program ProgramRest) : Except Issue Text :=
  match previousStdout, program.stdin with
  | false, false => .ok (ascii "; ")
  | true, true => .ok (ascii "| ")
  | false, true => .error (.noInput program.title)
  | true, false => .error (.unexpectedOutput program.title)

/-- The loop over the other programs; it ends with what the loop and the last program are. -/
def otherPrograms (w : Writer σ) (server : Server) :
    Bool → Bool → List (Program ProgramRest) → σ → Except Issue (σ × Bool × Bool)
  | hasControl, previousStdout, [], s => .ok (s, hasControl, previousStdout)
  | hasControl, previousStdout, program :: programs, s =>
    if program.getStatus ≠ .configured then otherPrograms w server hasControl previousStdout programs s
    else if program.getControl = .for then otherPrograms w server true previousStdout programs s
    else
      let read := readMpi w server program s
      match chainSeparator previousStdout program with
      | .error issue => .error issue
      | .ok separator =>
        match addParameters w program (writeBinary w separator program read.2 read.1) with
        | .error issue => .error issue
        | .ok s => otherPrograms w server hasControl program.stdout programs s

/-- The file for the errors of the first program. -/
def writeError (w : Writer σ) (server : Server) (job : FlowJob) (hasControl : Bool)
    (program : Program ProgramRest) (s : σ) : Except Issue σ :=
  if job.flow.error ≠ [] ∧ program.stderr = true then
    writeFile w server (ascii "2") job.flow.error job.errorAppend hasControl s
  else .ok s

/-- The file for the output of the last program. -/
def writeOutput (w : Writer σ) (server : Server) (job : FlowJob) (last : σ × Bool × Bool) :
    Except Issue σ :=
  if last.2.2 = true ∧ job.flow.output ≠ [] then
    writeFile w server [] job.flow.output job.outputAppend last.2.1 last.1
  else .ok last.1

/-- From the first program on. -/
def firstProgram (w : Writer σ) (server : Server) (job : FlowJob) (hasControl : Bool)
    (program : Program ProgramRest) (programs : List (Program ProgramRest)) (s : σ) : Except Issue σ :=
  let read := readMpi w server program s
  if program.rest.mpi ≠ [] ∧ read.2.isNone then .error .other
  else
    addParameters w program (writeBinary w [] program read.2 read.1) >>= fun s =>
    writeInput w server job program s >>= fun s =>
    writeError w server job hasControl program s >>= fun s =>
    otherPrograms w server hasControl program.stdout programs s >>= fun last =>
    writeOutput w server job last

/-- `job_assembly_cmdline`, as far as it writes the command line. -/
def jobAssemblyCmdline (w : Writer σ) (server : Server) (job : FlowJob) (s : σ) : Except Issue σ :=
  if job.flow.programs = [] then .error .emptyFlow
  else
    match fromConfigured job.flow.programs with
    | [] => .error .noConfigured
    | program :: programs =>
      if program.getControl = .for then
        match fromConfigured programs with
        | [] => .error .noConfigured
        | program :: programs => firstProgram w server job true program programs s
      else firstProgram w server job false program programs s

end Assembly

section Script

/-- The buffers of the daemon, and the one for the parameters of MPI. -/
structure CommandState where
  buffers : Buffers
  mpiCmd : List CmdPiece

/-- How the daemon writes. -/
def commandWriter (evaluate : Text → Except EvaluateError Text) (nVars : ℕ) : Writer CommandState where
  append text s := { s with buffers := s.buffers.append (.text text) }
  parse title parameters s :=
    let parsed := jobParseParameters evaluate nVars title parameters s.buffers
    ({ s with buffers := parsed.1 }, parsed.2)
  parseMpi title parameters s :=
    let parsed := (jobParseParameters evaluate nVars title parameters { s.buffers with cmd := [] }).1
    ⟨{ parsed with cmd := s.buffers.cmd }, parsed.cmd⟩
  appendMpi s := { s with buffers := { s.buffers with cmd := s.buffers.cmd ++ s.mpiCmd } }

/-- The script, as far as the bc program and the references to it go. -/
structure Script where
  nVars : ℕ
  exprCount : ℕ
  exprBuf : List Entry
  cmd : List CmdPiece
  dicts : Scope → List DictParameter

/-- `job_assembly_cmdline`. -/
def assemble (server : Server) (job : FlowJob) : Except Issue Script :=
  let defined := defineBcVariables server.strings job.counted
  jobAssemblyCmdline (commandWriter server.evaluate defined.nVars) server job ⟨⟨[], [], 0, []⟩, []⟩ >>=
    fun written => .ok
      { nVars := defined.nVars
        exprCount := written.buffers.exprCount
        exprBuf := defined.exprBuf ++ written.buffers.exprBuf.map .expression
        cmd := written.buffers.cmd
        dicts := defined.dicts }

end Script

section Spelled

/-- A part of a command line that refers to nothing: text, or an expression itself. -/
inductive Spelled where
  | text (text : Text)
  | expression (code : Text)
  deriving DecidableEq, Repr

variable (evaluate : Text → Except EvaluateError Text) (parameter : ProgramParameter)

/-- The separator, before all values but the first. -/
def spelledSeparator (first : Bool) : List Spelled :=
  if first then [] else [.text (parameter.separator.getD [])]

/-- The values of a string or a file, up to the first that has no value. -/
def spelledStrings : Bool → List Text → List Spelled × Bool
  | _, [] => ([], true)
  | first, value :: values =>
    match evaluate (gStrstrip value) with
    | .error _ => ([], false)
    | .ok result =>
      let rest := spelledStrings false values
      (spelledSeparator parameter first ++ .text result :: rest.1, rest.2)

/-- The value of a number: an expression, or a number as it stands. -/
def spelledNumber (value : Text) : Spelled :=
  if strtodEnd (gStrstrip value) ≠ [] then .expression (parameter.code (gStrstrip value))
  else .text (gStrstrip value)

/-- The values of a number. -/
def spelledNumbers : Bool → List Text → List Spelled
  | _, [] => []
  | first, value :: values =>
    spelledSeparator parameter first ++ spelledNumber parameter value :: spelledNumbers false values

/-- A parameter on the command line, and whether it is parsed. -/
def spelledLeaf : List Spelled × Bool :=
  match parameter.type with
  | .file | .string =>
    if parameter.getStringValue = [] then ([], !parameter.required)
    else
      let values := spelledStrings evaluate parameter true parameter.values
      (.text (parameter.keyword ++ [34]) :: values.1 ++
        (if values.2 then [.text (ascii "\" ")] else []), values.2)
  | .int | .range | .float =>
    if parameter.getStringValue = [] then ([], !parameter.required)
    else
      (.text (parameter.keyword ++ [34]) :: spelledNumbers parameter true parameter.values ++
        [.text (ascii "\" ")], true)
  | .enum =>
    if parameter.getStringValue ≠ [] then
      ([.text (parameter.keyword ++ gShellQuote parameter.getStringValue ++ [32])], true)
    else ([], !parameter.required)
  | .flag =>
    if parameter.values.headD [] = ascii "on" then ([.text (parameter.keyword ++ [32])], true)
    else ([], true)
  | .group | .reference => ([], false)

/-- The expressions among the values of a number, each with its label. -/
def numberCodes (values : List Text) : List (Text × Text) :=
  (values.filter fun value => strtodEnd (gStrstrip value) ≠ []).map fun value =>
    (parameter.code (gStrstrip value), replaceQuotes parameter.label)

/-- The expressions of a parameter. -/
def leafCodes : List (Text × Text) :=
  match parameter.type with
  | .int | .range | .float =>
    if parameter.getStringValue = [] then [] else numberCodes parameter parameter.values
  | _ => []

/-- A command line, and the expressions that were come to. -/
structure Spelling where
  cmd : List Spelled
  codes : List (Text × Text)

/-- A parameter, after what was spelled before. -/
def spellLeaf (s : Spelling) : Spelling × Bool :=
  (⟨s.cmd ++ (spelledLeaf evaluate parameter).1, s.codes ++ leafCodes parameter⟩,
    (spelledLeaf evaluate parameter).2)

/-- The parameters of a program, after what was spelled before. -/
def spelledParameters (parameters : List (Parameter ProgramParameter Unit)) (s : Spelling) :
    Spelling × Bool :=
  parseParameters (spellLeaf evaluate) parameters s

/-- What is spelled, and the command line of MPI. -/
structure SpelledState where
  spelling : Spelling
  mpiCmd : List Spelled

/-- How the command line is written without references. -/
def spelledWriter : Writer SpelledState where
  append text s := { s with spelling := { s.spelling with cmd := s.spelling.cmd ++ [.text text] } }
  parse _ parameters s :=
    let parsed := spelledParameters evaluate parameters s.spelling
    ({ s with spelling := parsed.1 }, parsed.2)
  parseMpi _ parameters s :=
    let parsed := (spelledParameters evaluate parameters { s.spelling with cmd := [] }).1
    ⟨{ parsed with cmd := s.spelling.cmd }, parsed.cmd⟩
  appendMpi s := { s with spelling := { s.spelling with cmd := s.spelling.cmd ++ s.mpiCmd } }

/-- The command line with the expressions in their places, and all expressions. -/
def spell (server : Server) (job : FlowJob) : Except Issue Spelling :=
  jobAssemblyCmdline (spelledWriter server.evaluate) server job ⟨⟨[], []⟩, []⟩ >>= fun written =>
    .ok written.spelling

/-- Definitions of numbers, from an index on. -/
def definesOf (j : ℕ) (params : List DictParameter) : List Entry :=
  (params.zipIdx j).map fun item =>
    .defines item.1.keyword item.1.value (replaceQuotes item.1.label) item.2

/-- The lines of expressions, from an index on. -/
def linesOf (j : ℕ) (codes : List (Text × Text)) : List ExprLine :=
  (codes.zipIdx j).map fun item => ⟨item.1.1, item.2, item.1.2⟩

/-- The numbers of the dictionaries. -/
def FlowJob.numbers (job : FlowJob) : List DictParameter :=
  (job.counted .project ++ job.counted .line ++ job.counted .flow).filter fun param => param.IsNumber

/-- **The numbers and the expressions of a flow**, in the order in which they are come to. -/
def definitions (server : Server) (job : FlowJob) : List Entry :=
  match spell server job with
  | .error _ => []
  | .ok spelling =>
    definesOf 0 job.numbers ++ (linesOf job.numbers.length spelling.codes).map .expression

end Spelled

section Lines

/-- The lines of texts that are each ended by a newline. -/
theorem splitOn_lines (texts : List Text) (rest : Text) :
    (texts.flatMap (· ++ [10]) ++ rest).splitOn 10 = texts.flatMap (·.splitOn 10) ++
    rest.splitOn 10 := by
  induction texts with
  | nil => rfl
  | cons text texts ih =>
    rw [List.flatMap_cons, List.flatMap_cons, List.append_assoc, List.append_assoc, List.append_assoc,
      List.singleton_append, ← ih]
    simp only [List.splitOn_eq_splitOnP]
    exact List.splitOnP_append_cons _ _ (by simp)

theorem bcHeader_lines : bcHeader.flatMap (·.splitOn 10) = bcHeader := by decide +kernel

/-- **The lines of the bc program**, behind the last of which there is nothing. -/
theorem bcProgram_lines {entries : List Entry} (some_entry : entries ≠ []) :
    (bcProgram entries).splitOn 10 = (tagged (parts entries)).map Prod.snd ++ [[]] := by
  have written : (entries.flatMap fun entry => entry.written ++ [10]) =
      (entries.map Entry.written).flatMap (· ++ [10]) := by
    rw [List.flatMap_map]
  have lines : (tagged (entries.map fun entry => (some entry, entry.lines))).map Prod.snd =
      (entries.map Entry.written).flatMap (·.splitOn 10) := by
    rw [tagged, List.flatMap_map, List.map_flatMap, List.flatMap_map]
    congr 1
    funext entry
    rw [List.map_map]
    exact List.map_id _
  have last := splitOn_lines (entries.map Entry.written) []
  rw [List.append_nil] at last
  rw [bcProgram, splitOn_lines, bcHeader_lines, written, last, parts, if_neg some_entry]
  show bcHeader ++ (_ ++ [[]]) = (tagged ((none, bcHeader) :: _)).map Prod.snd ++ [[]]
  rw [tagged, List.flatMap_cons, List.map_append, ← tagged, lines, List.map_map, List.append_assoc]
  congr 1

end Lines

end Gebr.Daemon.Index
