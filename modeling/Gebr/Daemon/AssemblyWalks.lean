/-
**The three walks of the assembly are one.**

`job_assembly_cmdline` is modelled as far as it may give up, as far as it writes the command line,
and as far as it opens the files of a loop. The walk that writes does what the other two say.

* `Settled`, `settled_commandWriter`: whether parameters are parsed is up to them alone.
* `daemonOf`: what the daemon finds, as the walk that may give up asks for it.
* `jobAssemblyCmdline_chain` — **the writing gives up where that walk does**, with the same issue.
* `openFile`, `jobAssemblyCmdline_opens` — **the files of a loop are opened as its script says**.
-/

import Gebr.Daemon.BcProgram
import Gebr.Daemon.LoopOutput

namespace Gebr.Daemon.Index

open Gebr.Daemon.LoopOutput (JobFlow firstOf otherFlags redirection rewrite deps jobAssembly)
open Gebr.Daemon.Parse (leaf_result jobParseParameters)
open Gebr.Flow.Chain (Program Issue Daemon fromConfigured)
open Gebr.Geoxml.Tree
open Gebr.Lib.CString (ascii)
open Gebr.Validator.Evaluate (EvaluateError)
open Gebr.Validator.StringExpr (Text)

variable {σ : Type}

section Model

/-- Whether parameters are parsed does not depend on what was written before. -/
def Settled (w : Writer σ) : Prop :=
  ∀ title parameters s t, (w.parse title parameters s).2 = (w.parse title parameters t).2

/-- What the daemon finds of a program and of an expression, where `s` is any state. -/
def daemonOf (w : Writer σ) (server : Server) (s : σ) : Daemon ProgramRest where
  begins program :=
    (program.rest.mpi = [] || (readMpi w server program s).2.isSome) &&
      (w.parse program.title program.rest.parameters s).2
  parses program := (w.parse program.title program.rest.parameters s).2
  evaluates text := (server.evaluate text).isOk

/-- A file that is opened, to be appended to or not, and its expression. -/
def openFile (w : Writer σ) (server : Server) (mark : Text) (opened : Option (Bool × Text)) (s : σ) :
    Except Issue σ :=
  match opened with
  | none => .ok s
  | some (append, expr) =>
    match server.evaluate expr with
    | .error _ => .error .other
    | .ok result =>
      let operator := if append then ascii ">> \"" else ascii "> \""
      .ok (w.append (mark ++ operator ++ escapeQuoteAndSlash result ++ ascii "\" ") s)

/-- The same flow as the loop that opens files has it, on a server whose validator knows its
dictionaries as they are then. -/
structure SameLoop (server : Server) (job : FlowJob) (loop : JobFlow ProgramRest) : Prop where
  flow : loop.flow = job.flow
  outputAppend : loop.outputAppend = job.outputAppend
  errorAppend : loop.errorAppend = job.errorAppend
  useIter : ∀ expr, server.useIter expr = (rewrite loop.dicts).useIter .string (deps expr)

end Model

section Writers

variable {w : Writer σ}

/-- **The writer of the script** parses by the parameters alone. -/
theorem settled_commandWriter (evaluate : Text → Except EvaluateError Text) (nVars : ℕ) :
    Settled (commandWriter evaluate nVars) := by
  intro title parameters s t
  show (jobParseParameters evaluate nVars title parameters s.buffers).2 =
    (jobParseParameters evaluate nVars title parameters t.buffers).2
  have result := fun buffers => run_result (fun parameter buffers =>
    @leaf_result evaluate nVars title parameter buffers) (parsedParameters parameters) buffers
  rw [Bool.eq_iff_iff, jobParseParameters, jobParseParameters, parseParameters_eq, result, result]

/-- Which MPI a program has does not depend on what was written. -/
theorem readMpi_snd (w : Writer σ) (server : Server) (program : Program ProgramRest) (s t : σ) :
    (readMpi w server program s).2 = (readMpi w server program t).2 := by
  unfold readMpi
  cases program.rest.mpiParameters <;> rfl

/-- The parameters of a program are added just where they are parsed. -/
theorem addParameters_cases (server : Server) (settled : Settled w)
    (program : Program ProgramRest) (s t : σ) :
    (∃ next, addParameters w program t = .ok next ∧ (daemonOf w server s).parses program = true) ∨
      addParameters w program t = .error .other ∧ (daemonOf w server s).parses program = false := by
  have same := settled program.title program.rest.parameters t s
  unfold addParameters
  cases parses : (w.parse program.title program.rest.parameters s).2 with
  | true =>
    rw [parses] at same
    exact .inl ⟨_, if_pos same, parses⟩
  | false =>
    rw [parses] at same
    exact .inr ⟨if_neg (Bool.eq_false_iff.1 same), parses⟩

/-- A file that is written to is opened. -/
theorem writeFile_eq (server : Server) (mark expr : Text) (append hasControl : Bool) (s : σ) :
    writeFile w server mark expr append hasControl s =
      openFile w server mark (some (append || (hasControl && !server.useIter expr), expr)) s := rfl

/-- A file is opened just where its name is evaluated. -/
theorem openFile_cases (w : Writer σ) (server : Server) (mark expr : Text) (append : Bool)
    (s t : σ) :
    (∃ next, openFile w server mark (some (append, expr)) t = .ok next ∧
        (daemonOf w server s).evaluates expr = true) ∨
      openFile w server mark (some (append, expr)) t = .error .other ∧
        (daemonOf w server s).evaluates expr = false := by
  show (∃ next, _ ∧ (server.evaluate expr).isOk = true) ∨ _ ∧ (server.evaluate expr).isOk = false
  unfold openFile
  dsimp only
  cases server.evaluate expr with
  | error _ => exact .inr ⟨rfl, rfl⟩
  | ok result => exact .inl ⟨_, rfl, rfl⟩

end Writers

section Walks

variable {w : Writer σ} {server : Server} {job : FlowJob}

/-- **The loop over the other programs** gives up where the chain breaks, or ends with its last
output. -/
theorem otherPrograms_chain (settled : Settled w) (s : σ) (hasControl previousStdout : Bool)
    (programs : List (Program ProgramRest)) (t : σ) :
    (otherPrograms w server hasControl previousStdout programs t).map (fun last => last.2.2) =
      Flow.Chain.otherPrograms (daemonOf w server s) previousStdout programs := by
  induction programs generalizing hasControl previousStdout t with
  | nil => rfl
  | cons program programs ih =>
    rw [otherPrograms, Flow.Chain.otherPrograms.eq_def]
    dsimp only
    by_cases unconfigured : program.getStatus ≠ .configured
    · rw [if_pos unconfigured, if_pos unconfigured, ih]
    rw [if_neg unconfigured, if_neg unconfigured]
    by_cases loop : program.getControl = .for
    · rw [if_pos loop, if_pos loop, ih]
    rw [if_neg loop, if_neg loop]
    unfold chainSeparator
    cases previousStdout <;> cases program.stdin
    case false.true | true.false => rfl
    all_goals
      dsimp only
      generalize writeBinary w _ program _ _ = written
      rcases addParameters_cases server settled program s written with
        ⟨next, ok, parses⟩ | ⟨error, fails⟩
      · rw [ok, parses, if_neg Bool.noConfusion]
        exact ih hasControl program.stdout next
      · rw [error, if_pos fails]
        rfl

/-- Where the loop over the other programs ends well, it has seen the loops and the outputs that the
flags tell. -/
theorem otherPrograms_flags {hasControl previousStdout : Bool} {programs : List (Program ProgramRest)}
    {t : σ} {last : σ × Bool × Bool}
    (ended : otherPrograms w server hasControl previousStdout programs t = .ok last) :
    last.2 = otherFlags hasControl previousStdout programs := by
  induction programs generalizing hasControl previousStdout t with
  | nil =>
    obtain rfl := Except.ok.inj ended
    rfl
  | cons program programs ih =>
    rw [otherPrograms] at ended
    rw [otherFlags]
    by_cases unconfigured : program.getStatus ≠ .configured
    · rw [if_pos unconfigured] at ended ⊢
      exact ih ended
    rw [if_neg unconfigured] at ended ⊢
    by_cases loop : program.getControl = .for
    · rw [if_pos loop] at ended ⊢
      exact ih ended
    rw [if_neg loop] at ended ⊢
    dsimp only at ended
    split at ended
    · cases ended
    · split at ended
      · cases ended
      · exact ih ended

/-- The input of the first program. -/
theorem writeInput_cases (w : Writer σ) (server : Server) (job : FlowJob)
    (program : Program ProgramRest) (s t : σ) :
    (∃ next, writeInput w server job program t = .ok next ∧
        ¬ (program.stdin = true ∧ job.flow.input = []) ∧
      ¬ (program.stdin = true ∧ (daemonOf w server s).evaluates job.flow.input = false)) ∨
      (writeInput w server job program t = .error .noInputFile ∧ program.stdin = true ∧
        job.flow.input = []) ∨ writeInput w server job program t = .error .other ∧
        ¬ (program.stdin = true ∧ job.flow.input = []) ∧ program.stdin = true ∧
        (daemonOf w server s).evaluates job.flow.input = false := by
  show _ ∨ _ ∨ _ ∧ _ ∧ _ ∧ (server.evaluate job.flow.input).isOk = false
  unfold writeInput
  cases reads : program.stdin with
  | false =>
    exact .inl ⟨t, if_pos rfl, fun both => Bool.noConfusion both.1, fun both =>
      Bool.noConfusion both.1⟩
  | true =>
    rw [if_neg Bool.noConfusion]
    by_cases none : job.flow.input = []
    · exact .inr (.inl ⟨if_pos none, rfl, none⟩)
    rw [if_neg none]
    have given : ¬ (true = true ∧ job.flow.input = []) := fun both => none both.2
    cases answer : server.evaluate job.flow.input with
    | error _ => exact .inr (.inr ⟨rfl, given, rfl, rfl⟩)
    | ok result =>
      refine .inl ⟨_, rfl, given, fun both => ?_⟩
      have failed : (server.evaluate job.flow.input).isOk = false := both.2
      rw [answer] at failed
      exact Bool.noConfusion failed

/-- A file that is opened if it is asked for. -/
theorem writeFile_cases (w : Writer σ) (server : Server) (asked : Prop) [Decidable asked]
    (mark expr : Text) (append hasControl : Bool) (s t : σ) :
    (∃ next, (if asked then writeFile w server mark expr append hasControl t else .ok t) = .ok next ∧
        ¬ (asked ∧ (daemonOf w server s).evaluates expr = false)) ∨
      (if asked then writeFile w server mark expr append hasControl t else .ok t) = .error .other ∧
        asked ∧ (daemonOf w server s).evaluates expr = false := by
  by_cases ask : asked
  · rw [if_pos ask, writeFile_eq]
    rcases openFile_cases w server mark expr _ s t with ⟨next, ok, fine⟩ | ⟨error, fails⟩
    · exact .inl ⟨next, ok, fun both => Bool.noConfusion (fine.symm.trans both.2)⟩
    · exact .inr ⟨error, ask, fails⟩
  · exact .inl ⟨t, if_neg ask, fun both => ask both.1⟩

/-- **From the first program on.** -/
theorem firstProgram_chain (settled : Settled w) (s : σ) (hasControl : Bool)
    (program : Program ProgramRest) (programs : List (Program ProgramRest)) (t : σ) :
    (firstProgram w server job hasControl program programs t).map (fun _ => ()) =
      Flow.Chain.firstProgram (daemonOf w server s) job.flow program programs := by
  have mpi := readMpi_snd w server program t s
  have begins : (daemonOf w server s).begins program = ((program.rest.mpi = [] ||
      (readMpi w server program s).2.isSome) && (daemonOf w server s).parses program) := rfl
  unfold firstProgram Flow.Chain.firstProgram
  dsimp only
  rw [begins, mpi]
  by_cases lacking : program.rest.mpi ≠ [] ∧ (readMpi w server program s).2.isNone = true
  · have without : (program.rest.mpi = [] || (readMpi w server program s).2.isSome) = false := by
      rw [Bool.or_eq_false_iff, decide_eq_false_iff_not, ← Bool.not_eq_true', Option.not_isSome]
      exact lacking
    rw [if_pos lacking, without, Bool.false_and, if_pos rfl]
    rfl
  have with_mpi : (program.rest.mpi = [] || (readMpi w server program s).2.isSome) = true := by
    rw [← Bool.not_eq_false, Bool.or_eq_false_iff, decide_eq_false_iff_not, ← Bool.not_eq_true',
      Option.not_isSome]
    exact lacking
  rw [if_neg lacking, with_mpi, Bool.true_and]
  rcases addParameters_cases server settled program s (writeBinary w [] program
    (readMpi w server program s).2 (readMpi w server program t).1) with
    ⟨t, ok, parses⟩ | ⟨error, fails⟩
  case inr =>
    rw [error, fails, if_pos rfl]
    rfl
  rw [ok, parses, if_neg Bool.noConfusion]
  show Except.map _ (writeInput w server job program t >>= _) = _
  rcases writeInput_cases w server job program s t with
    ⟨t, ok, given, evaluated⟩ | ⟨error, missing⟩ | ⟨error, given, fails⟩
  case inr.inl =>
    rw [error, if_pos missing]
    rfl
  case inr.inr =>
    rw [error, if_neg given, if_pos fails]
    rfl
  rw [ok, if_neg given, if_neg evaluated]
  show Except.map _ (writeError w server job hasControl program t >>= _) = _
  rw [writeError]
  rcases writeFile_cases w server (job.flow.error ≠ [] ∧ program.stderr = true) (ascii "2")
    job.flow.error job.errorAppend hasControl s t with ⟨t, ok, fine⟩ | ⟨error, asked, fails⟩
  case inr =>
    rw [error, if_pos ⟨asked.1, asked.2, fails⟩]
    rfl
  rw [ok, if_neg fun all => fine ⟨⟨all.1, all.2.1⟩, all.2.2⟩,
    ← otherPrograms_chain settled s hasControl program.stdout programs t]
  show Except.map _ (otherPrograms w server hasControl program.stdout programs t >>= _) = _
  cases others : otherPrograms w server hasControl program.stdout programs t with
  | error issue => rfl
  | ok last =>
    show Except.map _ (writeOutput w server job last) = _
    rw [writeOutput]
    rcases writeFile_cases w server (last.2.2 = true ∧ job.flow.output ≠ []) [] job.flow.output
      job.outputAppend last.2.1 s last.1 with ⟨t, ok, fine⟩ | ⟨error, asked, fails⟩
    · rw [ok]
      exact (if_neg fun all => fine ⟨⟨all.1, all.2.1⟩, all.2.2⟩).symm
    · rw [error]
      exact (if_pos ⟨asked.1, asked.2, fails⟩).symm

/-- **The writing gives up where the walk of the chain does**, with the same issue. -/
theorem jobAssemblyCmdline_chain (settled : Settled w) (s t : σ) :
    (jobAssemblyCmdline w server job t).map (fun _ => ()) =
      Flow.Chain.jobAssemblyCmdline (daemonOf w server s) job.flow := by
  unfold jobAssemblyCmdline Flow.Chain.jobAssemblyCmdline
  by_cases empty : job.flow.programs = []
  · rw [if_pos empty, if_pos empty]
    rfl
  rw [if_neg empty, if_neg empty]
  cases fromConfigured job.flow.programs with
  | nil => rfl
  | cons program programs =>
    dsimp only
    by_cases loop : program.getControl = .for
    · rw [if_pos loop, if_pos loop]
      cases fromConfigured programs with
      | nil => rfl
      | cons program programs => exact firstProgram_chain settled s true program programs t
    · rw [if_neg loop, if_neg loop]
      exact firstProgram_chain settled s false program programs t

/-- **The script of a job** is written just where the chain of its flow does not break. -/
theorem commandWriter_chain (evaluate : Text → Except EvaluateError Text) (nVars : ℕ)
    (s t : CommandState) :
      (jobAssemblyCmdline (commandWriter evaluate nVars) server job t).map (fun _ => ()) =
      Flow.Chain.jobAssemblyCmdline (daemonOf (commandWriter evaluate nVars) server s) job.flow :=
  jobAssemblyCmdline_chain (settled_commandWriter evaluate nVars) s t

end Walks

section Files

variable {w : Writer σ} {server : Server} {job : FlowJob} {loop : JobFlow ProgramRest}
    {script : LoopOutput.Script}

/-- The command line of a flow, with the files opened as it is given. -/
def writeOpening (w : Writer σ) (server : Server) (job : FlowJob)
    (stderr stdout : Option (Bool × Text)) (hasControl : Bool) (program : Program ProgramRest)
    (programs : List (Program ProgramRest)) (s : σ) : Except Issue σ :=
  let read := readMpi w server program s
  if program.rest.mpi ≠ [] ∧ read.2.isNone then .error .other
  else
    addParameters w program (writeBinary w [] program read.2 read.1) >>= fun s =>
    writeInput w server job program s >>= fun s =>
    openFile w server (ascii "2") stderr s >>= fun s =>
    otherPrograms w server hasControl program.stdout programs s >>= fun last =>
    openFile w server [] stdout last.1

/-- A file that is written to if it is asked for is opened as its redirection says. -/
theorem writeFile_redirection {asked : Prop} [Decidable asked] (same : SameLoop server job loop)
    (mark expr : Text) (append hasControl considered : Bool) (s : σ) :
    (if asked then writeFile w server mark expr append hasControl s else .ok s) =
      openFile w server mark
        (redirection (rewrite loop.dicts) expr (decide asked) append hasControl considered).opened
        s := by
  by_cases ask : asked
  · rw [if_pos ask, writeFile_eq, same.useIter, decide_eq_true ask]
    rfl
  · rw [if_neg ask, decide_eq_false ask]
    rfl

/-- The first program of the assembly. -/
theorem jobAssemblyCmdline_first {loopFirst : Bool} {program : Program ProgramRest}
    {programs : List (Program ProgramRest)}
    (first : firstOf job.flow.programs = some (loopFirst, program, programs)) (s : σ) :
    jobAssemblyCmdline w server job s = firstProgram w server job loopFirst program programs s := by
  have filled : job.flow.programs ≠ [] := by
    intro empty
    rw [empty] at first
    cases first
  unfold firstOf at first
  unfold jobAssemblyCmdline
  rw [if_neg filled]
  cases configured : fromConfigured job.flow.programs with
  | nil =>
    rw [configured] at first
    cases first
  | cons head rest =>
    rw [configured] at first
    dsimp only at first ⊢
    by_cases isLoop : head.getControl = .for
    · rw [if_pos isLoop] at first ⊢
      cases behind : fromConfigured rest with
      | nil =>
        rw [behind] at first
        cases first
      | cons next rest =>
        rw [behind] at first
        obtain ⟨rfl, rfl, rfl⟩ : true = loopFirst ∧ next = program ∧ rest = programs := by
          simpa using first
        rfl
    · rw [if_neg isLoop] at first ⊢
      obtain ⟨rfl, rfl, rfl⟩ : false = loopFirst ∧ head = program ∧ rest = programs := by
        simpa using first
      rfl

/-- **The files of a loop are opened as its script says.** -/
theorem jobAssemblyCmdline_opens (same : SameLoop server job loop)
    (assembled : jobAssembly loop = some script) (s : σ) :
    ∃ loopFirst program programs, firstOf job.flow.programs = some (loopFirst, program, programs) ∧
      jobAssemblyCmdline w server job s =
        writeOpening w server job script.stderr.opened script.stdout.opened loopFirst program
        programs s := by
  unfold jobAssembly at assembled
  rw [same.flow, same.outputAppend, same.errorAppend] at assembled
  cases first : firstOf job.flow.programs with
  | none =>
    rw [first] at assembled
    cases assembled
  | some found =>
    obtain ⟨loopFirst, program, programs⟩ := found
    refine ⟨loopFirst, program, programs, rfl, ?_⟩
    rw [first] at assembled
    dsimp only at assembled
    split at assembled
    case isFalse => cases assembled
    obtain rfl := Option.some.inj assembled
    rw [jobAssemblyCmdline_first first]
    unfold firstProgram writeOpening
    dsimp only
    split
    · rfl
    have errors : writeError w server job loopFirst program = openFile w server (ascii "2")
        (redirection (rewrite loop.dicts) job.flow.error (job.flow.error ≠ [] ∧ program.stderr)
          job.errorAppend loopFirst true).opened := funext fun s =>
      writeFile_redirection same (ascii "2") job.flow.error job.errorAppend loopFirst true s
    rw [errors]
    congr 1
    funext s
    congr 1
    funext s
    congr 1
    funext s
    cases others : otherPrograms w server loopFirst program.stdout programs s with
    | error issue => rfl
    | ok last =>
      show writeOutput w server job last = _
      rw [← otherPrograms_flags others]
      exact writeFile_redirection same [] job.flow.output job.outputAppend last.2.1 last.2.2 last.1

end Files

end Gebr.Daemon.Index
