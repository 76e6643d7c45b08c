/-
**A flow as the client validates it and as the daemon assembles it.**

Before a flow is sent, `gebr_geoxml_flow_validate` goes over its programs; on the other side
`job_assembly_cmdline` goes over them again, and chains their outputs to their inputs. Both pass by
the programs that are disabled and the loops.

* `gebrGeoxmlFlowValidate`, `jobAssemblyCmdline`: the two walks, each with its own way to pass by.
* `Linked`, `Accepted`: what a chain of programs is to be, without any walk.
* `validate_ok_iff` — **the client accepts** the accepted flows.
* `LoopsClash`: the flow begins with two loops, and the second one is taken for the first program.
* `validate_agrees_iff` — **the two sides agree** on every flow but an accepted one with such loops.
* `two_loops_disagree`: such a flow.
-/

import Gebr.Lib.CString
import Gebr.Flow.LoopDivision

namespace Gebr.Flow.Chain

open Gebr.Lib.CString (ascii)

section Model

abbrev Text : Type := List UInt8

/-- A program of a flow: its title, its attributes, and the rest of it (binary, parameters, MPI). -/
structure Program (π : Type) where
  title : Text
  status : Text
  control : Text
  stdin : Bool
  stdout : Bool
  stderr : Bool
  errorid : Text
  rest : π
  deriving DecidableEq

/-- The programs of a flow, and its files as expressions. -/
structure GebrGeoXmlFlow (π : Type) where
  programs : List (Program π)
  input : Text
  output : Text
  error : Text

variable {π : Type}

/-- `gebr_geoxml_program_get_status`: an unconfigured program counts as configured. -/
def Program.getStatus (program : Program π) : GebrGeoXmlProgramStatus :=
  if program.status = ascii "unconfigured" ∨ program.status = ascii "configured" then .configured
  else .disabled

/-- `gebr_geoxml_program_get_control`. -/
def Program.getControl (program : Program π) : GebrGeoXmlProgramControl :=
  if program.control = ascii "for" then .for
  else if program.control = [] then .ordinary
  else .unknown

/-- `gebr_geoxml_flow_has_control_program`. -/
def hasControlProgram (programs : List (Program π)) : Bool :=
  programs.any fun program => program.getControl ≠ .ordinary ∧ program.getControl ≠ .unknown

/-- What `gebr_geoxml_flow_validate` says is wrong, with the titles in its text. -/
inductive FlowError where
  /-- No configured or enabled programs found. -/
  | onlyLoop
  /-- There are unconfigured programs. -/
  | unconfigured
  /-- The first program expects an input file. -/
  | noInfile (title : Text)
  | invalidInfile (title : Text)
  /-- The program expects an input which is not being generated by the previous program. -/
  | noInput (title : Text) (prevTitle : Option Text)
  /-- The program is sending output which is being ignored by the next program. -/
  | noOutput (prevTitle : Option Text) (title : Text)
  /-- So many programs with error. -/
  | programs (number : ℕ)
  /-- No enabled programs found. -/
  | noneEnabled
  | invalidOutfile (title : Text)
  | invalidErrorfile (title : Text)
  deriving DecidableEq, Repr

/-- The validator of the client: what it finds for an expression that is not empty, and the aliases
of the paths of the line. -/
structure Validator where
  resolve : Text → Bool × Option Text
  pvector : List Text

/-- `gebr_validator_evaluate` and `gebr_validator_evaluate_interval` on the expression of a file. -/
def Validator.evaluate (validator : Validator) (expr : Text) : Bool × Option Text :=
  if expr = [] then (true, some []) else validator.resolve expr

/-- `gebr_validate_path`. -/
def gebrValidatePath (pvector : List Text) (path : Option Text) : Bool :=
  match path with
  | none => true
  | some [] => true
  | some (b :: path) =>
    if pvector.any fun name => (60 :: name ++ [62]).isPrefixOf (b :: path) then true else b = 47

/-- What the loop of `gebr_geoxml_flow_validate` carries. -/
structure Scan (π : Type) where
  first : Bool
  previousStdout : Bool
  lastConfigured : Option (Program π)
  prevProgramTitle : Option Text
  progsError : ℕ

/-- What a turn leaves when nothing is wrong. -/
def Scan.next (scan : Scan π) (prog : Program π) : Scan π :=
  { scan with
    first := false
    previousStdout := prog.stdout
    lastConfigured := some prog
    prevProgramTitle := some prog.title }

/-- The turn of the loop for a program that takes part in the chain; `input` is the evaluated
input. -/
def validateTurn (validator : Validator) (input : Bool × Option Text) (scan : Scan π)
    (prog : Program π) : Except FlowError (Scan π) :=
  if scan.first && prog.stdin then
    if input.2 = none ∨ input.2 = some [] then .error (.noInfile prog.title)
    else if !input.1 || !gebrValidatePath validator.pvector input.2 then
      .error (.invalidInfile prog.title)
    else .ok (scan.next prog)
  else
    match scan.previousStdout, prog.stdin with
    | false, false => .ok (scan.next prog)
    | true, true => .ok (scan.next prog)
    | false, true => .error (.noInput prog.title scan.prevProgramTitle)
    | true, false => .error (.noOutput scan.prevProgramTitle prog.title)

/-- The loop over the programs. -/
def validateLoop (validator : Validator) (input : Bool × Option Text) :
    Scan π → List (Program π) → Except FlowError (Scan π)
  | scan, [] => .ok scan
  | scan, prog :: progs =>
    match prog.getStatus with
    | .unconfigured => .error .unconfigured
    | .disabled => validateLoop validator input scan progs
    | .configured =>
      if prog.errorid ≠ [] then
        validateLoop validator input { scan with progsError := scan.progsError + 1 } progs
      else if prog.getControl = .for then validateLoop validator input scan progs
      else
        match validateTurn validator input scan prog with
        | .error error => .error error
        | .ok scan => validateLoop validator input scan progs

/-- The check of a file of the last program. -/
def Validator.accepts (validator : Validator) (expr : Text) : Bool :=
  let evaluated := validator.evaluate expr
  evaluated.1 && gebrValidatePath validator.pvector evaluated.2

/-- `gebr_geoxml_flow_validate`. -/
def gebrGeoxmlFlowValidate (validator : Validator) (flow : GebrGeoXmlFlow π) : Except FlowError Unit :=
  if flow.programs.length = 1 ∧ hasControlProgram flow.programs = true then .error .onlyLoop
  else
    match validateLoop validator (validator.evaluate flow.input) ⟨true, false, none, none, 0⟩
        flow.programs with
    | .error error => .error error
    | .ok scan =>
      if 0 < scan.progsError then .error (.programs scan.progsError)
      else
        match scan.first, scan.lastConfigured with
        | false, some last =>
          if last.stdout && !validator.accepts flow.output then .error (.invalidOutfile last.title)
          else if last.stderr && !validator.accepts flow.error then
            .error (.invalidErrorfile last.title)
          else .ok ()
        | _, _ => .error .noneEnabled

/-- What `job_assembly_cmdline` reports before it gives up. -/
inductive Issue where
  | emptyFlow
  | noConfigured
  | noInputFile
  /-- Broken flow before the program (no input). -/
  | noInput (title : Text)
  /-- Broken flow before the program (unexpected output). -/
  | unexpectedOutput (title : Text)
  /-- MPI, a parameter, or the expression of a file. -/
  | other
  deriving DecidableEq, Repr

/-- What the daemon finds beside the chain: whether the MPI and the parameters of a first program
are fine, those of another program, and the expression of a file. -/
structure Daemon (π : Type) where
  begins : Program π → Bool
  parses : Program π → Bool
  evaluates : Text → Bool

/-- The loop over the other programs; it ends with the last output. -/
def otherPrograms (daemon : Daemon π) : Bool → List (Program π) → Except Issue Bool
  | previousStdout, [] => .ok previousStdout
  | previousStdout, program :: programs =>
    if program.getStatus ≠ .configured then otherPrograms daemon previousStdout programs
    else if program.getControl = .for then otherPrograms daemon previousStdout programs
    else
      match previousStdout, program.stdin with
      | false, true => .error (.noInput program.title)
      | true, false => .error (.unexpectedOutput program.title)
      | _, _ =>
        if daemon.parses program = false then .error .other
        else otherPrograms daemon program.stdout programs

/-- From the first program on. -/
def firstProgram (daemon : Daemon π) (flow : GebrGeoXmlFlow π) (program : Program π)
    (programs : List (Program π)) : Except Issue Unit :=
  if daemon.begins program = false then .error .other
  else if program.stdin = true ∧ flow.input = [] then .error .noInputFile
  else if program.stdin = true ∧ daemon.evaluates flow.input = false then .error .other
  else if flow.error ≠ [] ∧ program.stderr = true ∧ daemon.evaluates flow.error = false then
    .error .other
  else
    match otherPrograms daemon program.stdout programs with
    | .error issue => .error issue
    | .ok previousStdout =>
      if previousStdout = true ∧ flow.output ≠ [] ∧ daemon.evaluates flow.output = false then
        .error .other
      else .ok ()

/-- The programs from the first configured one on. -/
def fromConfigured (programs : List (Program π)) : List (Program π) :=
  programs.dropWhile fun program => program.getStatus ≠ .configured

/-- `job_assembly_cmdline`, as far as it may give up. -/
def jobAssemblyCmdline (daemon : Daemon π) (flow : GebrGeoXmlFlow π) : Except Issue Unit :=
  if flow.programs = [] then .error .emptyFlow
  else
    match fromConfigured flow.programs with
    | [] => .error .noConfigured
    | program :: programs =>
      if program.getControl = .for then
        -- one loop is passed by; what comes next is not asked again
        match fromConfigured programs with
        | [] => .error .noConfigured
        | program :: programs => firstProgram daemon flow program programs
      else firstProgram daemon flow program programs

end Model

section Chains

variable {π : Type}

/-- The program takes part in the chain. -/
def Program.Ordinary (program : Program π) : Prop :=
  program.getStatus = .configured ∧ program.getControl ≠ .for

instance (program : Program π) : Decidable program.Ordinary :=
  inferInstanceAs (Decidable (_ ∧ _))

/-- The programs of the chain. -/
def chain (programs : List (Program π)) : List (Program π) :=
  programs.filter fun program => program.Ordinary

/-- **Each program reads what the one before it writes**, after one whose output is given. -/
def Linked : Bool → List (Program π) → Prop
  | _, [] => True
  | previousStdout, program :: programs =>
    previousStdout = program.stdin ∧ Linked program.stdout programs

/-- The input can be read by a first program. -/
def InputReady (validator : Validator) (flow : GebrGeoXmlFlow π) : Prop :=
  ∃ path, validator.evaluate flow.input = (true, some path) ∧ path ≠ [] ∧
    gebrValidatePath validator.pvector (some path) = true

/-- **A flow that can run**: it is not a loop alone, no program has an error, and there is a chain,
with files for its ends. -/
structure Accepted (validator : Validator) (flow : GebrGeoXmlFlow π) : Prop where
  notAlone : ¬ (flow.programs.length = 1 ∧ hasControlProgram flow.programs = true)
  clean : ∀ program ∈ flow.programs, program.getStatus = .configured → program.errorid = []
  some_program : chain flow.programs ≠ []
  begins : ∀ program ∈ (chain flow.programs).head?, program.stdin = true → InputReady validator flow
  linked : ∀ program ∈ (chain flow.programs).head?, Linked program.stdout (chain flow.programs).tail
  output : ∀ program ∈ (chain flow.programs).getLast?, program.stdout = true →
    validator.accepts flow.output = true
  error : ∀ program ∈ (chain flow.programs).getLast?, program.stderr = true →
    validator.accepts flow.error = true

/-- **Two loops in front**: the second one is taken for the first program, and its flags do not go
with the input of the flow or with the first program of the chain. -/
def LoopsClash (daemon : Daemon π) (flow : GebrGeoXmlFlow π) : Prop :=
  ∃ loop loop' rest, flow.programs.filter (fun program => program.getStatus = .configured) =
      loop :: loop' :: rest ∧
    loop.getControl = .for ∧ loop'.getControl = .for ∧ daemon.begins loop' = true ∧
    (loop'.stdin = true ∧ flow.input = [] ∨
      (loop'.stdin = true → daemon.evaluates flow.input = true) ∧
      (flow.error ≠ [] → loop'.stderr = true → daemon.evaluates flow.error = true) ∧
      ∃ program ∈ (chain rest).head?, loop'.stdout ≠ program.stdin)

/-- The daemon reports something about the chain. -/
def ChainIssue (result : Except Issue Unit) : Prop := ∃ issue, result = .error issue ∧ issue ≠ .other

/-- **The two sides agree**: the chain of a flow without error is not rejected, and a flow whose
chain is rejected has an error. -/
def Agree (validator : Validator) (daemon : Daemon π) (flow : GebrGeoXmlFlow π) : Prop :=
  (gebrGeoxmlFlowValidate validator flow = .ok () → ¬ ChainIssue (jobAssemblyCmdline daemon flow)) ∧
    (ChainIssue (jobAssemblyCmdline daemon flow) → gebrGeoxmlFlowValidate validator flow ≠ .ok ())

end Chains

section Client

variable {π : Type} {validator : Validator} {input : Bool × Option Text} {programs : List (Program π)}
  {scan scan' : Scan π}

/-- No program counts as unconfigured. -/
theorem status_cases (program : Program π) :
    program.getStatus = .configured ∨ program.getStatus = .disabled := by
  unfold Program.getStatus
  split
  · exact Or.inl rfl
  · exact Or.inr rfl

theorem chain_cons_ordinary {program : Program π} (ordinary : program.Ordinary)
    (programs : List (Program π)) : chain (program :: programs) = program :: chain programs :=
  List.filter_cons_of_pos (decide_eq_true ordinary)

theorem chain_cons_skip {program : Program π} (skipped : ¬ program.Ordinary)
    (programs : List (Program π)) : chain (program :: programs) = chain programs :=
  List.filter_cons_of_neg (by simpa using skipped)

/-- **Without errors** the loop turns once for each program of the chain. -/
theorem validateLoop_clean
    (clean : ∀ program ∈ programs, program.getStatus = .configured → program.errorid = [])
    (scan : Scan π) :
    validateLoop validator input scan programs =
      (chain programs).foldlM (validateTurn validator input) scan := by
  induction programs generalizing scan with
  | nil => rfl
  | cons program programs ih =>
    have rest := ih fun other member => clean other (List.mem_cons_of_mem _ member)
    rw [validateLoop]
    rcases status_cases program with configured | disabled
    · rw [configured]
      dsimp only
      rw [if_neg (not_not.2 (clean program List.mem_cons_self configured))]
      by_cases loop : program.getControl = .for
      · rw [if_pos loop, chain_cons_skip fun ordinary => ordinary.2 loop]
        exact rest scan
      · rw [if_neg loop, chain_cons_ordinary ⟨configured, loop⟩, List.foldlM_cons]
        cases validateTurn validator input scan program with
        | error error => rfl
        | ok scan => exact rest scan
    · rw [disabled, chain_cons_skip fun ordinary => ?_]
      · exact rest scan
      · have configured := ordinary.1
        rw [disabled] at configured
        cases configured

theorem validateTurn_progsError {program : Program π}
    (turned : validateTurn validator input scan program = .ok scan') :
    scan'.progsError = scan.progsError := by
  unfold validateTurn at turned
  split at turned
  · split at turned
    · cases turned
    · split at turned
      · cases turned
      · obtain rfl := Except.ok.inj turned
        rfl
  · split at turned
    · obtain rfl := Except.ok.inj turned
      rfl
    · obtain rfl := Except.ok.inj turned
      rfl
    · cases turned
    · cases turned

/-- **The errors are counted**, so that a program with an error is not forgotten. -/
theorem validateLoop_progsError (ended : validateLoop validator input scan programs = .ok scan') :
    scan.progsError ≤ scan'.progsError ∧
      ((∃ program ∈ programs, program.getStatus = .configured ∧ program.errorid ≠ []) →
        scan.progsError < scan'.progsError) := by
  induction programs generalizing scan with
  | nil =>
    obtain rfl := Except.ok.inj ended
    exact ⟨le_rfl, fun ⟨_, absent, _⟩ => absurd absent List.not_mem_nil⟩
  | cons program programs ih =>
    rw [validateLoop] at ended
    have later : ∀ {scan : Scan π}, validateLoop validator input scan programs = .ok scan' →
        ¬ (program.getStatus = .configured ∧ program.errorid ≠ []) →
        scan.progsError ≤ scan'.progsError ∧
          ((∃ other ∈ program :: programs, other.getStatus = .configured ∧ other.errorid ≠ []) →
            scan.progsError < scan'.progsError) := by
      intro scan ended fine
      obtain ⟨more, counted⟩ := ih ended
      refine ⟨more, fun ⟨other, member, bad⟩ => counted ⟨other, ?_, bad⟩⟩
      rcases List.mem_cons.1 member with rfl | member
      · exact absurd bad fine
      · exact member
    rcases status_cases program with configured | disabled
    · rw [configured] at ended
      dsimp only at ended
      split at ended
      · have counted := (ih ended).1
        exact ⟨Nat.le_of_succ_le counted, fun _ => counted⟩
      · rename_i clean
        have fine : ¬ (program.getStatus = .configured ∧ program.errorid ≠ []) :=
          fun bad => clean bad.2
        split at ended
        · exact later ended fine
        · split at ended
          · cases ended
          · rename_i turned
            rw [← validateTurn_progsError turned]
            exact later ended fine
    · rw [disabled] at ended
      refine later ended fun bad => ?_
      rw [disabled] at bad
      exact nomatch bad.1

/-- **After the first program** the loop ends just when the programs are linked. -/
theorem foldlM_linked (started : scan.first = false) :
    programs.foldlM (validateTurn validator input) scan = .ok scan' ↔
      Linked scan.previousStdout programs ∧ programs.foldl Scan.next scan = scan' := by
  induction programs generalizing scan with
  | nil => exact ⟨fun ended => ⟨trivial, Except.ok.inj ended⟩, fun both => congrArg _ both.2⟩
  | cons program programs ih =>
    have turn : validateTurn validator input scan program =
        if scan.previousStdout = program.stdin then .ok (scan.next program)
        else validateTurn validator input scan program := by
      split
      · rename_i same
        rw [validateTurn, started, same]
        cases program.stdin <;> rfl
      · rfl
    rw [List.foldlM_cons, List.foldl_cons, Linked]
    by_cases same : scan.previousStdout = program.stdin
    · rw [turn, if_pos same, and_assoc, and_iff_right same]
      exact ih rfl
    · refine iff_of_false (fun ended => ?_) fun both => same both.1.1
      rw [validateTurn, started] at ended
      revert same ended
      cases scan.previousStdout <;> cases program.stdin <;> intro same ended
      · exact same rfl
      · cases ended
      · cases ended
      · exact same rfl

theorem foldl_next (scan : Scan π) (program : Program π) (programs : List (Program π)) :
    let after := (program :: programs).foldl Scan.next scan
    after.first = false ∧ after.lastConfigured = (program :: programs).getLast? ∧
      after.progsError = scan.progsError := by
  induction programs generalizing scan program with
  | nil => exact ⟨rfl, rfl, rfl⟩
  | cons next programs ih =>
    obtain ⟨first, last, errors⟩ := ih (scan.next program) next
    refine ⟨first, ?_, errors⟩
    rw [List.getLast?_cons_cons]
    exact last

variable {flow : GebrGeoXmlFlow π}

/-- Before the first program. -/
def scanStart : Scan π := ⟨true, false, none, none, 0⟩

/-- **The first program** reads the input of the flow, or nothing. -/
theorem validateTurn_first (program : Program π) :
    validateTurn validator (validator.evaluate flow.input) scanStart program = .ok scan' ↔
      (program.stdin = true → InputReady validator flow) ∧ scanStart.next program = scan' := by
  unfold validateTurn scanStart
  dsimp only
  cases reads : program.stdin with
  | false =>
    rw [Bool.and_false, if_neg Bool.false_ne_true]
    exact ⟨fun turned => ⟨nofun, Except.ok.inj turned⟩, fun both => congrArg Except.ok both.2⟩
  | true =>
    rw [if_pos (Bool.and_self true), forall_prop_of_true rfl]
    unfold InputReady
    obtain ⟨valid, path⟩ := validator.evaluate flow.input
    dsimp only
    by_cases empty : path = none ∨ path = some []
    · rw [if_pos empty]
      refine iff_of_false nofun ?_
      rintro ⟨⟨found, same, some_path, -⟩, -⟩
      cases same
      rcases empty with absent | empty
      · cases absent
      · exact some_path (Option.some.inj empty)
    · rw [if_neg empty]
      rw [not_or] at empty
      obtain ⟨found, rfl⟩ := Option.ne_none_iff_exists'.1 empty.1
      have some_path : found ≠ [] := fun none => empty.2 (by rw [none])
      by_cases good : valid = true ∧ gebrValidatePath validator.pvector (some found) = true
      · rw [good.1, good.2, if_neg (by decide)]
        exact ⟨fun turned => ⟨⟨found, rfl, some_path, good.2⟩, Except.ok.inj turned⟩,
          fun both => congrArg _ both.2⟩
      · rw [if_pos]
        · refine iff_of_false nofun ?_
          rintro ⟨⟨other, same, -, path⟩, -⟩
          cases same
          exact good ⟨rfl, path⟩
        · rw [Bool.or_eq_true, Bool.not_eq_true', Bool.not_eq_true', ← Bool.not_eq_true,
            ← Bool.not_eq_true]
          exact not_and_or.1 good

/-- **The whole loop** over a flow without errors. -/
theorem validateLoop_ok_iff
    (clean : ∀ program ∈ flow.programs, program.getStatus = .configured → program.errorid = [])
    {program : Program π} {others : List (Program π)}
    (first : chain flow.programs = program :: others) :
      validateLoop validator (validator.evaluate flow.input) scanStart flow.programs = .ok scan' ↔
        (program.stdin = true → InputReady validator flow) ∧ Linked program.stdout others ∧
        (program :: others).foldl Scan.next scanStart = scan' := by
  rw [validateLoop_clean clean, first, List.foldlM_cons]
  cases turned : validateTurn validator (validator.evaluate flow.input) scanStart program with
  | error error =>
    refine iff_of_false nofun fun both => ?_
    rw [(validateTurn_first program).2 ⟨both.1, rfl⟩] at turned
    cases turned
  | ok scan =>
    obtain ⟨reads, rfl⟩ := (validateTurn_first program).1 turned
    exact (foldlM_linked rfl).trans (and_iff_right reads).symm

/-- **The client accepts the accepted flows**, and no others. -/
theorem validate_ok_iff (validator : Validator) (flow : GebrGeoXmlFlow π) :
    gebrGeoxmlFlowValidate validator flow = .ok () ↔ Accepted validator flow := by
  have start : scanStart = (⟨true, false, none, none, 0⟩ : Scan π) := rfl
  unfold gebrGeoxmlFlowValidate
  rw [← start]
  by_cases alone : flow.programs.length = 1 ∧ hasControlProgram flow.programs = true
  · rw [if_pos alone]
    exact iff_of_false nofun fun accepted => accepted.notAlone alone
  rw [if_neg alone]
  constructor
  · intro valid
    cases ended : validateLoop validator (validator.evaluate flow.input) scanStart flow.programs with
    | error error =>
      rw [ended] at valid
      cases valid
    | ok scan =>
      rw [ended] at valid
      dsimp only at valid
      split at valid
      · cases valid
      · rename_i none
        have clean : ∀ program ∈ flow.programs, program.getStatus = .configured →
            program.errorid = [] := by
          intro program member configured
          by_contra bad
          exact none ((validateLoop_progsError ended).2 ⟨program, member, configured, bad⟩)
        cases first : chain flow.programs with
        | nil =>
          rw [validateLoop_clean clean, first] at ended
          obtain rfl := Except.ok.inj ended
          cases valid
        | cons program others =>
          obtain ⟨reads, linked, rfl⟩ := (validateLoop_ok_iff clean first).1 ended
          obtain ⟨started, last, -⟩ := foldl_next (scanStart : Scan π) program others
          rw [started, last] at valid
          refine ⟨alone, clean, ?_, ?_, ?_, ?_, ?_⟩
          · rw [first]
            exact List.cons_ne_nil _ _
          · rw [first]
            rintro _ ⟨⟩
            exact reads
          · rw [first]
            rintro _ ⟨⟩
            exact linked
          all_goals
            rw [first]
            intro program' last' writes
            rw [Option.mem_def.1 last'] at valid
            dsimp only at valid
            rw [writes] at valid
          · split at valid
            · cases valid
            · rename_i accepts
              simpa using accepts
          · split at valid
            · cases valid
            · split at valid
              · cases valid
              · rename_i accepts
                simpa using accepts
  · intro accepted
    obtain ⟨program, others, first⟩ := List.exists_cons_of_ne_nil accepted.some_program
    have ended := (validateLoop_ok_iff accepted.clean first).2
      ⟨accepted.begins program (by rw [first]; rfl),
        by simpa only [first, List.tail_cons] using accepted.linked program (by rw [first]; rfl), rfl⟩
    rw [ended]
    obtain ⟨started, last, errors⟩ := foldl_next (scanStart : Scan π) program others
    have none : ¬ 0 < (scanStart : Scan π).progsError := lt_irrefl 0
    dsimp only
    rw [errors, if_neg none, started, last]
    have isLast : (chain flow.programs).getLast? =
        some ((program :: others).getLast (List.cons_ne_nil _ _)) := by
      rw [first, List.getLast?_eq_some_getLast]
    rw [List.getLast?_eq_some_getLast (List.cons_ne_nil program others)]
    dsimp only
    rw [if_neg, if_neg]
    · intro bad
      rw [Bool.and_eq_true, Bool.not_eq_true', ← Bool.not_eq_true] at bad
      exact bad.2 (accepted.error _ isLast bad.1)
    · intro bad
      rw [Bool.and_eq_true, Bool.not_eq_true', ← Bool.not_eq_true] at bad
      exact bad.2 (accepted.output _ isLast bad.1)

end Client

section Server

variable {π : Type} {daemon : Daemon π} {flow : GebrGeoXmlFlow π} {programs : List (Program π)}

theorem not_ordinary_of_status {program : Program π} (other : program.getStatus ≠ .configured) :
    ¬ program.Ordinary := fun ordinary => other ordinary.1

theorem not_ordinary_of_loop {program : Program π} (loop : program.getControl = .for) :
    ¬ program.Ordinary := fun ordinary => ordinary.2 loop

theorem otherPrograms_skip {program : Program π} (skipped : ¬ program.Ordinary)
    (previousStdout : Bool) : otherPrograms daemon previousStdout (program :: programs) =
      otherPrograms daemon previousStdout programs := by
  conv_lhs => unfold otherPrograms
  by_cases configured : program.getStatus = .configured
  · by_cases loop : program.getControl = .for
    · rw [if_neg (not_not.2 configured), if_pos loop]
    · exact absurd ⟨configured, loop⟩ skipped
  · rw [if_pos configured]

/-- A program of the chain that reads what the one before it writes. -/
theorem otherPrograms_linked_cons {program : Program π} (ordinary : program.Ordinary) :
    otherPrograms daemon program.stdin (program :: programs) =
      if daemon.parses program = false then .error .other
      else otherPrograms daemon program.stdout programs := by
  conv_lhs => unfold otherPrograms
  rw [if_neg (not_not.2 ordinary.1), if_neg ordinary.2]
  cases program.stdin <;> rfl

/-- A program of the chain that does not. -/
theorem otherPrograms_broken_cons {program : Program π} (ordinary : program.Ordinary)
    {previousStdout : Bool} (broken : previousStdout ≠ program.stdin) :
    otherPrograms daemon previousStdout (program :: programs) =
      .error (if program.stdin then .noInput program.title else .unexpectedOutput program.title) := by
  unfold otherPrograms
  rw [if_neg (not_not.2 ordinary.1), if_neg ordinary.2]
  revert broken
  cases previousStdout <;> cases program.stdin <;> intro broken
  · exact absurd rfl broken
  · rfl
  · rfl
  · exact absurd rfl broken

/-- **Linked programs** are never reported. -/
theorem otherPrograms_linked {previousStdout : Bool}
    (linked : Linked previousStdout (chain programs)) {issue : Issue}
    (stopped : otherPrograms daemon previousStdout programs = .error issue) : issue = .other := by
  induction programs generalizing previousStdout with
  | nil => cases stopped
  | cons program programs ih =>
    by_cases ordinary : program.Ordinary
    · rw [chain_cons_ordinary ordinary, Linked] at linked
      rw [linked.1, otherPrograms_linked_cons ordinary] at stopped
      split at stopped
      · exact (Except.error.inj stopped).symm
      · exact ih linked.2 stopped
    · rw [chain_cons_skip ordinary] at linked
      rw [otherPrograms_skip ordinary] at stopped
      exact ih linked stopped

/-- **A first program that is not linked** is reported. -/
theorem otherPrograms_broken {previousStdout : Bool} {program : Program π}
    (first : program ∈ (chain programs).head?) (broken : previousStdout ≠ program.stdin) :
    ∃ issue, otherPrograms daemon previousStdout programs = .error issue ∧ issue ≠ .other := by
  induction programs with
  | nil => cases first
  | cons next programs ih =>
    by_cases ordinary : next.Ordinary
    · rw [chain_cons_ordinary ordinary] at first
      obtain rfl := Option.some.inj first
      refine ⟨_, otherPrograms_broken_cons ordinary broken, ?_⟩
      split <;> exact nofun
    · rw [chain_cons_skip ordinary] at first
      rw [otherPrograms_skip ordinary]
      exact ih first

/-- The first configured program, and what comes after it. -/
theorem fromConfigured_cases (programs : List (Program π)) :
    let configured := programs.filter fun program => program.getStatus = .configured
    (fromConfigured programs = [] ∧ chain programs = []) ∨
      ∃ program rest, fromConfigured programs = program :: rest ∧ program.getStatus = .configured ∧
        configured = program :: rest.filter (fun program => program.getStatus = .configured) ∧
        chain programs = chain (program :: rest) := by
  induction programs with
  | nil => exact Or.inl ⟨rfl, rfl⟩
  | cons program programs ih =>
    dsimp only at ih ⊢
    by_cases configured : program.getStatus = .configured
    · refine Or.inr ⟨program, programs, ?_, configured, ?_, rfl⟩
      · exact List.dropWhile_cons_of_neg (by simpa using configured)
      · exact List.filter_cons_of_pos (decide_eq_true configured)
    · have drop : fromConfigured (program :: programs) = fromConfigured programs :=
        List.dropWhile_cons_of_pos (decide_eq_true configured)
      rw [drop, List.filter_cons_of_neg (by simpa using configured),
        chain_cons_skip (not_ordinary_of_status configured)]
      exact ih

/-- **From a first program** something is reported about the chain just when the input is missing
or, all else being fine, the chain is broken. -/
theorem firstProgram_issue_iff {program : Program π} :
    ChainIssue (firstProgram daemon flow program programs) ↔
      daemon.begins program = true ∧ (program.stdin = true ∧ flow.input = [] ∨
        (program.stdin = true → daemon.evaluates flow.input = true) ∧
        (flow.error ≠ [] → program.stderr = true → daemon.evaluates flow.error = true) ∧
        ∃ issue, otherPrograms daemon program.stdout programs = .error issue ∧ issue ≠ .other) := by
  unfold firstProgram ChainIssue
  have other : ¬ ∃ issue, (Except.error Issue.other : Except Issue Unit) = .error issue ∧
      issue ≠ .other := by
    rintro ⟨_, ⟨⟩, same⟩
    exact same rfl
  split
  · rename_i begins
    exact iff_of_false other fun both => absurd both.1 (by rw [begins]; exact Bool.false_ne_true)
  · rename_i begins
    rw [Bool.not_eq_false] at begins
    rw [and_iff_right begins]
    split
    · rename_i missing
      exact iff_of_true ⟨_, rfl, nofun⟩ (Or.inl missing)
    · rename_i there
      rw [or_iff_right there]
      split
      · rename_i bad
        exact iff_of_false other fun both => absurd (both.1 bad.1)
          (by rw [bad.2]; exact Bool.false_ne_true)
      · rename_i input
        have input' : program.stdin = true → daemon.evaluates flow.input = true := fun reads =>
          Bool.eq_true_of_not_eq_false fun bad => input ⟨reads, bad⟩
        rw [and_iff_right input']
        split
        · rename_i bad
          exact iff_of_false other fun both =>
            absurd (both.1 bad.1 bad.2.1) (by rw [bad.2.2]; exact Bool.false_ne_true)
        · rename_i error
          have error' : flow.error ≠ [] → program.stderr = true → daemon.evaluates flow.error = true :=
            fun some_file writes => Bool.eq_true_of_not_eq_false fun bad =>
              error ⟨some_file, writes, bad⟩
          rw [and_iff_right error']
          cases otherPrograms daemon program.stdout programs with
          | error issue =>
            constructor
            · rintro ⟨found, same, kind⟩
              obtain rfl := Except.error.inj same
              exact ⟨_, rfl, kind⟩
            · rintro ⟨found, same, kind⟩
              obtain rfl := Except.error.inj same
              exact ⟨_, rfl, kind⟩
          | ok previousStdout =>
            refine iff_of_false ?_ nofun
            dsimp only
            split
            · exact other
            · rintro ⟨_, ⟨⟩, -⟩

theorem chain_filter (programs : List (Program π)) :
    chain (programs.filter fun program => program.getStatus = .configured) = chain programs := by
  unfold chain
  rw [List.filter_filter]
  refine List.filter_congr fun program _ => ?_
  by_cases ordinary : program.Ordinary
  · rw [decide_eq_true ordinary, decide_eq_true ordinary.1]
    rfl
  · rw [decide_eq_false ordinary, Bool.false_and]

end Server

section Agreement

variable {π : Type} {validator : Validator} {daemon : Daemon π} {flow : GebrGeoXmlFlow π}
  {programs : List (Program π)}

/-- **The daemon starts an accepted chain** without a word, when it starts with its first
program. -/
theorem Accepted.begun (accepted : Accepted validator flow) {program : Program π}
    (first : chain flow.programs = program :: chain programs) :
    ¬ ChainIssue (firstProgram daemon flow program programs) := by
  have head : program ∈ (chain flow.programs).head? := by
    rw [first]
    rfl
  intro reported
  obtain ⟨-, missing | ⟨-, -, issue, stopped, kind⟩⟩ := firstProgram_issue_iff.1 reported
  · obtain ⟨path, evaluated, some_path, -⟩ := accepted.begins program head missing.1
    rw [Validator.evaluate, if_pos missing.2] at evaluated
    exact some_path (Option.some.inj (Prod.mk.inj evaluated).2).symm
  · refine kind (otherPrograms_linked ?_ stopped)
    have linked := accepted.linked program head
    rw [first] at linked
    exact linked

/-- A loop taken for the first program is reported just when it clashes. -/
theorem Accepted.loop_issue_iff (accepted : Accepted validator flow) {loop : Program π}
    (rest : chain flow.programs = chain programs) :
    (∃ issue, otherPrograms daemon loop.stdout programs = .error issue ∧ issue ≠ .other) ↔
      ∃ program ∈ (chain programs).head?, loop.stdout ≠ program.stdin := by
  constructor
  · rintro ⟨issue, stopped, kind⟩
    obtain ⟨program, others, first⟩ := List.exists_cons_of_ne_nil accepted.some_program
    have linked := accepted.linked program (by rw [first]; rfl)
    rw [first, List.tail_cons] at linked
    rw [rest] at first
    rw [first]
    refine ⟨program, rfl, fun same => kind (otherPrograms_linked ?_ stopped)⟩
    rw [first]
    exact ⟨same, linked⟩
  · rintro ⟨program, first, broken⟩
    exact otherPrograms_broken first broken

/-- **On an accepted flow** the daemon reports something about the chain just when two loops
clash. -/
theorem Accepted.issue_iff (accepted : Accepted validator flow) :
    ChainIssue (jobAssemblyCmdline daemon flow) ↔ LoopsClash daemon flow := by
  have some_program : flow.programs ≠ [] := by
    intro none
    exact accepted.some_program (by rw [none]; rfl)
  unfold jobAssemblyCmdline LoopsClash
  rw [if_neg some_program]
  rcases fromConfigured_cases flow.programs with
    ⟨-, none⟩ | ⟨program, rest, start, status, list, chained⟩
  · exact absurd none accepted.some_program
  rw [start, list]
  dsimp only
  by_cases loop : program.getControl = .for
  · rw [if_pos loop]
    rw [chain_cons_skip (not_ordinary_of_loop loop)] at chained
    rcases fromConfigured_cases rest with
      ⟨-, none⟩ | ⟨program', rest', start', status', list', chained'⟩
    · exact absurd (chained.trans none) accepted.some_program
    rw [start', list']
    dsimp only
    rw [chained'] at chained
    by_cases loop' : program'.getControl = .for
    · rw [chain_cons_skip (not_ordinary_of_loop loop')] at chained
      rw [firstProgram_issue_iff, accepted.loop_issue_iff chained]
      constructor
      · rintro ⟨begins, clash⟩
        refine ⟨program, program', _, rfl, loop, loop', begins, ?_⟩
        rw [chain_filter]
        exact clash
      · rintro ⟨_, _, _, same, -, -, begins, clash⟩
        cases same
        rw [chain_filter] at clash
        exact ⟨begins, clash⟩
    · rw [chain_cons_ordinary ⟨status', loop'⟩] at chained
      refine iff_of_false (accepted.begun chained) ?_
      rintro ⟨_, _, _, same, -, second, -⟩
      obtain ⟨rfl, -⟩ := List.cons.inj (List.cons.inj same).2
      exact loop' second
  · rw [if_neg loop]
    rw [chain_cons_ordinary ⟨status, loop⟩] at chained
    refine iff_of_false (accepted.begun chained) ?_
    rintro ⟨_, _, _, same, first, -⟩
    obtain ⟨rfl, -⟩ := List.cons.inj same
    exact loop first

/-- **The client and the daemon agree** on a flow, whatever the validator finds for its files and
whatever the daemon finds beside the chain, unless the flow is one that can run and begins with two
loops, the second of which clashes. -/
theorem validate_agrees_iff (validator : Validator) (daemon : Daemon π) (flow : GebrGeoXmlFlow π) :
    Agree validator daemon flow ↔ ¬ (Accepted validator flow ∧ LoopsClash daemon flow) := by
  constructor
  · rintro ⟨implied, -⟩ ⟨accepted, clash⟩
    exact implied ((validate_ok_iff validator flow).2 accepted) (accepted.issue_iff.2 clash)
  · intro apart
    have implied : gebrGeoxmlFlowValidate validator flow = .ok () →
        ¬ ChainIssue (jobAssemblyCmdline daemon flow) := by
      intro valid reported
      have accepted := (validate_ok_iff validator flow).1 valid
      exact apart ⟨accepted, accepted.issue_iff.1 reported⟩
    exact ⟨implied, fun reported valid => implied valid reported⟩

/-- A validator that takes every expression for a text. -/
def validatorExample : Validator := ⟨fun expr => (true, some expr), []⟩

def daemonExample : Daemon Unit := ⟨fun _ => true, fun _ => true, fun _ => true⟩

/-- Two loops, and a program that reads `/in`. -/
def flowExample : GebrGeoXmlFlow Unit :=
  let loop : Program Unit :=
    ⟨ascii "Loop", ascii "configured", ascii "for", false, false, false, [], ()⟩
  ⟨[loop, loop, ⟨ascii "Program", ascii "configured", [], true, false, false, [], ()⟩],
    ascii "/in", [], []⟩

/-- **A valid flow that the daemon calls broken**: the second loop has no output for the program. -/
theorem two_loops_disagree :
    gebrGeoxmlFlowValidate validatorExample flowExample = .ok () ∧
      jobAssemblyCmdline daemonExample flowExample = .error (.noInput (ascii "Program")) ∧
      ¬ Agree validatorExample daemonExample flowExample := by
  have valid : gebrGeoxmlFlowValidate validatorExample flowExample = .ok () := rfl
  have broken : jobAssemblyCmdline daemonExample flowExample =
      .error (.noInput (ascii "Program")) := rfl
  exact ⟨valid, broken, fun agree => agree.1 valid ⟨_, broken, nofun⟩⟩

end Agreement

end Gebr.Flow.Chain
