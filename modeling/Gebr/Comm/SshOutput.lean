/-
**What ssh says, and what it is answered.**

An ssh runs on a terminal, and what it says arrives in pieces that end anywhere. Lines are taken
from a buffer; a line that has not ended is taken too, when a prompt is in it. Some lines are
prompts, errors, or the start of the output of the command, which ends at the next line of the log
of ssh itself.

* `getNextLine`, `parseLoop`: the lines of the buffer, one after another.
* `lineKind`, `processSshLine`: what a line is, and what it sets off.
* `step`: something that is read, an answer of the user, or the end of the process.
* `parseLoop_eq`: the lines that are complete are processed, and then what is behind them, if it is
  a prompt.
* `Calm`: pieces that do not end within a line that has a prompt.
* `read_pieces` — **pieces that are calm set off the same as all of it at once**.
-/

import Gebr.Lib.CString
import Gebr.Lib.LineBuffer
import Gebr.Lib.Run

namespace Gebr.Comm.SshOutput

open Gebr.Lib Gebr.Lib.CString Gebr.Lib.LineBuffer

abbrev Text : Type := List UInt8

section Model

inductive GebrCommSshState where
  | init | password | question | error | finished
  deriving DecidableEq

inductive SshOutState where
  | init | commandOutput
  deriving DecidableEq

/-- The signals of an ssh; a question by the fingerprint that it shows. -/
inductive Signal where
  | password (retry : Bool)
  | question (fingerprint : Option Text)
  | error (message : Text)
  | stdout (output : Text)
  | stdin
  | key (acceptsKey : Bool)
  | finished
  deriving DecidableEq

/-- What an ssh does: a signal, a password or an answer that it writes, and other data. -/
inductive Act where
  | emit (signal : Signal)
  | password (text : Text)
  | answer (response : Bool)
  | chars (data : Text)
  deriving DecidableEq

/-- `GebrCommSshPriv`, when the command was started. `process` says whether there is one, `watches`
counts the calls that wait until it can be written to, and `acts` is all that was done. -/
structure GebrCommSsh where
  state : GebrCommSshState
  process : Bool
  attempts : ℕ
  buffer : Text
  sshOutput : Text
  outBuffer : Text
  outState : SshOutState
  fingerprint : Option Text
  watches : ℕ
  acts : List Act
  deriving DecidableEq

/-- `gebr_comm_ssh_new` and `gebr_comm_ssh_run`. -/
def gebrCommSshRun : GebrCommSsh := ⟨.init, true, 0, [], [], [], .init, none, 0, []⟩

def GebrCommSsh.act (self : GebrCommSsh) (act : Act) : GebrCommSsh :=
  { self with acts := self.acts ++ [act] }

/-- What is left in the buffer. -/
def GebrCommSsh.setBuffer (self : GebrCommSsh) (buffer : Text) : GebrCommSsh := { self with buffer }

@[simp] theorem buffer_setBuffer (self : GebrCommSsh) (buffer : Text) :
    (self.setBuffer buffer).buffer = buffer := rfl

@[simp] theorem setBuffer_setBuffer (self : GebrCommSsh) (buffer other : Text) :
    (self.setBuffer buffer).setBuffer other = self.setBuffer other := rfl

def fingerprintMsg : Text := ascii "fingerprint is "
def certificateQuestion : Text := ascii "Are you sure"
def certificateError : Text := ascii "@@@@@@@@@@@@@@@@@@@@@@@@@@@"
def questionSuffix : Text := ascii "(yes/no)?"
def passwordSuffix : Text := ascii "password:"
def acceptsPublicKey : Text := ascii "Authentications that can continue:"
def sshErrorPrefix : Text := ascii "ssh: "
def sendingCommand : Text := ascii "Sending command: "
def remoteForward : Text := ascii "remote forward success for:"
def limitedWrongPassword : Text := ascii "No more authentication methods to try"
def localForwardError : Text := ascii "Could not request local forwarding."
def hostVerificationError : Text := ascii "Host key verification failed."

/-- `strstr` and `g_strrstr`, as tests. -/
def has (line sub : Text) : Bool := (strstr sub line).isSome

/-- `strstr`: the text from there on. -/
def textFrom (sub line : Text) : Option Text := (strstr sub line).map line.drop

/-- `gebr_comm_ssh_password_error`. -/
def gebrCommSshPasswordError (wrongPass : Bool) (self : GebrCommSsh) : GebrCommSsh :=
  let err := if wrongPass = true then ascii "Wrong password. Please, try again."
    else ascii "Please, type the password to connect."
  GebrCommSsh.act { self with attempts := 0, state := .error } (.emit (.error err))

/-- `gebr_comm_ssh_set_password`, with `write_pass_in_process`. -/
def gebrCommSshSetPassword (password : Option Text) (self : GebrCommSsh) : GebrCommSsh :=
  match password with
  | none => gebrCommSshPasswordError false self
  | some password =>
    let self := { self with attempts := self.attempts + 1 }
    if self.state = .password then self.act (.password password) else self

/-- `gebr_comm_ssh_answer_question`. -/
def gebrCommSshAnswerQuestion (response : Bool) (self : GebrCommSsh) : GebrCommSsh :=
  if self.state = .question then self.act (.answer response) else self

/-- The fingerprint behind the message, without the period at its end. -/
def fingerprintOf (finger : Text) : Text :=
  let tmp := finger.drop fingerprintMsg.length
  if tmp.getLast? = some 46 then tmp.dropLast else tmp

def GebrCommSsh.fail (message : Text) (self : GebrCommSsh) : GebrCommSsh :=
  GebrCommSsh.act { self with state := .error } (.emit (.error message))

/-- The tests of `process_ssh_line`, by the first one that a line meets. -/
inductive LineKind where
  | fingerprint (finger : Text)
  | question
  | hostVerification
  | password
  | certificate
  | keys
  | sshError
  | wrongPassword
  | localForward
  | command
  | other
  deriving DecidableEq

/-- What a line is, while no command prints. -/
def lineKind (line : Text) : LineKind :=
  match textFrom fingerprintMsg line with
  | some finger => .fingerprint finger
  | none =>
    if has line certificateQuestion then .question
    else if has line hostVerificationError then .hostVerification
    else if has line passwordSuffix then .password
    else if has line certificateError then .certificate
    else if has line acceptsPublicKey then .keys
    else if sshErrorPrefix.isPrefixOf line then .sshError
    else if has line limitedWrongPassword then .wrongPassword
    else if has line localForwardError then .localForward
    else if has line sendingCommand || has line remoteForward then .command
    else .other

/-- `process_ssh_line`, while no command prints. -/
def processInit (line : Text) (self : GebrCommSsh) : GebrCommSsh :=
  match lineKind line with
  | .fingerprint finger => { self with fingerprint := some (fingerprintOf finger) }
  | .question => GebrCommSsh.act { self with state := .question } (.emit (.question self.fingerprint))
  | .hostVerification => self.fail (ascii "Host key verification failed.")
  | .password => GebrCommSsh.act { self with state := .password }
      (.emit (.password (0 < self.attempts)))
  | .certificate =>
    self.fail (ascii
      "The known_hosts file is probably corrupted. Contact your system administrator for help.")
  | .keys => self.act (.emit (.key (has line (ascii "publickey"))))
  | .sshError => self.fail (line.drop sshErrorPrefix.length)
  | .wrongPassword => gebrCommSshPasswordError true self
  | .localForward => self.fail (ascii "error:local-forward")
  -- With `schedule_stdin_signal`.
  | .command => { self with outState := .commandOutput, watches := self.watches + 1 }
  | .other => self

/-- `process_ssh_line`. -/
def processSshLine (line : Text) (self : GebrCommSsh) : GebrCommSsh :=
  match self.outState with
  | .init => processInit line self
  | .commandOutput =>
    if (ascii "debug1: ").isPrefixOf line then
      -- `out_buffer` is not emptied.
      { self.act (.emit (.stdout self.outBuffer)) with outState := .init }
    else { self with outBuffer := self.outBuffer ++ line ++ [10] }

/-- `fill_ssh_output`. -/
def fillSshOutput (line : Text) (self : GebrCommSsh) : GebrCommSsh :=
  if self.outState ≠ .commandOutput ∧ (ascii "debug1:").isPrefixOf line = false then
    { self with sshOutput := self.sshOutput ++ line ++ [10] }
  else self

/-- A text has a prompt in it. -/
def isPrompt (text : Text) : Bool := has text questionSuffix || has text passwordSuffix

/-- `get_next_line`: the line and the buffer behind it. -/
def getNextLine (buffer : Text) : Option (Text × Text) :=
  match buffer.dropWhile (· ≠ 10) with
  | [] => if isPrompt buffer = true then some (CString.gStrstrip buffer, []) else none
  | _ :: rest => some (CString.gStrstrip (buffer.takeWhile (· ≠ 10)), rest)

/-- A line has a line end or a prompt, and leaves a shorter buffer. -/
theorem length_getNextLine {buffer line rest : Text} (found : getNextLine buffer = some (line, rest)) :
    rest.length < buffer.length := by
  unfold getNextLine at found
  cases behind : buffer.dropWhile (· ≠ 10) with
  | nil =>
    rw [behind] at found
    dsimp only at found
    split_ifs at found with prompt
    obtain ⟨-, rfl⟩ := Prod.mk.inj (Option.some.inj found)
    refine List.length_pos_iff.2 fun empty => ?_
    rw [empty] at prompt
    exact absurd prompt (by decide)
  | cons b behind' =>
    rw [behind] at found
    obtain ⟨-, rfl⟩ := Prod.mk.inj (Option.some.inj found)
    have shorter := (List.dropWhile_suffix (· ≠ 10) (l := buffer)).length_le
    rw [behind, List.length_cons] at shorter
    exact shorter

/-- One line is processed. -/
def turn (line : Text) (self : GebrCommSsh) : GebrCommSsh :=
  fillSshOutput line (processSshLine line self)

/-- A line that is processed leaves the buffer as it is. -/
theorem buffer_turn (line : Text) (self : GebrCommSsh) : (turn line self).buffer = self.buffer := by
  have fill : ∀ self : GebrCommSsh, (fillSshOutput line self).buffer = self.buffer := by
    intro self
    unfold fillSshOutput
    split_ifs <;> rfl
  have first : (processInit line self).buffer = self.buffer := by
    unfold processInit
    cases lineKind line <;> rfl
  rw [turn, fill]
  unfold processSshLine
  split
  · exact first
  · split_ifs <;> rfl

/-- The loop of `gebr_comm_ssh_parse_output`. -/
def parseLoop (self : GebrCommSsh) : GebrCommSsh :=
  match _found : getNextLine self.buffer with
  | none => self
  | some (line, rest) => parseLoop (turn line (self.setBuffer rest))
termination_by self.buffer.length
decreasing_by
  rw [buffer_turn]
  exact length_getNextLine _found

/-- `gebr_comm_ssh_parse_output`. What is read is a C string. -/
def gebrCommSshParseOutput (output : Text) (self : GebrCommSsh) : GebrCommSsh :=
  parseLoop (self.setBuffer (self.buffer ++ output.takeWhile (· ≠ 0)))

/-- `ssh_process_finished`. -/
def sshProcessFinished (self : GebrCommSsh) : GebrCommSsh :=
  GebrCommSsh.act { self with state := .finished, process := false } (.emit .finished)

/-- `ssh_process_write`, once for each watch. -/
def sshProcessWrite (self : GebrCommSsh) : GebrCommSsh :=
  let self := { self with watches := self.watches - 1 }
  if self.outState = .commandOutput then self.act (.emit .stdin) else self

/-- The callbacks of the process, and the calls of the owner. -/
inductive Event where
  | read (output : Text)
  | writable
  | processFinished
  | setPassword (password : Option Text)
  | passwordError (wrongPass : Bool)
  | answerQuestion (response : Bool)
  | writeChars (data : Text)

/-- **One event**: there is nothing to be read from a process that has finished, and its owner
writes no other data to it. -/
def step (self : GebrCommSsh) : Event → Option GebrCommSsh
  | .read output => if self.process = true then some (gebrCommSshParseOutput output self) else none
  | .writable => if self.process = true ∧ 0 < self.watches then some (sshProcessWrite self) else none
  | .processFinished => if self.process = true then some (sshProcessFinished self) else none
  | .setPassword password => some (gebrCommSshSetPassword password self)
  | .passwordError wrongPass => some (gebrCommSshPasswordError wrongPass self)
  | .answerQuestion response => some (gebrCommSshAnswerQuestion response self)
  | .writeChars data => if self.process = true then some (self.act (.chars data)) else none

end Model

section Lines

theorem getNextLine_line {line : Text} (clean : 10 ∉ line) (rest : Text) :
    getNextLine (line ++ 10 :: rest) = some (CString.gStrstrip line, rest) := by
  rw [getNextLine, dropWhile_ne clean, takeWhile_ne clean]

/-- One that does not end is taken if it has a prompt. -/
theorem getNextLine_rest {rest : Text} (clean : 10 ∉ rest) :
    getNextLine rest = if isPrompt rest = true then some (CString.gStrstrip rest, []) else none := by
  have nothing : rest.dropWhile (· ≠ 10) = [] := by
    rw [List.dropWhile_eq_nil_iff]
    exact fun b member => decide_eq_true fun same => clean (same ▸ member)
  rw [getNextLine, nothing]

/-- The lines are processed, without the blanks around them. -/
def turns (lines : List Text) (self : GebrCommSsh) : GebrCommSsh :=
  lines.foldl (fun self line => turn (CString.gStrstrip line) self) self

@[simp] theorem turns_nil (self : GebrCommSsh) : turns [] self = self := rfl

@[simp] theorem turns_cons (line : Text) (lines : List Text) (self : GebrCommSsh) :
    turns (line :: lines) self = turns lines (turn (CString.gStrstrip line) self) := rfl

theorem turns_append (front back : List Text) (self : GebrCommSsh) :
    turns (front ++ back) self = turns back (turns front self) := List.foldl_append

theorem outState_cases (self : GebrCommSsh) :
    self.outState = .init ∨ self.outState = .commandOutput := by
  cases self.outState with
  | init => exact Or.inl rfl
  | commandOutput => exact Or.inr rfl

theorem processSshLine_init {self : GebrCommSsh} (mode : self.outState = .init) (line : Text) :
    processSshLine line self = processInit line self := by
  rw [processSshLine, mode]

theorem processSshLine_output {self : GebrCommSsh} (mode : self.outState = .commandOutput)
    (line : Text) : processSshLine line self =
      if (ascii "debug1: ").isPrefixOf line then
      { self.act (.emit (.stdout self.outBuffer)) with outState := .init } else
      { self with outBuffer := self.outBuffer ++ line ++ [10] } := by
  rw [processSshLine, mode]

/-- What is processed has nothing to do with what is left in the buffer. -/
theorem turn_setBuffer (line buffer : Text) (self : GebrCommSsh) :
    turn line (self.setBuffer buffer) = (turn line self).setBuffer buffer := by
  have fill : ∀ self : GebrCommSsh,
      fillSshOutput line (self.setBuffer buffer) = (fillSshOutput line self).setBuffer buffer := by
    intro self
    unfold fillSshOutput GebrCommSsh.setBuffer
    dsimp only
    split_ifs <;> rfl
  have first : processInit line (self.setBuffer buffer) =
      (processInit line self).setBuffer buffer := by
    unfold processInit
    cases lineKind line <;> rfl
  have process : processSshLine line (self.setBuffer buffer) =
      (processSshLine line self).setBuffer buffer := by
    have other : (self.setBuffer buffer).outState = self.outState := rfl
    rcases outState_cases self with mode | mode
    · rw [processSshLine_init mode, processSshLine_init (other.trans mode), first]
    · rw [processSshLine_output mode, processSshLine_output (other.trans mode)]
      split_ifs <;> rfl
  rw [turn, process, fill, turn]

@[simp] theorem turns_setBuffer (lines : List Text) (buffer : Text) (self : GebrCommSsh) :
    turns lines (self.setBuffer buffer) = (turns lines self).setBuffer buffer := by
  induction lines generalizing self with
  | nil => rfl
  | cons line lines ih => rw [turns_cons, turns_cons, turn_setBuffer, ih]

theorem parseLoop_lines {lines : List Text} (clean : ∀ line ∈ lines, 10 ∉ line) {rest : Text}
    (unfinished : 10 ∉ rest) {self : GebrCommSsh}
    (holds : self.buffer = lines.flatMap (· ++ [10]) ++ rest) : parseLoop self =
      if isPrompt rest = true then (turns (lines ++ [rest]) self).setBuffer []
      else (turns lines self).setBuffer rest := by
  induction lines generalizing self with
  | nil =>
    have rests : self.buffer = rest := holds
    rw [parseLoop, rests]
    split
    · rename_i none_left
      rw [getNextLine_rest unfinished] at none_left
      split_ifs at none_left with prompt
      rw [if_neg prompt, turns_nil, ← rests]
      rfl
    · rename_i line rest' taken
      rw [getNextLine_rest unfinished] at taken
      split_ifs at taken with prompt
      obtain ⟨rfl, rfl⟩ := Prod.mk.inj (Option.some.inj taken)
      rw [if_pos prompt, parseLoop]
      have nothing : getNextLine (turn (CString.gStrstrip rest) (self.setBuffer [])).buffer =
          none := by
        rw [buffer_turn]
        exact getNextLine_rest List.not_mem_nil
      split
      · rw [List.nil_append, turns_cons, turns_nil, turn_setBuffer]
      · rename_i again
        rw [nothing] at again
        cases again
  | cons line lines ih =>
    rw [List.forall_mem_cons] at clean
    have begins : self.buffer = line ++ 10 :: (lines.flatMap (· ++ [10]) ++ rest) := by
      rw [holds, List.flatMap_cons, List.append_assoc, List.append_assoc, List.singleton_append]
    rw [parseLoop]
    split
    · rename_i none_left
      rw [begins, getNextLine_line clean.1] at none_left
      cases none_left
    · rename_i line' rest' taken
      rw [begins, getNextLine_line clean.1] at taken
      obtain ⟨rfl, rfl⟩ := Prod.mk.inj (Option.some.inj taken)
      rw [ih clean.2 (buffer_turn _ _)]
      split_ifs <;> rw [turn_setBuffer, turns_setBuffer, setBuffer_setBuffer] <;> rfl

/-- **What the loop does**: the lines that are complete, and what is behind them, if it is a
prompt. -/
theorem parseLoop_eq (self : GebrCommSsh) :
    parseLoop self =
      if isPrompt (cut 10 self.buffer).2 = true then
        (turns ((cut 10 self.buffer).1 ++ [(cut 10 self.buffer).2]) self).setBuffer []
      else (turns (cut 10 self.buffer).1 self).setBuffer (cut 10 self.buffer).2 :=
  parseLoop_lines (not_mem_line self.buffer) (not_mem_rest self.buffer)
    (flatMap_cut 10 self.buffer).symm

/-- Where no prompt is left, the lines that are complete are all. -/
theorem parseLoop_calm {self : GebrCommSsh} (calm : isPrompt (cut 10 self.buffer).2 = false) :
    parseLoop self = (turns (cut 10 self.buffer).1 self).setBuffer (cut 10 self.buffer).2 := by
  rw [parseLoop_eq, if_neg (by rw [calm]; exact Bool.false_ne_true)]

end Lines

section Pieces

/-- The buffer has neither a line that ends nor a prompt. -/
def Settled (buffer : Text) : Prop := 10 ∉ buffer ∧ isPrompt buffer = false

/-- **Pieces that do not end within a line that has a prompt**, but for the last one, when some text
is left in the buffer. -/
def Calm : Text → List Text → Prop
  | _, [] => True
  | _, [_] => True
  | buffer, piece :: pieces =>
    isPrompt (cut 10 (buffer ++ piece)).2 = false ∧ Calm (cut 10 (buffer ++ piece)).2 pieces

instance decidableCalm : (buffer : Text) → (pieces : List Text) → Decidable (Calm buffer pieces)
  | _, [] => isTrue trivial
  | _, [_] => isTrue trivial
  | buffer, piece :: next :: pieces =>
    have := decidableCalm (cut 10 (buffer ++ piece)).2 (next :: pieces)
    inferInstanceAs (Decidable (_ ∧ _))

variable {self final : GebrCommSsh} {pieces : List Text}

theorem parseLoop_settled (settled : Settled self.buffer) : parseLoop self = self := by
  have whole := cut_clean settled.1
  rw [parseLoop_calm (whole.symm ▸ settled.2), whole]
  rfl

theorem settled_parseLoop (self : GebrCommSsh) : Settled (parseLoop self).buffer := by
  rw [parseLoop_eq]
  split_ifs with prompt
  · exact ⟨List.not_mem_nil, rfl⟩
  · exact ⟨not_mem_rest _, Bool.eq_false_iff.2 prompt⟩

/-- What is read is what the loop takes from the buffer. -/
theorem parseOutput_eq {output : Text} (text : 0 ∉ output) (self : GebrCommSsh) :
    gebrCommSshParseOutput output self = parseLoop (self.setBuffer (self.buffer ++ output)) := by
  have whole : output.takeWhile (· ≠ 0) = output :=
    List.takeWhile_eq_self_iff.2 fun b member => decide_eq_true fun same => text (same ▸ member)
  rw [gebrCommSshParseOutput, whole]

/-- **Two pieces one after another**, where no prompt is cut. -/
theorem parseOutput_append {front back : Text} (text : 0 ∉ front ++ back)
    (calm : isPrompt (cut 10 (self.buffer ++ front)).2 = false) :
    gebrCommSshParseOutput back (gebrCommSshParseOutput front self) =
      gebrCommSshParseOutput (front ++ back) self := by
  have parts := mt List.mem_append.2 text
  rw [not_or] at parts
  rw [parseOutput_eq parts.1, parseLoop_calm calm, parseOutput_eq parts.2, parseOutput_eq text,
    parseLoop_eq, parseLoop_eq]
  simp only [buffer_setBuffer, turns_setBuffer, setBuffer_setBuffer]
  rw [← List.append_assoc, cut_append (self.buffer ++ front) back]
  simp only [turns_append]

/-- **All the pieces are as good as one.** -/
theorem reads_flatten (text : 0 ∉ pieces.flatten) (calm : Calm self.buffer pieces)
    (settled : Settled self.buffer) :
      pieces.foldl (fun self piece => gebrCommSshParseOutput piece self) self =
      gebrCommSshParseOutput pieces.flatten self := by
  induction pieces generalizing self with
  | nil =>
    rw [List.flatten_nil, parseOutput_eq List.not_mem_nil, List.append_nil]
    exact (parseLoop_settled settled).symm
  | cons piece pieces ih =>
    rw [List.foldl_cons, List.flatten_cons]
    rw [List.flatten_cons] at text
    have parts := mt List.mem_append.2 text
    rw [not_or] at parts
    cases pieces with
    | nil => rw [List.foldl_nil, List.flatten_nil, List.append_nil]
    | cons next pieces =>
      have mid : (gebrCommSshParseOutput piece self).buffer = (cut 10 (self.buffer ++ piece)).2 := by
        rw [parseOutput_eq parts.1, parseLoop_calm calm.1]
        rfl
      rw [ih parts.2 (mid ▸ calm.2) (mid ▸ ⟨not_mem_rest _, calm.1⟩), parseOutput_append text calm.1]

/-- A line that is processed does not end the process. -/
theorem process_turn (line : Text) (self : GebrCommSsh) : (turn line self).process = self.process := by
  have fill : ∀ self : GebrCommSsh, (fillSshOutput line self).process = self.process := by
    intro self
    unfold fillSshOutput
    split_ifs <;> rfl
  have first : (processInit line self).process = self.process := by
    unfold processInit
    cases lineKind line <;> rfl
  rw [turn, fill]
  rcases outState_cases self with mode | mode
  · rw [processSshLine_init mode, first]
  · rw [processSshLine_output mode]
    split_ifs <;> rfl

theorem process_turns (lines : List Text) (self : GebrCommSsh) :
    (turns lines self).process = self.process := by
  induction lines generalizing self with
  | nil => rfl
  | cons line lines ih => rw [turns_cons, ih, process_turn]

theorem process_parseLoop (self : GebrCommSsh) : (parseLoop self).process = self.process := by
  rw [parseLoop_eq]
  split_ifs
  · exact process_turns _ self
  · exact process_turns _ self

theorem run_reads (alive : self.process = true) (pieces : List Text) :
    Run.run step self (pieces.map .read) =
      some (pieces.foldl (fun self piece => gebrCommSshParseOutput piece self) self) := by
  induction pieces generalizing self with
  | nil => rfl
  | cons piece pieces ih =>
    have taken : step self (.read piece) = some (gebrCommSshParseOutput piece self) := if_pos alive
    rw [List.map_cons, Run.run_cons, taken, Option.bind_some, List.foldl_cons]
    exact ih ((process_parseLoop _).trans alive)

/-- **Every state has a buffer with nothing to take.** -/
theorem step_settled {event : Event} (settled : Settled self.buffer)
    (taken : step self event = some final) : Settled final.buffer := by
  cases event with
  | read output =>
    obtain ⟨-, same⟩ := Option.ite_none_right_eq_some.1 taken
    obtain rfl := Option.some.inj same
    exact settled_parseLoop _
  | writable =>
    obtain ⟨-, same⟩ := Option.ite_none_right_eq_some.1 taken
    obtain rfl := Option.some.inj same
    unfold sshProcessWrite
    dsimp only
    split_ifs <;> exact settled
  | processFinished =>
    obtain ⟨-, same⟩ := Option.ite_none_right_eq_some.1 taken
    obtain rfl := Option.some.inj same
    exact settled
  | setPassword password =>
    obtain rfl := Option.some.inj taken
    cases password with
    | none => exact settled
    | some password =>
      unfold gebrCommSshSetPassword
      dsimp only
      split_ifs <;> exact settled
  | passwordError wrongPass =>
    obtain rfl := Option.some.inj taken
    exact settled
  | answerQuestion response =>
    obtain rfl := Option.some.inj taken
    unfold gebrCommSshAnswerQuestion
    split_ifs <;> exact settled
  | writeChars data =>
    obtain ⟨-, same⟩ := Option.ite_none_right_eq_some.1 taken
    obtain rfl := Option.some.inj same
    exact settled

theorem stays_settled {events : List Event}
    (reached : Run.run step gebrCommSshRun events = some self) : Settled self.buffer := by
  have keep : ∀ ssh event next, Settled (GebrCommSsh.buffer ssh) → step ssh event = some next →
      Settled next.buffer :=
    fun _ _ _ kept taken => step_settled kept taken
  exact Run.run_invariant keep ⟨List.not_mem_nil, rfl⟩ reached

/-- **Pieces that are calm set off the same, however the text is cut**: in a run that has come so
far, with whatever answers, what is read next leads to one state. -/
theorem read_pieces {events : List Event} (reached : Run.run step gebrCommSshRun events = some self)
    {pieces pieces' : List Text} (same : pieces.flatten = pieces'.flatten) (text : 0 ∉ pieces.flatten)
    (calm : Calm self.buffer pieces) (calm' : Calm self.buffer pieces') (alive : self.process = true) :
    Run.run step self (pieces.map .read) = Run.run step self (pieces'.map .read) := by
  have settled : Settled self.buffer :=
    stays_settled reached
  rw [run_reads alive, run_reads alive, reads_flatten text calm settled,
    reads_flatten (same ▸ text) calm' settled, same]

theorem read_pieces_prompt :
    Run.run step gebrCommSshRun ([ascii "joe's pass", ascii "word:"].map .read) =
      Run.run step gebrCommSshRun ([ascii "joe's password:"].map .read) :=
  read_pieces (show Run.run step gebrCommSshRun [] = some gebrCommSshRun from rfl) rfl (by decide)
    (by decide) trivial rfl

end Pieces

end Gebr.Comm.SshOutput
