/-
**What ssh is answered.**

Passwords and answers to questions come from the user, at any time; ssh is to get them only when it
has asked for them. A prompt or a question stands until another one, an error or the end; signals
about keys, output and standard input say nothing about it.

* `askedFor`: what was asked for last, or how it ended.
* `Allowed`, `Answers`: what may be sent when, and that all that was sent was allowed.
* `tells_turn`: a line that is processed emits signals, and the state is that of the last one.
* `step_faithful`: every event keeps the state what the signals say.
* `answers_answer` — **passwords and answers are sent only while they are asked for**, and none to a
  process that has finished.
-/

import Gebr.Comm.SshOutput

namespace Gebr.Comm.SshOutput

open Gebr.Lib Gebr.Lib.CString Gebr.Lib.LineBuffer

section Answers

/-- What a signal makes of what is asked for: a prompt, a question, an error or the end takes the
place of the one before, and the other signals leave it. -/
def stateAfter (state : GebrCommSshState) : Act → GebrCommSshState
  | .emit (.password _) => .password
  | .emit (.question _) => .question
  | .emit (.error _) => .error
  | .emit .finished => .finished
  | _ => state

/-- What was asked for last, or how it ended: the last prompt, question, error or end. -/
def askedFor (acts : List Act) : GebrCommSshState := acts.foldl stateAfter .init

/-- **What may be sent when.** A password answers a prompt for one, an answer answers a question,
and when the process has finished there is neither. -/
def Allowed (before : List Act) : Act → Prop
  | .emit _ => True
  | .password _ => askedFor before = .password ∧ Act.emit .finished ∉ before
  | .answer _ => askedFor before = .question ∧ Act.emit .finished ∉ before
  | .chars _ => True

/-- **All that was done was allowed.** -/
def Answers (acts : List Act) : Prop :=
  ∀ before act after, acts = before ++ act :: after → Allowed before act

variable {self next final : GebrCommSsh} {acts more : List Act}

theorem askedFor_append (acts more : List Act) :
    askedFor (acts ++ more) = more.foldl stateAfter (askedFor acts) :=
  List.foldl_append

theorem Answers.concat (fine : Answers acts) {act : Act} (allowed : Allowed acts act) :
    Answers (acts ++ [act]) := by
  intro before other after parts
  rcases List.eq_nil_or_concat after with rfl | ⟨front, last, rfl⟩
  · obtain ⟨rfl, same⟩ := List.append_inj' parts rfl
    obtain rfl := (List.cons.inj same).1
    exact allowed
  · have shorter : (before ++ other :: front) ++ [last] = acts ++ [act] := by
      rw [List.append_assoc, List.cons_append, ← List.concat_eq_append]
      exact parts.symm
    obtain ⟨same, -⟩ := List.append_inj' shorter rfl
    exact fine before other front same.symm

/-- The signals of a process that goes on. -/
def Signals (more : List Act) : Prop := ∀ act ∈ more, ∃ signal, act = .emit signal ∧ signal ≠ .finished

theorem Answers.signals (fine : Answers acts) (signals : Signals more) : Answers (acts ++ more) := by
  induction more using List.reverseRecOn with
  | nil => exact (List.append_nil acts).symm ▸ fine
  | append_singleton more act ih =>
    obtain ⟨signal, rfl, -⟩ := signals act (List.mem_append_right _ List.mem_cons_self)
    rw [← List.append_assoc]
    exact (ih fun act member => signals act (List.mem_append_left _ member)).concat trivial

/-- What was done, and that the state is that of the signals. -/
structure Tells (ssh next : GebrCommSsh) (more : List Act) : Prop where
  acts : next.acts = ssh.acts ++ more
  state : next.state = more.foldl stateAfter ssh.state
  signals : Signals more

theorem Tells.refl (self : GebrCommSsh) : Tells self self [] where
  acts := (List.append_nil _).symm
  state := rfl
  signals := fun _ member => absurd member List.not_mem_nil

theorem Tells.trans {acts : List Act} (first : Tells self next acts) (second : Tells next final more) :
    Tells self final (acts ++ more) where
  acts := by rw [second.acts, first.acts, List.append_assoc]
  state := by rw [second.state, first.state, List.foldl_append]
  signals := fun act member => (List.mem_append.1 member).elim (first.signals act) (second.signals act)

theorem tells_emit {signal : Signal} (going : signal ≠ .finished)
    (acts : next.acts = self.acts ++ [.emit signal])
    (state : next.state = stateAfter self.state (.emit signal)) : Tells self next [.emit signal] where
  acts := acts
  state := state
  signals := fun _ member => ⟨signal, List.mem_singleton.1 member, going⟩

theorem tells_nothing (acts : next.acts = self.acts) (state : next.state = self.state) :
    Tells self next [] where
  acts := acts.trans (List.append_nil _).symm
  state := state
  signals := fun _ member => absurd member List.not_mem_nil

theorem tells_processInit (line : Text) (self : GebrCommSsh) :
    ∃ more, Tells self (processInit line self) more := by
  unfold processInit
  cases lineKind line with
  | fingerprint _ => exact ⟨_, tells_nothing rfl rfl⟩
  | command => exact ⟨_, tells_nothing rfl rfl⟩
  | other => exact ⟨_, tells_nothing rfl rfl⟩
  | question => exact ⟨_, tells_emit Signal.noConfusion rfl rfl⟩
  | hostVerification => exact ⟨_, tells_emit Signal.noConfusion rfl rfl⟩
  | password => exact ⟨_, tells_emit Signal.noConfusion rfl rfl⟩
  | certificate => exact ⟨_, tells_emit Signal.noConfusion rfl rfl⟩
  | keys => exact ⟨_, tells_emit Signal.noConfusion rfl rfl⟩
  | sshError => exact ⟨_, tells_emit Signal.noConfusion rfl rfl⟩
  | wrongPassword => exact ⟨_, tells_emit Signal.noConfusion rfl rfl⟩
  | localForward => exact ⟨_, tells_emit Signal.noConfusion rfl rfl⟩

/-- **A line that is processed** emits signals, and the state is that of the last one. -/
theorem tells_turn (line : Text) (self : GebrCommSsh) : ∃ more, Tells self (turn line self) more := by
  have fill : ∀ mid more, Tells self mid more → Tells self (fillSshOutput line mid) more := by
    intro mid more told
    unfold fillSshOutput
    split_ifs
    · exact ⟨told.acts, told.state, told.signals⟩
    · exact told
  have process : ∃ more, Tells self (processSshLine line self) more := by
    rcases outState_cases self with mode | mode
    · rw [processSshLine_init mode]
      exact tells_processInit line self
    · rw [processSshLine_output mode]
      split_ifs
      · exact ⟨_, tells_emit Signal.noConfusion rfl rfl⟩
      · exact ⟨_, tells_nothing rfl rfl⟩
  obtain ⟨more, told⟩ := process
  exact ⟨more, fill _ more told⟩

theorem tells_turns (lines : List Text) (self : GebrCommSsh) :
    ∃ more, Tells self (turns lines self) more := by
  induction lines generalizing self with
  | nil => exact ⟨_, Tells.refl self⟩
  | cons line lines ih =>
    obtain ⟨first, told⟩ := tells_turn (CString.gStrstrip line) self
    obtain ⟨second, told'⟩ := ih (turn (CString.gStrstrip line) self)
    exact ⟨_, told.trans told'⟩

theorem tells_parseLoop (self : GebrCommSsh) : ∃ more, Tells self (parseLoop self) more := by
  have buffer : ∀ next buffer more, Tells self next more → Tells self (next.setBuffer buffer) more :=
    fun _ _ _ told => ⟨told.acts, told.state, told.signals⟩
  rw [parseLoop_eq]
  split_ifs
  · obtain ⟨more, told⟩ := tells_turns ((cut 10 self.buffer).1 ++ [(cut 10 self.buffer).2]) self
    exact ⟨more, buffer _ _ _ told⟩
  · obtain ⟨more, told⟩ := tells_turns (cut 10 self.buffer).1 self
    exact ⟨more, buffer _ _ _ told⟩

/-- **The invariant.** -/
structure Faithful (ssh : GebrCommSsh) : Prop where
  state : ssh.state = askedFor ssh.acts
  going : ssh.process = true → Act.emit .finished ∉ ssh.acts
  ended : ssh.process = false → ssh.state ≠ .password ∧ ssh.state ≠ .question
  answers : Answers ssh.acts

theorem Faithful.tells (good : Faithful self) (told : Tells self next more)
    (same : next.process = self.process) (alive : self.process = true) : Faithful next where
  state := by rw [told.state, told.acts, askedFor_append, good.state]
  going := fun _ member => by
    rw [told.acts, List.mem_append] at member
    refine member.elim (good.going alive) fun listed => ?_
    obtain ⟨signal, last, going⟩ := told.signals _ listed
    exact going (Act.emit.inj last).symm
  ended := fun ended => by rw [same, alive] at ended; cases ended
  answers := told.acts ▸ good.answers.signals told.signals

/-- Something that is sent, while the process goes on. -/
theorem Faithful.send (good : Faithful self) {act : Act} (alive : self.process = true)
    (quiet : ∀ signal, act ≠ .emit signal) (allowed : Allowed self.acts act) (attempts : ℕ) :
    Faithful (GebrCommSsh.act { self with attempts } act) where
  state := by
    show self.state = askedFor (self.acts ++ [act])
    rw [askedFor_append, List.foldl_cons, List.foldl_nil, good.state]
    cases act with
    | emit signal => exact absurd rfl (quiet signal)
    | password _ => rfl
    | answer _ => rfl
    | chars _ => rfl
  going := fun _ member => (List.mem_append.1 member).elim (good.going alive) fun last =>
    quiet .finished (List.mem_singleton.1 last).symm
  ended := good.ended
  answers := good.answers.concat allowed

/-- What asks for something is answered while the process goes on. -/
theorem Faithful.alive (good : Faithful self)
    (asks : self.state = .password ∨ self.state = .question) : self.process = true := by
  by_contra ended
  exact asks.elim (good.ended (Bool.eq_false_iff.2 ended)).1 (good.ended (Bool.eq_false_iff.2 ended)).2

theorem Faithful.failed (good : Faithful self) (message : Text) (attempts : ℕ) :
    Faithful (GebrCommSsh.fail message { self with attempts }) where
  state := by
    show GebrCommSshState.error = askedFor (self.acts ++ [.emit (.error message)])
    rw [askedFor_append]
    rfl
  going := fun alive member => (List.mem_append.1 member).elim (good.going alive) fun last =>
    Signal.noConfusion (Act.emit.inj (List.mem_singleton.1 last))
  ended := fun _ => ⟨GebrCommSshState.noConfusion, GebrCommSshState.noConfusion⟩
  answers := good.answers.concat trivial

/-- **Every event keeps the invariant.** -/
theorem step_faithful (good : Faithful self) {event : Event} (taken : step self event = some next) :
    Faithful next := by
  cases event with
  | read output =>
    obtain ⟨alive, same⟩ := Option.ite_none_right_eq_some.1 taken
    obtain rfl := Option.some.inj same
    obtain ⟨more, told⟩ := tells_parseLoop (self.setBuffer (self.buffer ++ output.takeWhile (· ≠ 0)))
    exact good.tells (⟨told.acts, told.state, told.signals⟩ : Tells self _ more)
      (process_parseLoop _) alive
  | writable =>
    obtain ⟨⟨alive, -⟩, same⟩ := Option.ite_none_right_eq_some.1 taken
    obtain rfl := Option.some.inj same
    unfold sshProcessWrite
    dsimp only
    split_ifs
    · exact good.tells (tells_emit Signal.noConfusion rfl rfl) rfl alive
    · exact good.tells (tells_nothing rfl rfl) rfl alive
  | processFinished =>
    obtain ⟨alive, same⟩ := Option.ite_none_right_eq_some.1 taken
    obtain rfl := Option.some.inj same
    refine ⟨?_, fun again => absurd again Bool.false_ne_true, fun _ => ⟨GebrCommSshState.noConfusion,
      GebrCommSshState.noConfusion⟩, good.answers.concat trivial⟩
    show GebrCommSshState.finished = askedFor (self.acts ++ [.emit .finished])
    rw [askedFor_append]
    rfl
  | setPassword password =>
    obtain rfl := Option.some.inj taken
    cases password with
    | none => exact good.failed _ 0
    | some password =>
      unfold gebrCommSshSetPassword
      dsimp only
      split_ifs with asks
      · have alive := good.alive (Or.inl asks)
        have allowed : Allowed self.acts (.password password) :=
          ⟨good.state.symm.trans asks, good.going alive⟩
        exact good.send alive (fun _ => Act.noConfusion) allowed _
      · exact ⟨good.state, good.going, good.ended, good.answers⟩
  | passwordError wrongPass =>
    obtain rfl := Option.some.inj taken
    exact good.failed _ 0
  | answerQuestion response =>
    obtain rfl := Option.some.inj taken
    unfold gebrCommSshAnswerQuestion
    split_ifs with asks
    · have alive := good.alive (Or.inr asks)
      have allowed : Allowed self.acts (.answer response) :=
        ⟨good.state.symm.trans asks, good.going alive⟩
      exact good.send alive (fun _ => Act.noConfusion) allowed self.attempts
    · exact good
  | writeChars data =>
    obtain ⟨alive, same⟩ := Option.ite_none_right_eq_some.1 taken
    obtain rfl := Option.some.inj same
    have allowed : Allowed self.acts (.chars data) := trivial
    exact good.send alive (fun _ => Act.noConfusion) allowed self.attempts

/-- **Passwords and answers are sent only while they are asked for**, in every run, and none when
the process has finished. -/
theorem answers_answer {events : List Event}
    (reaches : Run.run step gebrCommSshRun events = some final) : Answers final.acts := by
  have start : Faithful gebrCommSshRun :=
    ⟨rfl, fun _ => List.not_mem_nil, fun ended => Bool.noConfusion ended, fun before _ _ parts =>
      absurd parts.symm (List.append_ne_nil_of_right_ne_nil before (List.cons_ne_nil _ _))⟩
  exact (Run.run_invariant (fun _ _ _ good taken => step_faithful good taken) start reaches).answers

/-- A prompt, and the password. -/
def answered : GebrCommSsh where
  state := .password
  process := true
  attempts := 1
  buffer := []
  sshOutput := ascii "password:\n"
  outBuffer := []
  outState := .init
  fingerprint := none
  watches := 0
  acts := [.emit (.password false), .password (ascii "secret")]

theorem answers_answer_prompt : Answers answered.acts := by
  have asked : gebrCommSshParseOutput (ascii "password:") gebrCommSshRun =
      { answered with attempts := 0, acts := [.emit (.password false)] } := by
    rw [parseOutput_eq (by decide), parseLoop_eq]
    decide
  have reads : step gebrCommSshRun (.read (ascii "password:")) =
      some { answered with attempts := 0, acts := [.emit (.password false)] } := asked ▸ rfl
  have reaches : Run.run step gebrCommSshRun
      [.read (ascii "password:"), .setPassword (some (ascii "secret"))] = some answered := by
    rw [Run.run_cons, reads]
    rfl
  exact answers_answer reaches

end Answers

end Gebr.Comm.SshOutput
