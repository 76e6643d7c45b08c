/-
**One attempt at a time, over whole runs of a server.**

* `OneAttempt`: the invariant. An attempt waits for its port only in the state `RUN`, and only the
  last one; its socket is connecting in `RUN`, and connected in `CONNECT` and `LOGGED`.
* `OneAttempt.shut`, `OneAttempt.launch`: the two transitions that end and start an attempt.
* `step_oneAttempt`: an uncrossed step keeps the invariant and is sound.
* `run_cancelled`: every state and every step of an uncrossed run is sound.
* `cancelled_attempt_connects`: an attempt that is cancelled in `RUN` still connects.
-/

import Gebr.Comm.Server

namespace Gebr.Comm

open Gebr.Lib

section Attempts

variable {server next : GebrCommServer} {attempt : ℕ}

/-- The socket is neither connecting nor connected. -/
def StreamSocket.Still (socket : StreamSocket) : Prop :=
  ∀ attempt, socket ≠ .connecting attempt ∧ socket ≠ .connected attempt

theorem StreamSocket.still_ended (attempt : ℕ) : (StreamSocket.ended attempt).Still :=
  fun _ => ⟨StreamSocket.noConfusion, StreamSocket.noConfusion⟩

theorem StreamSocket.still_closed : StreamSocket.closed.Still :=
  fun _ => ⟨StreamSocket.noConfusion, StreamSocket.noConfusion⟩

/-- Nothing is in progress when no provider is asked and the socket is still. -/
theorem quiet_iff : server.Quiet ↔ (∀ attempt, ¬ server.Pending attempt) ∧ server.socket.Still := by
  constructor
  · intro quiet
    exact ⟨fun attempt pending => quiet attempt (Or.inl pending), fun attempt =>
      ⟨fun live => quiet attempt (Or.inr (Or.inl live)),
        fun live => quiet attempt (Or.inr (Or.inr live))⟩⟩
  · rintro ⟨idle, still⟩ attempt progress
    rcases progress with pending | live | live
    · exact idle attempt pending
    · exact (still attempt).1 live
    · exact (still attempt).2 live

/-- A provider that answers is no longer asked; the others are as they were. -/
theorem pending_answered {state : ProviderState} (answer : state ≠ .init) (other : ℕ) :
    (server.answered attempt state).Pending other ↔ server.Pending other ∧ other ≠ attempt := by
  unfold GebrCommServer.Pending GebrCommServer.answered
  simp only [List.getElem?_modify]
  cases server.providers[other]? with
  | none => simp
  | some provider =>
    by_cases same : attempt = other
    · simp [same, answer]
    · simp [same, Ne.symm same]

theorem pending_append {provider : GebrCommPortProvider} (asked : provider.state = .init)
    (providers : next.providers = server.providers ++ [provider]) (other : ℕ) :
    next.Pending other ↔ server.Pending other ∨ other = server.providers.length := by
  unfold GebrCommServer.Pending
  rw [providers]
  by_cases earlier : other < server.providers.length
  · rw [List.getElem?_append_left earlier]
    exact ⟨Or.inl, fun pending => pending.resolve_right (Nat.ne_of_lt earlier)⟩
  · rw [List.getElem?_append_right (Nat.le_of_not_lt earlier),
      List.getElem?_eq_none (Nat.le_of_not_lt earlier), List.getElem?_singleton]
    by_cases last : other = server.providers.length
    · simp [last, asked]
    · have beyond : other - server.providers.length ≠ 0 := by omega
      simp [last, beyond]

end Attempts

section Invariant

/-- **The invariant.** -/
structure OneAttempt (server : GebrCommServer) : Prop where
  logged_iff : server.logged = true ↔ server.state = .logged
  steady : server.state ≠ .redirect
  idle : server.state = .disconnected → server.Quiet ∧ server.connectionForward = none
  pending : ∀ attempt, server.Pending attempt → server.state = .run ∧
    server.connectionForward = none ∧ server.socket.Still ∧ attempt + 1 = server.providers.length
  connecting : ∀ attempt, server.socket = .connecting attempt → server.state = .run
  connected : ∀ attempt, server.socket = .connected attempt →
    server.state = .connect ∨ server.state = .logged
  forwards : server.opened = server.closed ++ server.connectionForward.toList
  distinct : server.opened.Nodup
  bounded : ∀ attempt ∈ server.opened,
    attempt < server.providers.length ∧ ¬ server.Pending attempt

variable {server next : GebrCommServer} {attempt : ℕ}

theorem oneAttempt_new (address : String) (gebrCookie : Option String) :
    OneAttempt (gebrCommServerNew address gebrCookie) where
  logged_iff := iff_of_false Bool.false_ne_true GebrCommServerState.noConfusion
  steady := GebrCommServerState.noConfusion
  idle := by
    intro _
    refine ⟨quiet_iff.2 ⟨fun attempt pending => ?_, StreamSocket.still_closed⟩, rfl⟩
    obtain ⟨provider, asked, -⟩ := pending
    cases asked
  pending := by
    rintro attempt ⟨provider, asked, -⟩
    cases asked
  connecting := fun _ live => nomatch live
  connected := fun _ live => nomatch live
  forwards := rfl
  distinct := List.nodup_nil
  bounded := fun _ member => absurd member List.not_mem_nil

theorem OneAttempt.sound (good : OneAttempt server) : Sound server where
  logged_iff := good.logged_iff
  single := by
    intro first second one two
    have apart : ∀ early late, server.Pending early → ¬ (server.socket = .connecting late ∨
        server.socket = .connected late) := fun early late asked live =>
      live.elim ((good.pending early asked).2.2.1 late).1 ((good.pending early asked).2.2.1 late).2
    rcases one with asked | live
    · rcases two with asked' | live'
      · have last := (good.pending first asked).2.2.2
        have last' := (good.pending second asked').2.2.2
        omega
      · exact absurd live' (apart first second asked)
    · rcases two with asked' | live'
      · exact absurd live (apart second first asked')
      · rcases live with live | live <;> rcases live' with live' | live' <;>
          rw [live] at live' <;> cases live'
        · rfl
        · rfl
  forwards := good.forwards
  distinct := good.distinct
  released := fun disconnected => (good.idle disconnected).2

theorem OneAttempt.unlogged (good : OneAttempt server) (state : server.state ≠ .logged) :
    server.logged = false :=
  Bool.eq_false_iff.2 fun logged => state (good.logged_iff.1 logged)

/-- A provider that has been asked, and the socket, are not at work together. -/
theorem OneAttempt.idle_of_live (good : OneAttempt server)
    (live : server.socket = .connecting attempt ∨ server.socket = .connected attempt) (other : ℕ) :
    ¬ server.Pending other := fun asked =>
  live.elim ((good.pending other asked).2.2.1 attempt).1
    ((good.pending other asked).2.2.1 attempt).2

theorem OneAttempt.answered (good : OneAttempt server) {state : ProviderState}
    (answer : state ≠ .init) : OneAttempt (server.answered attempt state) := by
  have fewer : ∀ other, (server.answered attempt state).Pending other → server.Pending other :=
    fun other asked => ((pending_answered answer other).1 asked).1
  have length : (server.answered attempt state).providers.length = server.providers.length :=
    List.length_modify _ _ _
  refine ⟨good.logged_iff, good.steady, fun disconnected => ?_, fun other asked => ?_,
    good.connecting, good.connected, good.forwards, good.distinct, fun other member => ?_⟩
  · obtain ⟨quiet, released⟩ := good.idle disconnected
    obtain ⟨idle, still⟩ := quiet_iff.1 quiet
    exact ⟨quiet_iff.2 ⟨fun other asked => idle other (fewer other asked), still⟩, released⟩
  · rw [length]
    exact good.pending other (fewer other asked)
  · rw [length]
    exact ⟨(good.bounded other member).1, fun asked =>
      (good.bounded other member).2 (fewer other asked)⟩

theorem OneAttempt.ended (good : OneAttempt server) :
    OneAttempt { server with socket := .ended attempt } where
  logged_iff := good.logged_iff
  steady := good.steady
  idle := by
    intro disconnected
    obtain ⟨quiet, released⟩ := good.idle disconnected
    exact ⟨quiet_iff.2 ⟨(quiet_iff.1 quiet).1, StreamSocket.still_ended attempt⟩, released⟩
  pending := by
    intro other asked
    obtain ⟨state, released, -, last⟩ := good.pending other asked
    exact ⟨state, released, StreamSocket.still_ended attempt, last⟩
  connecting := fun _ live => nomatch live
  connected := fun _ live => nomatch live
  forwards := good.forwards
  distinct := good.distinct
  bounded := good.bounded

/-- **The end of an attempt**: nothing is in progress, and the server is disconnected. -/
theorem OneAttempt.shut (good : OneAttempt server) {event : Event} (quiet : next.Quiet)
    (state : next.state = .disconnected) (logged : next.logged = false)
    (providers : next.providers.length = server.providers.length)
    (forward : next.connectionForward = none) (opened : next.opened = server.opened)
    (closed : next.closed = server.closed ++ server.connectionForward.toList) :
    OneAttempt next ∧ StepSound server event next := by
  obtain ⟨idle, still⟩ := quiet_iff.1 quiet
  refine ⟨⟨?_, ?_, fun _ => ⟨quiet, forward⟩, fun other asked => absurd asked (idle other),
    fun other live => absurd live (still other).1, fun other live => absurd live (still other).2,
    ?_, ?_, fun other member => ⟨?_, idle other⟩⟩, fun _ left => absurd state left, ?_⟩
  · rw [logged, state]
    exact iff_of_false Bool.false_ne_true GebrCommServerState.noConfusion
  · rw [state]
    exact GebrCommServerState.noConfusion
  · rw [opened, closed, forward, good.forwards, Option.toList_none, List.append_nil]
  · exact opened ▸ good.distinct
  · rw [opened] at member
    exact providers ▸ (good.bounded other member).1
  · by_cases already : server.state = .disconnected
    · rw [closed, (good.idle already).2]
      exact Or.inl (List.append_nil _)
    · exact Or.inr ⟨already, state, closed⟩

/-- **The start of an attempt**, when nothing is in progress and no forward is open. -/
theorem OneAttempt.launch (good : OneAttempt server) (quiet : server.Quiet)
    (released : server.connectionForward = none) {provider : GebrCommPortProvider}
    (asked : provider.state = .init)
    (providers : next.providers = server.providers ++ [provider])
    (state : next.state = .run) (logged : next.logged = false)
    (socket : next.socket = server.socket) (forward : next.connectionForward = none)
    (opened : next.opened = server.opened) (closed : next.closed = server.closed) :
    OneAttempt next := by
  obtain ⟨idle, still⟩ := quiet_iff.1 quiet
  have pending := pending_append asked providers
  have length : next.providers.length = server.providers.length + 1 := by
    rw [providers, List.length_append, List.length_singleton]
  refine ⟨?_, ?_, fun disconnected => ?_, fun other new => ⟨state, forward, socket ▸ still, ?_⟩,
    fun other live => absurd (socket ▸ live) (still other).1,
    fun other live => absurd (socket ▸ live) (still other).2, ?_, opened ▸ good.distinct,
    fun other member => ?_⟩
  · rw [logged, state]
    exact iff_of_false Bool.false_ne_true GebrCommServerState.noConfusion
  · rw [state]
    exact GebrCommServerState.noConfusion
  · rw [state] at disconnected
    cases disconnected
  · rw [length, ((pending other).1 new).resolve_left (idle other)]
  · rw [opened, closed, forward, good.forwards, released]
  · obtain ⟨below, -⟩ := good.bounded other (opened ▸ member)
    refine ⟨by omega, fun new => ?_⟩
    exact absurd (((pending other).1 new).resolve_left (idle other)) (Nat.ne_of_lt below)

end Invariant

section Step

variable {server next : GebrCommServer} {event : Event}

theorem stepSound_same (state : next.state = server.state) (closed : next.closed = server.closed) :
    StepSound server event next where
  leaves := fun disconnected left => absurd (state.trans disconnected) left
  closes := Or.inl closed

theorem stepSound_live (state : server.state ≠ .disconnected)
    (closed : next.closed = server.closed) : StepSound server event next where
  leaves := fun disconnected => absurd disconnected state
  closes := Or.inl closed

/-- `gebr_comm_server_connect` does something in two states only. -/
theorem gebrCommServerConnect_eq {maestro forceInit : Bool}
    (state : server.state = .disconnected ∨ server.state = .redirect) :
    gebrCommServerConnect maestro forceInit server =
      { server with
        state := .run, isMaestro := maestro,
        providers := server.providers ++ [⟨if maestro = true then .maestro else .daemon,
          server.address, forceInit, server.checkHost, server.gebrCookie, .init⟩] } := by
  have free : ¬ (server.state ≠ .disconnected ∧ server.state ≠ .redirect) := by tauto
  unfold gebrCommServerConnect
  rw [if_neg free, gebrCommServerChangeState_other (by decide)]

theorem connect_oneAttempt (good : OneAttempt server) (maestro forceInit : Bool) :
    OneAttempt (gebrCommServerConnect maestro forceInit server) ∧
      StepSound server (.connect maestro forceInit)
        (gebrCommServerConnect maestro forceInit server) := by
  by_cases state : server.state = .disconnected
  · obtain ⟨quiet, released⟩ := good.idle state
    have unlogged : server.logged = false := good.unlogged (by rw [state]; decide)
    rw [gebrCommServerConnect_eq (Or.inl state)]
    refine ⟨good.launch quiet released rfl rfl rfl unlogged rfl released rfl rfl, ?_, Or.inl rfl⟩
    exact fun _ _ => ⟨maestro, forceInit, rfl⟩
  · have same : gebrCommServerConnect maestro forceInit server = server :=
      if_pos ⟨state, good.steady⟩
    rw [same]
    exact ⟨good, stepSound_same rfl rfl⟩

/-- Freeing the server for reuse, when nothing is in progress. -/
theorem freeForReuse_oneAttempt (good : OneAttempt server) {socket : StreamSocket}
    (idle : ∀ attempt, ¬ server.Pending attempt) (still : socket.Still) :
    OneAttempt (gebrCommServerFreeForReuse { server with socket := socket }) ∧
      StepSound server event (gebrCommServerFreeForReuse { server with socket := socket }) := by
  have freed : gebrCommServerFreeForReuse { server with socket := socket } = _ :=
    gebrCommServerFreeForReuse_eq fun state => (good.idle state).2
  rw [freed]
  exact good.shut (quiet_iff.2 ⟨idle, still⟩) rfl rfl rfl rfl rfl rfl

/-- **The owner disconnects.** -/
theorem disconnect_oneAttempt (good : OneAttempt server)
    (uncrossed : server.state = .run → server.Quiet) :
    OneAttempt (gebrCommServerDisconnect server) ∧
      StepSound server .disconnect (gebrCommServerDisconnect server) := by
  unfold gebrCommServerDisconnect
  by_cases live : server.state = .connect ∨ server.state = .logged
  · rw [if_pos live]
    refine freeForReuse_oneAttempt good (fun attempt asked => ?_) StreamSocket.still_closed
    have run := (good.pending attempt asked).1
    rw [run] at live
    exact live.elim GebrCommServerState.noConfusion GebrCommServerState.noConfusion
  · have quiet : server.Quiet := by
      cases state : server.state with
      | disconnected => exact (good.idle state).1
      | run => exact uncrossed state
      | redirect => exact absurd state good.steady
      | connect => exact absurd (Or.inl state) live
      | logged => exact absurd (Or.inr state) live
    rw [if_neg live, gebrCommServerChangeState_disconnected fun state => (good.idle state).2]
    refine good.shut quiet rfl ?_ rfl rfl rfl rfl
    exact good.unlogged fun logged => live (Or.inr logged)

/-- **The port provider has a port**, and its socket is connected to it. -/
theorem portDefined_oneAttempt (good : OneAttempt server) {attempt : ℕ} (tunnel : Bool)
    (result : ConnectResult) (asked : server.Pending attempt) :
    let next := onCommPortDefined attempt tunnel result (server.answered attempt .portDefined)
    OneAttempt next ∧ StepSound server (.portDefined attempt tunnel result) next := by
  obtain ⟨run, released, still, last⟩ := good.pending attempt asked
  have answer : ProviderState.portDefined ≠ .init := by decide
  have idle : ∀ other, ¬ (server.answered attempt .portDefined).Pending other := by
    intro other asked'
    obtain ⟨again, apart⟩ := (pending_answered answer other).1 asked'
    have last' := (good.pending other again).2.2.2
    omega
  have length : (server.answered attempt .portDefined).providers.length =
      server.providers.length := List.length_modify _ _ _
  have unlogged : server.logged = false := good.unlogged (by rw [run]; decide)
  have fresh : attempt ∉ server.opened := fun member => (good.bounded attempt member).2 asked
  let forward := if tunnel = true then some attempt else none
  have own : ∀ other ∈ forward.toList, other = attempt := by
    intro other member
    cases tunnel with
    | false => cases member
    | true => exact List.mem_singleton.1 member
  -- The new state and the new socket agree, whatever the system answers.
  have build : ∀ state socket, socket = .connecting attempt ∧ state = .run ∨
      socket = .connected attempt ∧ state = .connect ∨ socket = .ended attempt ∧ state = .run →
      OneAttempt
        { server.answered attempt .portDefined with
          state := state, socket := socket, connectionForward := forward,
          opened := server.opened ++ forward.toList } := by
    intro state socket agree
    have begun : state = .run ∨ state = .connect := by tauto
    refine ⟨?_, ?_, fun state => ?_, fun other asked' => absurd asked' (idle other),
      fun other live => ?_, fun other live => ?_, ?_, ?_, fun other member => ?_⟩
    · show server.logged = true ↔ state = .logged
      rw [unlogged]
      refine iff_of_false Bool.false_ne_true ?_
      rcases begun with same | same <;> rw [same] <;> decide
    · show state ≠ .redirect
      rcases begun with same | same <;> rw [same] <;> decide
    · rcases begun with same | same <;> subst same <;> cases state
    · show state = .run
      rcases agree with ⟨-, same⟩ | ⟨same, -⟩ | ⟨same, -⟩
      · exact same
      · subst same
        cases live
      · subst same
        cases live
    · show state = .connect ∨ state = .logged
      rcases agree with ⟨same, -⟩ | ⟨-, same⟩ | ⟨same, -⟩
      · subst same
        cases live
      · exact Or.inl same
      · subst same
        cases live
    · show server.opened ++ forward.toList = server.closed ++ forward.toList
      rw [good.forwards, released, Option.toList_none, List.append_nil]
    · refine List.nodup_append.2 ⟨good.distinct, ?_, fun early one late two same => ?_⟩
      · cases forward with
        | none => exact List.nodup_nil
        | some _ => exact List.pairwise_singleton _ _
      · rw [same, own late two] at one
        exact fresh one
    · refine ⟨?_, idle other⟩
      show other < (server.answered attempt .portDefined).providers.length
      rw [length]
      rcases List.mem_append.1 member with early | new
      · exact (good.bounded other early).1
      · rw [own other new]
        omega
  have begun : server.state ≠ .disconnected := by rw [run]; decide
  dsimp only [onCommPortDefined]
  cases result with
  | inProgress =>
    have built := build server.state (.connecting attempt) (Or.inl ⟨rfl, run⟩)
    exact ⟨built, stepSound_live begun rfl⟩
  | immediate =>
    have built := build .connect (.connected attempt) (Or.inr (Or.inl ⟨rfl, rfl⟩))
    unfold gebrCommServerSocketConnected
    dsimp only
    rw [gebrCommServerChangeState_other (by decide)]
    exact ⟨built, stepSound_live begun rfl⟩
  | refused =>
    have built := build server.state (.ended attempt) (Or.inr (Or.inr ⟨rfl, run⟩))
    exact ⟨built, stepSound_live begun rfl⟩

/-- An error that ends the connection, when nothing is in progress. -/
theorem disconnectedState_oneAttempt (good : OneAttempt server) (quiet : server.Quiet)
    {error : ServerError} (known : error ≠ .unknown) (message : String) :
    OneAttempt (gebrCommServerDisconnectedState error message server) ∧
      StepSound server event (gebrCommServerDisconnectedState error message server) := by
  rw [gebrCommServerDisconnectedState_eq known message fun state => (good.idle state).2]
  exact good.shut quiet rfl rfl rfl rfl rfl rfl

/-- What a step is to be depends on three fields of the state before it. -/
theorem StepSound.of_same {other : GebrCommServer} (sound : StepSound other event next)
    (state : other.state = server.state) (closed : other.closed = server.closed)
    (forward : other.connectionForward = server.connectionForward) :
    StepSound server event next where
  leaves := state ▸ sound.leaves
  closes := closed ▸ forward ▸ state ▸ sound.closes

/-- **The port provider reports an error**, or the address of another machine. -/
theorem portError_oneAttempt (good : OneAttempt server) {attempt : ℕ}
    (code : GebrCommPortProviderError) (message : String)
    (uncrossed : server.Pending attempt ∨ code ≠ .redirect ∧ server.Quiet) :
    let next := onCommSshError code message (server.answered attempt .error)
    OneAttempt next ∧ StepSound server (.portError attempt code message) next := by
  have answer : ProviderState.error ≠ .init := by decide
  have good' : OneAttempt (server.answered attempt .error) := good.answered answer
  have quiet : (server.answered attempt .error).Quiet := by
    rcases uncrossed with asked | ⟨-, quiet⟩
    · obtain ⟨-, -, still, last⟩ := good.pending attempt asked
      refine quiet_iff.2 ⟨fun other asked' => ?_, still⟩
      obtain ⟨again, apart⟩ := (pending_answered answer other).1 asked'
      have last' := (good.pending other again).2.2.2
      omega
    · obtain ⟨idle, still⟩ := quiet_iff.1 quiet
      exact quiet_iff.2 ⟨fun other asked' => idle other ((pending_answered answer other).1 asked').1,
        still⟩
  have failed : ∀ text, OneAttempt
      { gebrCommServerDisconnectedState .ssh text (server.answered attempt .error) with
        password := none } ∧
      StepSound server (.portError attempt code message)
        { gebrCommServerDisconnectedState .ssh text (server.answered attempt .error) with
          password := none } := by
    intro text
    rw [gebrCommServerDisconnectedState_eq (by decide) text fun state => (good'.idle state).2]
    exact And.imp_right
      (fun sound : StepSound (server.answered attempt .error) _ _ => sound.of_same rfl rfl rfl)
      (good'.shut quiet rfl rfl rfl rfl rfl rfl)
  dsimp only
  cases code with
  | unknownType => exact ⟨good', stepSound_same rfl rfl⟩
  | sftpNotRequired => exact ⟨good', stepSound_same rfl rfl⟩
  | ssh => exact failed _
  | notFound => exact failed _
  | spawn => exact failed _
  | port => exact failed _
  | redirect =>
    -- A redirection starts the next attempt at once.
    have asked : server.Pending attempt := uncrossed.resolve_right fun late => late.1 rfl
    obtain ⟨run, released, -, -⟩ := good.pending attempt asked
    have unlogged : server.logged = false := good.unlogged (by rw [run]; decide)
    unfold onCommSshError
    dsimp only
    rw [gebrCommServerChangeState_other (by decide), gebrCommServerConnect_eq (Or.inr rfl)]
    refine ⟨good'.launch quiet released rfl rfl rfl unlogged rfl released rfl rfl, ?_⟩
    exact stepSound_live (by rw [run]; decide) rfl

/-- **The socket reports an error.** -/
theorem socketError_oneAttempt (good : OneAttempt server) {attempt : ℕ}
    (error : GebrCommSocketError) (idle : ∀ attempt, ¬ server.Pending attempt) :
    let next := gebrCommServerSocketError error { server with socket := .ended attempt }
    OneAttempt next ∧ StepSound server (.socketError error) next := by
  let last : GebrCommServer := { server with socket := .ended attempt }
  have good' : OneAttempt last := good.ended
  have quiet : last.Quiet := quiet_iff.2 ⟨idle, StreamSocket.still_ended attempt⟩
  have failed : OneAttempt (gebrCommServerDisconnectedState .connect "Connection refused" last) ∧
      StepSound last (.socketError error)
        (gebrCommServerDisconnectedState .connect "Connection refused" last) :=
    disconnectedState_oneAttempt good' quiet (by decide) "Connection refused"
  cases error with
  | none => exact ⟨good', stepSound_same rfl rfl⟩
  | unknown => exact ⟨good', stepSound_same rfl rfl⟩
  | connectionRefused => exact ⟨failed.1, failed.2.of_same rfl rfl rfl⟩
  | serverTimedOut => exact ⟨failed.1, failed.2.of_same rfl rfl rfl⟩
  | lookup => exact ⟨failed.1, failed.2.of_same rfl rfl rfl⟩

/-- **An uncrossed step keeps the invariant, and is sound.** -/
theorem step_oneAttempt (good : OneAttempt server) (uncrossed : Uncrossed server event)
    (taken : step server event = some next) : OneAttempt next ∧ StepSound server event next := by
  cases event with
  | connect maestro forceInit =>
    obtain rfl := Option.some.inj taken
    exact connect_oneAttempt good maestro forceInit
  | disconnect =>
    obtain rfl := Option.some.inj taken
    exact disconnect_oneAttempt good uncrossed
  | portDefined attempt tunnel result =>
    obtain ⟨-, rfl⟩ := step_portDefined_some taken
    exact portDefined_oneAttempt good tunnel result uncrossed
  | portError attempt code message =>
    obtain ⟨-, rfl⟩ := step_portError_some taken
    exact portError_oneAttempt good code message uncrossed
  | socketConnected =>
    obtain ⟨attempt, live, rfl⟩ := step_socketConnected_some taken
    have run := good.connecting attempt live
    have idle := good.idle_of_live (Or.inl live)
    have unlogged : server.logged = false := good.unlogged (by rw [run]; decide)
    refine ⟨⟨?_, GebrCommServerState.noConfusion, fun state => GebrCommServerState.noConfusion state,
      fun other asked => absurd asked (idle other), fun _ live => StreamSocket.noConfusion live,
      fun _ _ => Or.inl rfl, good.forwards, good.distinct, good.bounded⟩, stepSound_live ?_ rfl⟩
    · exact iff_of_false (by rw [unlogged]; decide) GebrCommServerState.noConfusion
    · rw [run]
      exact GebrCommServerState.noConfusion
  | socketError error =>
    obtain ⟨attempt, used, rfl⟩ := step_socketError_some taken
    refine socketError_oneAttempt good error fun other asked => ?_
    rcases used with live | live | shut
    · exact good.idle_of_live (Or.inl live) other asked
    · exact good.idle_of_live (Or.inr live) other asked
    · exact uncrossed attempt shut other (Or.inl asked)
  | socketDisconnected =>
    obtain ⟨attempt, live, rfl⟩ := step_socketDisconnected_some taken
    refine freeForReuse_oneAttempt good (fun other asked => ?_) (StreamSocket.still_ended attempt)
    rcases live with live | shut
    · exact good.idle_of_live (Or.inr live) other asked
    · exact uncrossed attempt shut other (Or.inl asked)
  | loggedIn =>
    obtain ⟨attempt, live, rfl⟩ := step_loggedIn_some taken
    have idle := good.idle_of_live (Or.inr live)
    have begun : server.state ≠ .disconnected := by
      rcases good.connected attempt live with state | state <;> rw [state] <;> decide
    unfold gebrCommServerSetLogged
    rw [gebrCommServerChangeState_other (by decide)]
    refine ⟨⟨iff_of_true rfl rfl, GebrCommServerState.noConfusion,
      fun state => GebrCommServerState.noConfusion state,
      fun other asked => absurd asked (idle other), fun other connecting => ?_,
      fun _ _ => Or.inr rfl, good.forwards, good.distinct, good.bounded⟩,
      stepSound_live begun rfl⟩
    exact nomatch live.symm.trans connecting

end Step

section Runs

/-- **A cancelled connection stays cancelled.** In a run whose steps do not cross an attempt, every
state is sound, and so is every step. -/
theorem run_cancelled {address : String} {gebrCookie : Option String} {events : List Event}
    {final : GebrCommServer}
    (uncrossed : Run.Guarded step Uncrossed (gebrCommServerNew address gebrCookie) events)
    (reaches : Run.run step (gebrCommServerNew address gebrCookie) events = some final) :
    Sound final ∧ ∀ server event next,
      (server, event, next) ∈ Run.trace step (gebrCommServerNew address gebrCookie) events →
        StepSound server event next := by
  have start := oneAttempt_new address gebrCookie
  have keep : ∀ server event next, OneAttempt server → Uncrossed server event →
      step server event = some next → OneAttempt next ∧ StepSound server event next :=
    fun _ _ _ => step_oneAttempt
  refine ⟨OneAttempt.sound ?_, Run.trace_forall keep start uncrossed⟩
  exact Run.guarded_invariant (fun server event next good uncrossed taken =>
    (keep server event next good uncrossed taken).1) start uncrossed reaches

/-- A connection through a tunnel, its end, and a second one that the owner gives up once the first
answer is an error. -/
def patientRun : List Event :=
  [.connect true false, .portDefined 0 true .inProgress, .socketConnected, .loggedIn, .disconnect,
    .connect true false, .portError 1 .ssh "no route", .disconnect]

theorem patientRun_uncrossed :
    Run.Guarded step Uncrossed (gebrCommServerNew "node" none) patientRun := by
  refine ⟨trivial, ?_⟩
  rintro _ ⟨⟩
  refine ⟨⟨_, rfl, rfl⟩, ?_⟩
  rintro _ ⟨⟩
  refine ⟨trivial, ?_⟩
  rintro _ ⟨⟩
  refine ⟨trivial, ?_⟩
  rintro _ ⟨⟩
  refine ⟨(fun run => nomatch run), ?_⟩
  rintro _ ⟨⟩
  refine ⟨trivial, ?_⟩
  rintro _ ⟨⟩
  refine ⟨Or.inl ⟨_, rfl, rfl⟩, ?_⟩
  rintro _ ⟨⟩
  exact ⟨(fun run => nomatch run), fun _ _ => trivial⟩

theorem run_cancelled_patient :
    ∃ final, Run.run step (gebrCommServerNew "node" none) patientRun = some final ∧ Sound final ∧
      ∀ server event next,
        (server, event, next) ∈ Run.trace step (gebrCommServerNew "node" none) patientRun →
          StepSound server event next :=
  ⟨_, rfl, run_cancelled patientRun_uncrossed rfl⟩

/-- The owner cancels the attempt before its port provider answers. -/
def hastyRun : List Event :=
  [.connect true false, .disconnect, .portDefined 0 true .inProgress]

/-- **An attempt that is cancelled in `RUN` connects all the same.** -/
theorem cancelled_attempt_connects :
    ∃ cancelled next,
      Run.run step (gebrCommServerNew "node" none) hastyRun = some cancelled ∧
      step cancelled .socketConnected = some next ∧
      cancelled.state = .disconnected ∧ next.state = .connect ∧
      ¬ StepSound cancelled .socketConnected next := by
  refine ⟨_, _, rfl, rfl, rfl, rfl, fun sound => ?_⟩
  obtain ⟨_, _, new⟩ := sound.leaves rfl (by decide)
  cases new

end Runs

end Gebr.Comm
