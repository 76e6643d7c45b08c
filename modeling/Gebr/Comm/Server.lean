/-
**A connection to a maestro or a daemon.**

`gebr_comm_server_connect` starts a port provider, which launches the program on the other machine
and answers later with a port, with the address of another machine, or with an error. Once there is
a port, the socket connects to it, through the forward that the provider has opened. Each call of
`gebr_comm_server_connect` is one attempt, numbered by its port provider.

* `gebrCommServerChangeState_disconnected`: all that the way to `DISCONNECTED` does.
* `step`: a server as a machine over the calls of its owner, the signals of its port providers and
  those of its socket; `step_portDefined_some` and its siblings say all that a step does.

The X11 forward, the texts of the `INI` message and the callbacks of the owner are left out.
-/

import Gebr.Lib.Run

namespace Gebr.Comm

section Model

inductive GebrCommServerState where
  | disconnected | run | redirect | connect | logged
  deriving DecidableEq, Repr

/-- `enum gebr_comm_server_error`. -/
inductive ServerError where
  | unknown | none | connect | server | ssh | protocolVersion | cookie
  deriving DecidableEq, Repr

inductive GebrCommPortProviderError where
  | unknownType | redirect | ssh | notFound | spawn | sftpNotRequired | port
  deriving DecidableEq, Repr

inductive GebrCommSocketError where
  | none | unknown | connectionRefused | serverTimedOut | lookup
  deriving DecidableEq, Repr

inductive GebrCommPortType where
  | maestro | daemon
  deriving DecidableEq, Repr

/-- The state of a port provider: `init` until it answers. -/
inductive ProviderState where
  | init | portDefined | error
  deriving DecidableEq, Repr

structure GebrCommPortProvider where
  type : GebrCommPortType
  address : String
  forceInit : Bool
  checkHost : Bool
  gebrCookie : Option String
  state : ProviderState
  deriving DecidableEq, Repr

/-- The socket, with the attempt that connected it. Once an attempt has `ended`, the watches of the
channel are still there until the next one: they may report an error or the end again. -/
inductive StreamSocket where
  | closed
  | connecting (attempt : ℕ)
  | connected (attempt : ℕ)
  | ended (attempt : ℕ)
  deriving DecidableEq, Repr

/-- `GebrCommServer`. A forward is named by the attempt that opened it; `opened` and `closed` are
all the connection forwards that the server has taken over, and closed, in order. -/
structure GebrCommServer where
  address : String
  port : ℕ
  password : Option String
  checkHost : Bool
  gebrCookie : Option String
  isMaestro : Bool
  state : GebrCommServerState
  error : ServerError
  lastError : String
  logged : Bool
  socket : StreamSocket
  providers : List GebrCommPortProvider
  connectionForward : Option ℕ
  opened : List ℕ
  closed : List ℕ
  deriving DecidableEq, Repr

/-- `gebr_comm_server_new`. -/
def gebrCommServerNew (address : String) (gebrCookie : Option String) : GebrCommServer :=
  ⟨address, 0, none, true, gebrCookie, false, .disconnected, .none, "", false, .closed, [], none, [],
    []⟩

/-- `gebr_comm_server_set_last_errorv`. -/
def gebrCommServerSetLastError (error : ServerError) (message : String) (server : GebrCommServer) :
    GebrCommServer :=
  if error ≠ .unknown then { server with error := error, lastError := message } else server

/-- `gebr_comm_server_change_state`. -/
def gebrCommServerChangeState (state : GebrCommServerState) (server : GebrCommServer) :
    GebrCommServer :=
  if state = server.state then server
  else if state = .disconnected then
    let closed := server.closed ++ server.connectionForward.toList
    { server with state := state, connectionForward := none, closed := closed }
  else { server with state := state }

/-- `gebr_comm_server_disconnected_state`. -/
def gebrCommServerDisconnectedState (error : ServerError) (message : String)
    (server : GebrCommServer) : GebrCommServer :=
  let server := gebrCommServerSetLastError error message server
  gebrCommServerChangeState .disconnected { server with port := 0, logged := false }

/-- `gebr_comm_server_free_for_reuse`. -/
def gebrCommServerFreeForReuse (server : GebrCommServer) : GebrCommServer :=
  gebrCommServerChangeState .disconnected { server with port := 0, logged := false }

/-- `gebr_comm_server_connect`. -/
def gebrCommServerConnect (maestro forceInit : Bool) (server : GebrCommServer) : GebrCommServer :=
  if server.state ≠ .disconnected ∧ server.state ≠ .redirect then server
  else
    let server := gebrCommServerChangeState .run server
    let portType := if maestro = true then .maestro else .daemon
    let provider : GebrCommPortProvider :=
      ⟨portType, server.address, forceInit, server.checkHost, server.gebrCookie, .init⟩
    { server with isMaestro := maestro, providers := server.providers ++ [provider] }

/-- `gebr_comm_server_disconnect`. The socket is closed before its `disconnected` signal. -/
def gebrCommServerDisconnect (server : GebrCommServer) : GebrCommServer :=
  if server.state = .connect ∨ server.state = .logged then
    gebrCommServerFreeForReuse { server with socket := .closed }
  else gebrCommServerChangeState .disconnected server

/-- `gebr_comm_server_set_logged`. -/
def gebrCommServerSetLogged (server : GebrCommServer) : GebrCommServer :=
  gebrCommServerChangeState .logged { server with logged := true }

/-- `gebr_comm_server_socket_connected`. -/
def gebrCommServerSocketConnected (server : GebrCommServer) : GebrCommServer :=
  gebrCommServerChangeState .connect server

/-- `gebr_comm_server_socket_error`. -/
def gebrCommServerSocketError (error : GebrCommSocketError) (server : GebrCommServer) :
    GebrCommServer :=
  match error with
  | .serverTimedOut => gebrCommServerDisconnectedState .connect "Connection refused" server
  | .lookup => gebrCommServerDisconnectedState .connect "Connection refused" server
  | .connectionRefused => gebrCommServerDisconnectedState .connect "Connection refused" server
  | .unknown => server
  | .none => server

/-- How the system answers `connect`. -/
inductive ConnectResult where
  | inProgress | immediate | refused
  deriving DecidableEq, Repr

/-- `on_comm_port_defined`; `tunnel` is whether the port provider has a forward. -/
def onCommPortDefined (attempt : ℕ) (tunnel : Bool) (result : ConnectResult)
    (server : GebrCommServer) : GebrCommServer :=
  let forward := if tunnel = true then some attempt else none
  let opened := server.opened ++ forward.toList
  let server := { server with connectionForward := forward, opened := opened }
  match result with
  | .inProgress => { server with socket := .connecting attempt }
  | .immediate => gebrCommServerSocketConnected { server with socket := .connected attempt }
  | .refused => { server with socket := .ended attempt }

/-- `g_strstrip`. -/
def gStrstrip (text : String) : String :=
  let blank := fun c : Char => c = ' ' ∨ ('\t' ≤ c ∧ c ≤ '\r')
  String.ofList (((text.toList.dropWhile blank).reverse.dropWhile blank).reverse)

/-- `on_comm_ssh_error`. -/
def onCommSshError (code : GebrCommPortProviderError) (message : String) (server : GebrCommServer) :
    GebrCommServer :=
  match code with
  | .redirect =>
    let server := gebrCommServerChangeState .redirect server
    gebrCommServerConnect true false { server with address := message }
  | .ssh =>
    { gebrCommServerDisconnectedState .ssh (gStrstrip message) server with password := none }
  | .notFound =>
    { gebrCommServerDisconnectedState .ssh (gStrstrip message) server with password := none }
  | .spawn =>
    { gebrCommServerDisconnectedState .ssh (gStrstrip message) server with password := none }
  | .port =>
    { gebrCommServerDisconnectedState .ssh (gStrstrip message) server with password := none }
  | .unknownType => server
  | .sftpNotRequired => server

/-- `emit_signals` of a port provider sets its state first. -/
def GebrCommServer.answered (attempt : ℕ) (state : ProviderState) (server : GebrCommServer) :
    GebrCommServer :=
  { server with providers := server.providers.modify attempt fun p => { p with state := state } }

/-- What happens to a server. -/
inductive Event where
  | connect (maestro forceInit : Bool)
  | disconnect
  | portDefined (attempt : ℕ) (tunnel : Bool) (result : ConnectResult)
  | portError (attempt : ℕ) (code : GebrCommPortProviderError) (message : String)
  | socketConnected
  | socketError (error : GebrCommSocketError)
  | socketDisconnected
  /-- The answer to `INI` arrives, and the owner calls `gebr_comm_server_set_logged`. -/
  | loggedIn
  deriving DecidableEq, Repr

/-- **A server takes one event.** A port provider speaks once it is started, at any time and as
often as it likes; the socket, according to its own state. -/
def step (server : GebrCommServer) : Event → Option GebrCommServer
  | .connect maestro forceInit => some (gebrCommServerConnect maestro forceInit server)
  | .disconnect => some (gebrCommServerDisconnect server)
  | .portDefined attempt tunnel result =>
    if attempt < server.providers.length then
      some (onCommPortDefined attempt tunnel result (server.answered attempt .portDefined))
    else none
  | .portError attempt code message =>
    if attempt < server.providers.length then
      some (onCommSshError code message (server.answered attempt .error))
    else none
  | .socketConnected =>
    match server.socket with
    | .connecting attempt =>
      some (gebrCommServerSocketConnected { server with socket := .connected attempt })
    | _ => none
  | .socketError error =>
    match server.socket with
    | .closed => none
    | .connecting attempt =>
      some (gebrCommServerSocketError error { server with socket := .ended attempt })
    | .connected attempt =>
      some (gebrCommServerSocketError error { server with socket := .ended attempt })
    | .ended _ => some (gebrCommServerSocketError error server)
  | .socketDisconnected =>
    match server.socket with
    | .connected attempt =>
      some (gebrCommServerFreeForReuse { server with socket := .ended attempt })
    | .ended _ => some (gebrCommServerFreeForReuse server)
    | _ => none
  | .loggedIn =>
    match server.socket with
    | .connected _ => some (gebrCommServerSetLogged server)
    | _ => none

end Model

section Property

/-- The port provider of the attempt has not answered yet. -/
def GebrCommServer.Pending (server : GebrCommServer) (attempt : ℕ) : Prop :=
  ∃ provider, server.providers[attempt]? = some provider ∧ provider.state = .init

/-- The attempt may still come to a connection, or is one. -/
def GebrCommServer.InProgress (server : GebrCommServer) (attempt : ℕ) : Prop :=
  server.Pending attempt ∨ server.socket = .connecting attempt ∨ server.socket = .connected attempt

/-- No attempt is in progress. -/
def GebrCommServer.Quiet (server : GebrCommServer) : Prop :=
  ∀ attempt, ¬ server.InProgress attempt

/-- **What a server is to be at any time.** -/
structure Sound (server : GebrCommServer) : Prop where
  logged_iff : server.logged = true ↔ server.state = .logged
  single : ∀ first second, server.InProgress first → server.InProgress second → first = second
  /-- All forwards that were opened are closed once, but for the one that is open. -/
  forwards : server.opened = server.closed ++ server.connectionForward.toList
  distinct : server.opened.Nodup
  released : server.state = .disconnected → server.connectionForward = none

/-- **What a step is to be**: only a new connection leaves `DISCONNECTED`, and a forward is closed
on the transition to it. -/
structure StepSound (server : GebrCommServer) (event : Event) (next : GebrCommServer) : Prop where
  leaves : server.state = .disconnected → next.state ≠ .disconnected →
    ∃ maestro forceInit, event = .connect maestro forceInit
  closes : next.closed = server.closed ∨ server.state ≠ .disconnected ∧
    next.state = .disconnected ∧ next.closed = server.closed ++ server.connectionForward.toList

/-- **The steps that do not cross an attempt.** The owner does not disconnect in the state `RUN`
while an attempt is in progress; a port provider that has answered names no port and no address; and
the late errors of a provider or of the socket come while no attempt is in progress. -/
def Uncrossed (server : GebrCommServer) : Event → Prop
  | .connect _ _ => True
  | .disconnect => server.state = .run → server.Quiet
  | .portDefined attempt _ _ => server.Pending attempt
  | .portError attempt code _ => server.Pending attempt ∨ code ≠ .redirect ∧ server.Quiet
  | .socketConnected => True
  | .socketError _ => ∀ attempt, server.socket = .ended attempt → server.Quiet
  | .socketDisconnected => ∀ attempt, server.socket = .ended attempt → server.Quiet
  | .loggedIn => True

end Property

section Inversion

variable {server next : GebrCommServer}

/-- **The way to `DISCONNECTED`** closes the connection forward. -/
theorem gebrCommServerChangeState_disconnected
    (released : server.state = .disconnected → server.connectionForward = none) :
    gebrCommServerChangeState .disconnected server =
      { server with state := .disconnected, connectionForward := none,
                    closed := server.closed ++ server.connectionForward.toList } := by
  unfold gebrCommServerChangeState
  split
  · rename_i already
    rw [released already.symm, Option.toList_none, List.append_nil, already,
      ← released already.symm]
  · rfl

/-- All that the end of a connection does. -/
theorem gebrCommServerFreeForReuse_eq
    (released : server.state = .disconnected → server.connectionForward = none) :
    gebrCommServerFreeForReuse server =
      { server with port := 0, logged := false, state := .disconnected, connectionForward := none,
                    closed := server.closed ++ server.connectionForward.toList } :=
  gebrCommServerChangeState_disconnected released

/-- A connection that ends with an error leaves the error, too. -/
theorem gebrCommServerDisconnectedState_eq {error : ServerError} (known : error ≠ .unknown)
    (message : String)
    (released : server.state = .disconnected → server.connectionForward = none) :
    gebrCommServerDisconnectedState error message server =
      { server with port := 0, logged := false, state := .disconnected, connectionForward := none,
                    closed := server.closed ++ server.connectionForward.toList,
                    error := error, lastError := message } := by
  have noted : gebrCommServerSetLastError error message server =
      { server with error := error, lastError := message } := if_pos known
  unfold gebrCommServerDisconnectedState
  rw [noted]
  exact gebrCommServerChangeState_disconnected released

theorem gebrCommServerChangeState_other {state : GebrCommServerState}
    (other : state ≠ .disconnected) :
    gebrCommServerChangeState state server = { server with state := state } := by
  unfold gebrCommServerChangeState
  split
  · rename_i already
    rw [already]
  · rfl

theorem step_portDefined_some {attempt : ℕ} {tunnel : Bool} {result : ConnectResult}
    (taken : step server (.portDefined attempt tunnel result) = some next) :
    attempt < server.providers.length ∧
      next = onCommPortDefined attempt tunnel result (server.answered attempt .portDefined) := by
  simp only [step] at taken
  split at taken
  · rename_i started
    exact ⟨started, (Option.some.inj taken).symm⟩
  · cases taken

theorem step_portError_some {attempt : ℕ} {code : GebrCommPortProviderError} {message : String}
    (taken : step server (.portError attempt code message) = some next) :
    attempt < server.providers.length ∧
      next = onCommSshError code message (server.answered attempt .error) := by
  simp only [step] at taken
  split at taken
  · rename_i started
    exact ⟨started, (Option.some.inj taken).symm⟩
  · cases taken

theorem step_socketConnected_some (taken : step server .socketConnected = some next) :
    ∃ attempt, server.socket = .connecting attempt ∧
      next = { server with socket := .connected attempt, state := .connect } := by
  cases socket : server.socket with
  | connecting attempt =>
    simp only [step, socket] at taken
    refine ⟨attempt, rfl, (Option.some.inj taken).symm.trans ?_⟩
    exact gebrCommServerChangeState_other (by decide)
  | closed => simp only [step, socket] at taken; cases taken
  | connected attempt => simp only [step, socket] at taken; cases taken
  | ended attempt => simp only [step, socket] at taken; cases taken

theorem step_socketError_some {error : GebrCommSocketError}
    (taken : step server (.socketError error) = some next) :
    ∃ attempt, (server.socket = .connecting attempt ∨ server.socket = .connected attempt ∨
        server.socket = .ended attempt) ∧
      next = gebrCommServerSocketError error { server with socket := .ended attempt } := by
  cases socket : server.socket with
  | closed => simp only [step, socket] at taken; cases taken
  | connecting attempt =>
    simp only [step, socket] at taken
    exact ⟨attempt, Or.inl rfl, (Option.some.inj taken).symm⟩
  | connected attempt =>
    simp only [step, socket] at taken
    exact ⟨attempt, Or.inr (Or.inl rfl), (Option.some.inj taken).symm⟩
  | ended attempt =>
    simp only [step, socket] at taken
    exact ⟨attempt, Or.inr (Or.inr rfl), (Option.some.inj taken).symm.trans (by rw [← socket])⟩

theorem step_socketDisconnected_some (taken : step server .socketDisconnected = some next) :
    ∃ attempt, (server.socket = .connected attempt ∨ server.socket = .ended attempt) ∧
      next = gebrCommServerFreeForReuse { server with socket := .ended attempt } := by
  cases socket : server.socket with
  | closed => simp only [step, socket] at taken; cases taken
  | connecting attempt => simp only [step, socket] at taken; cases taken
  | connected attempt =>
    simp only [step, socket] at taken
    exact ⟨attempt, Or.inl rfl, (Option.some.inj taken).symm⟩
  | ended attempt =>
    simp only [step, socket] at taken
    exact ⟨attempt, Or.inr rfl, (Option.some.inj taken).symm.trans (by rw [← socket])⟩

theorem step_loggedIn_some (taken : step server .loggedIn = some next) :
    ∃ attempt, server.socket = .connected attempt ∧ next = gebrCommServerSetLogged server := by
  cases socket : server.socket with
  | connected attempt =>
    simp only [step, socket] at taken
    exact ⟨attempt, rfl, (Option.some.inj taken).symm⟩
  | closed => simp only [step, socket] at taken; cases taken
  | connecting attempt => simp only [step, socket] at taken; cases taken
  | ended attempt => simp only [step, socket] at taken; cases taken

end Inversion

end Gebr.Comm
