/-
**The daemons as the clients show them.**

The maestro tells its clients the state of each daemon: all of them to a client that says hello, and
every change to all clients. A client that asks to stop a daemon is told at once that it is
disconnected.

* `gebrCommServerChangeState`, `step`: the maestro, its clients, and the states of its daemons.
* `parseMessage`, `readAll`: what a client makes of what it is told; `shown`: the state that it
  shows.
* `Formed`: a daemon is listed once, and a client is numbered once.
* `Mirrors`, `MirrorsBut.settle`: the daemons that are shown as logged; the last thing that is told
  about a daemon counts.
* `step_mirrors`: every event keeps it.
* `logged_mirror` — **a client shows as logged what the maestro has logged**, but for a daemon that
  is being stopped.
-/

import Gebr.Comm.Server
import Mathlib.Data.List.Induction
import Mathlib.Data.List.Nodup

namespace Gebr.Maestro.DaemonMirror

open Gebr.Comm (GebrCommServerState)
open Gebr.Lib

section Model

/-- `gebr_comm_server_state_to_string`. -/
def gebrCommServerStateToString : GebrCommServerState → String
  | .disconnected => "disconnected"
  | .run => "run"
  | .redirect => "redirect"
  | .connect => "connect"
  | .logged => "logged"

/-- `gebr_comm_server_state_from_string`. -/
def gebrCommServerStateFromString (string : String) : GebrCommServerState :=
  if string = "disconnected" then .disconnected
  else if string = "run" then .run
  else if string = "redirect" then .redirect
  else if string = "connect" then .connect
  else if string = "logged" then .logged
  else .disconnected

/-- `GebrmDaemon`, with the state of its server. -/
structure GebrmDaemon where
  address : String
  state : GebrCommServerState
  errorType : Option String
  deriving DecidableEq, Repr

/-- What a client is told about daemons: a state, and that there is none any more. -/
inductive Message where
  | ssta (address state : String)
  | srm (address : String)
  deriving DecidableEq, Repr

/-- `GebrmAppPriv`, as far as the daemons go. `clients` counts the connections there have been,
`named` are the clients that have said hello, and `sent` is all that the clients were told. -/
structure GebrmApp where
  daemons : List GebrmDaemon
  clients : ℕ
  connections : List ℕ
  named : List ℕ
  sent : List (ℕ × Message)

/-- `gebrm_app_new`. -/
def gebrmAppNew : GebrmApp := ⟨[], 0, [], [], []⟩

/-- `gebrm_get_daemon_for_address`. -/
def gebrmGetDaemonForAddress (address : String) (daemons : List GebrmDaemon) : Option GebrmDaemon :=
  daemons.find? fun daemon => daemon.address = address

/-- `gebrm_add_server_to_list`. -/
def gebrmAddServerToList (daemons : List GebrmDaemon) (address : String) : List GebrmDaemon :=
  match gebrmGetDaemonForAddress address daemons with
  | some _ => daemons
  | none => ⟨address, .disconnected, none⟩ :: daemons

def modifyDaemon (address : String) (change : GebrmDaemon → GebrmDaemon) (app : GebrmApp) : GebrmApp :=
  { app with daemons := app.daemons.map fun daemon => if daemon.address = address then change daemon else daemon }

/-- A message to every client. -/
def GebrmApp.broadcast (message : Message) (app : GebrmApp) : GebrmApp :=
  { app with sent := app.sent ++ app.connections.map fun client => (client, message) }

/-- `send_server_status_message`, its address and its state. -/
def serverStatus (address : String) (state : GebrCommServerState) : Message :=
  .ssta address (gebrCommServerStateToString state)

/-- `gebrm_daemon_set_error_type`. -/
def gebrmDaemonSetErrorType (address : String) (errorType : Option String) (app : GebrmApp) :
    GebrmApp :=
  modifyDaemon address (fun daemon => { daemon with errorType := errorType }) app

/-- `gebrm_server_op_state_changed`, for the daemon itself; `lastError` is that of its server. -/
def opStateChanged (state : GebrCommServerState) (lastError : String) (daemon : GebrmDaemon) :
    GebrmDaemon :=
  match state with
  | .disconnected =>
      { daemon with errorType := if lastError ≠ "" then some "error:ssh" else daemon.errorType }
  | .connect => { daemon with errorType := none }
  | _ => daemon

/-- `gebr_comm_server_change_state` for the server of a daemon, and
`gebrm_app_daemon_on_state_change`. -/
def gebrCommServerChangeState (address : String) (state : GebrCommServerState) (lastError : String)
    (app : GebrmApp) : GebrmApp :=
  match gebrmGetDaemonForAddress address app.daemons with
  | none => app
  | some daemon =>
    if state = daemon.state then app
    else
      let app := modifyDaemon address
        (fun daemon => opStateChanged state lastError { daemon with state := state }) app
      app.broadcast (serverStatus address state)

/-- A daemon is given an error and disconnected, as where `on_daemon_init` refuses it. -/
def refuseDaemon (address error lastError : String) (app : GebrmApp) : GebrmApp :=
  gebrCommServerChangeState address .disconnected lastError
    (gebrmDaemonSetErrorType address (some error) app)

/-- The answer to an `INI` message, by `gebr_comm_server_set_logged` and `on_daemon_init`; `refused`
is the error that the daemon is refused with, when it is of another file system. -/
def onDaemonInit (address : String) (refused : Option String) (lastError : String)
    (app : GebrmApp) : GebrmApp :=
  let app := gebrCommServerChangeState address .logged lastError app
  match refused with
  | some error => refuseDaemon address error lastError app
  | none => (gebrmDaemonSetErrorType address none app).broadcast (serverStatus address .logged)

/-- `gebrm_daemon_invalid_password`. -/
def gebrmDaemonInvalidPassword (address lastError : String) (app : GebrmApp) : GebrmApp :=
  refuseDaemon address "error:ssh" lastError app

/-- `remove_daemon`. The daemon is off the list when it is disconnected. -/
def removeDaemon (address : String) (app : GebrmApp) : GebrmApp :=
  let rest := app.daemons.eraseP fun daemon => daemon.address = address
  let told : GebrmApp :=
    match gebrmGetDaemonForAddress address app.daemons with
    | none => app
    | some daemon =>
      let app := { app with daemons := rest }
      if daemon.state = .disconnected then app else app.broadcast (serverStatus address .disconnected)
  told.broadcast (.srm address)

/-- What a client that says hello is told of a daemon. -/
def helloStatus (daemon : GebrmDaemon) : Message :=
  serverStatus daemon.address (if daemon.state ≠ .logged then .disconnected else daemon.state)

/-- A hello of a client; `possible` are the addresses that `gebrm_app_create_possible_daemon_list`
finds. -/
def onIni (client : ℕ) (possible : List String) (app : GebrmApp) : GebrmApp :=
  let daemons := possible.foldl gebrmAddServerToList app.daemons
  { app with
    daemons := daemons
    named := client :: app.named
    sent := app.sent ++ daemons.map fun daemon => (client, helloStatus daemon) }

/-- `/stop`, when it is confirmed or the daemon has no tasks. -/
def onStop (client : ℕ) (address : String) (app : GebrmApp) : GebrmApp :=
  match gebrmGetDaemonForAddress address app.daemons with
  | none => app
  | some _ =>
    let app := gebrmDaemonSetErrorType address (some "error:stop") app
    { app with sent := app.sent ++ [(client, serverStatus address .disconnected)] }

/-- What happens to the maestro. -/
inductive Event where
  /-- A new client, numbered in order. -/
  | connection
  /-- An `INI` message that is accepted. -/
  | ini (client : ℕ) (possible : List String)
  | clientDisconnect (client : ℕ)
  /-- `/server` and `/connect-daemons`. The connection that they begin is an event of its own. -/
  | add (address : String)
  | changeState (address : String) (state : GebrCommServerState) (lastError : String)
  | daemonInit (address : String) (refused : Option String) (lastError : String)
  /-- An error instead of that answer: the daemon is of another version, or has another maestro. -/
  | daemonError (address error lastError : String)
  | invalidPassword (address lastError : String)
  | stop (client : ℕ) (address : String)
  | remove (address : String)
  deriving DecidableEq, Repr

/-- **The maestro takes one event**; a client says something only while it is connected. -/
def step (app : GebrmApp) : Event → Option GebrmApp
  | .connection =>
      some { app with clients := app.clients + 1, connections := app.clients :: app.connections }
  | .ini client possible => if client ∈ app.connections then
      some (onIni client possible app) else none
  | .clientDisconnect client =>
    some { app with connections := app.connections.erase client, named :=
      app.named.filter (· ≠ client) }
  | .add address => some { app with daemons := gebrmAddServerToList app.daemons address }
  | .changeState address state lastError =>
      some (gebrCommServerChangeState address state lastError app)
  | .daemonInit address refused lastError =>
    if (gebrmGetDaemonForAddress address app.daemons).isSome = true then
      some (onDaemonInit address refused lastError app)
    else none
  | .daemonError address error lastError => some (refuseDaemon address error lastError app)
  | .invalidPassword address lastError => some (gebrmDaemonInvalidPassword address lastError app)
  | .stop client address => if client ∈ app.connections then
      some (onStop client address app) else none
  | .remove address => some (removeDaemon address app)

/-- `GebrDaemonServer`, as far as it is told. -/
structure Row where
  address : String
  state : GebrCommServerState
  deriving DecidableEq, Repr

/-- `gebr_daemon_server_set_state` of the first row with the address. -/
def setState (address : String) (state : GebrCommServerState) : List Row → List Row
  | [] => []
  | row :: rows => if row.address = address then { row with state := state } :: rows
      else row :: setState address state rows

/-- `get_daemon_from_address`. -/
def getDaemonFromAddress (address : String) (rows : List Row) : Option Row :=
  rows.find? fun row => row.address = address

/-- `parse_messages` of a client, for daemons. -/
def parseMessage (rows : List Row) : Message → List Row
  | .ssta address state =>
    let state := gebrCommServerStateFromString state
    match getDaemonFromAddress address rows with
    | none => ⟨address, state⟩ :: rows
    | some _ => setState address state rows
  | .srm address => rows.filter fun row => row.address ≠ address

/-- The messages to a client, in order. -/
def sentTo (client : ℕ) (sent : List (ℕ × Message)) : List Message :=
  sent.filterMap fun entry => if entry.1 = client then some entry.2 else none

/-- The rows of a client that has read all. -/
def readAll (client : ℕ) (sent : List (ℕ × Message)) (rows : List Row) : List Row :=
  (sentTo client sent).foldl parseMessage rows

/-- The state that a client shows. -/
def shown (rows : List Row) (address : String) : Option GebrCommServerState :=
  (getDaemonFromAddress address rows).map Row.state

end Model

section Client

variable {rows : List Row} {address other : String} {state : GebrCommServerState}

/-- **What one writes the other reads.** -/
theorem fromString_toString (state : GebrCommServerState) :
    gebrCommServerStateFromString (gebrCommServerStateToString state) = state := by
  cases state <;> decide

theorem shown_cons (row : Row) (rows : List Row) (address : String) :
    shown (row :: rows) address = if row.address = address then
    some row.state else shown rows address := by
  unfold shown getDaemonFromAddress
  rw [List.find?_cons]
  split_ifs with same <;> simp [same]

theorem shown_setState (known : (shown rows address).isSome = true) (other : String) :
    shown (setState address state rows) other = if other = address then
    some state else shown rows other := by
  induction rows with
  | nil => cases known
  | cons row rows ih =>
    rw [shown_cons] at known
    unfold setState
    by_cases here : row.address = address
    · rw [if_pos here, shown_cons, shown_cons]
      by_cases same : other = address
      · rw [if_pos same, if_pos (here.trans same.symm)]
      · rw [if_neg same, if_neg fun hit => same (hit.symm.trans here), if_neg fun hit =>
          same (hit.symm.trans here)]
    · rw [if_neg here] at known ⊢
      rw [shown_cons, shown_cons, ih known]
      by_cases same : other = address
      · rw [if_pos same, if_neg fun hit => here (hit.trans same), if_pos same]
      · rw [if_neg same, if_neg same]

theorem shown_filter (address other : String) (rows : List Row) :
    shown (rows.filter fun row => row.address ≠ address) other = if other = address then
    none else shown rows other := by
  induction rows with
  | nil => split_ifs <;> rfl
  | cons row rows ih =>
    rw [List.filter_cons]
    by_cases here : row.address = address
    · rw [if_neg (by simp [here]), ih, shown_cons]
      by_cases same : other = address
      · rw [if_pos same, if_pos same]
      · rw [if_neg same, if_neg same, if_neg fun hit => same (hit.symm.trans here)]
    · rw [if_pos (by simp [here]), shown_cons, ih, shown_cons]
      by_cases same : other = address
      · rw [if_pos same, if_neg fun hit => here (hit.trans same), if_pos same]
      · rw [if_neg same, if_neg same]

/-- **A state that is told is shown**, and nothing else changes. -/
theorem shown_status (rows : List Row) (address other : String) (state : GebrCommServerState) :
    shown (parseMessage rows (serverStatus address state)) other =
      if other = address then some state else shown rows other := by
  unfold parseMessage serverStatus
  dsimp only
  rw [fromString_toString]
  cases found : getDaemonFromAddress address rows with
  | none =>
    dsimp only
    rw [shown_cons]
    by_cases same : other = address
    · rw [if_pos same, if_pos same.symm]
    · rw [if_neg same, if_neg (Ne.symm same)]
  | some row => exact shown_setState (by rw [shown, found]; rfl) other

end Client

section Sent

variable {client : ℕ} {rows : List Row} {sent : List (ℕ × Message)} {message : Message}

theorem readAll_append (client : ℕ) (sent more : List (ℕ × Message)) (rows : List Row) :
    readAll client (sent ++ more) rows = (sentTo client more).foldl parseMessage
    (readAll client sent rows) := by
  rw [readAll, readAll, sentTo, List.filterMap_append, List.foldl_append]
  rfl

/-- A message to all reaches a client once. -/
theorem sentTo_broadcast {connections : List ℕ} (once : connections.Nodup)
    (member : client ∈ connections) :
    sentTo client (connections.map fun client => (client, message)) = [message] := by
  induction connections with
  | nil => exact absurd member List.not_mem_nil
  | cons first connections ih =>
    obtain ⟨fresh, rest⟩ := List.nodup_cons.1 once
    rw [List.map_cons, sentTo, List.filterMap_cons]
    by_cases here : first = client
    · have none : sentTo client (connections.map fun client => (client, message)) = [] := by
        refine List.filterMap_eq_nil_iff.2 fun entry told => ?_
        obtain ⟨other, among, rfl⟩ := List.mem_map.1 told
        exact if_neg fun (same : other = client) => fresh ((here.trans same.symm) ▸ among)
      rw [if_pos here]
      exact congrArg (message :: ·) none
    · rw [if_neg here]
      exact ih rest ((List.mem_cons.1 member).resolve_left (Ne.symm here))

theorem sentTo_other {other : ℕ} (apart : other ≠ client) (messages : List Message) :
    sentTo client (messages.map fun message => (other, message)) = [] := by
  refine List.filterMap_eq_nil_iff.2 fun entry told => ?_
  obtain ⟨message, -, rfl⟩ := List.mem_map.1 told
  exact if_neg apart

theorem sentTo_own (messages : List Message) :
    sentTo client (messages.map fun message => (client, message)) = messages := by
  induction messages with
  | nil => rfl
  | cons message messages ih =>
    rw [List.map_cons, sentTo, List.filterMap_cons, if_pos rfl]
    exact congrArg (message :: ·) ih

end Sent

section Invariant

variable {client : ℕ} {rows : List Row} {app : GebrmApp} {address lastError : String}
    {state : GebrCommServerState}

/-- A daemon is listed once, a client is numbered once and told nothing before it connects. -/
structure Formed (app : GebrmApp) : Prop where
  distinct : (app.daemons.map GebrmDaemon.address).Nodup
  once : app.connections.Nodup
  numbered : ∀ client ∈ app.connections, client < app.clients
  known : ∀ client ∈ app.named, client ∈ app.connections
  told : ∀ entry ∈ app.sent, entry.1 < app.clients

/-- The client shows only what is logged as logged, but for a daemon that is spared and for the rows
it had before. -/
def OnlyLogged (spared : Option String) (client : ℕ) (rows : List Row) (app : GebrmApp) : Prop :=
  client ∈ app.connections → ∀ address, some address ≠ spared → shown rows address ≠ some .logged →
    shown (readAll client app.sent rows) address = some .logged →
      ∃ daemon ∈ app.daemons, daemon.address = address ∧ daemon.state = .logged

/-- The client shows all that is logged, but for a daemon that is spared and for those that are
being stopped. -/
def AllLogged (spared : Option String) (client : ℕ) (rows : List Row) (app : GebrmApp) : Prop :=
  client ∈ app.named → ∀ daemon ∈ app.daemons, some daemon.address ≠ spared → daemon.state = .logged →
    daemon.errorType ≠ some "error:stop" → shown (readAll client app.sent rows) daemon.address =
      some .logged

/-- **The client shows the daemons that are logged.** -/
structure Mirrors (client : ℕ) (rows : List Row) (app : GebrmApp) : Prop where
  only : OnlyLogged none client rows app
  all : AllLogged none client rows app

theorem OnlyLogged.spare (only : OnlyLogged none client rows app) (address : String) :
    OnlyLogged (some address) client rows app :=
  fun connected other _ => only connected other nofun

theorem AllLogged.spare (all : AllLogged none client rows app) (address : String) :
    AllLogged (some address) client rows app :=
  fun named daemon listed _ => all named daemon listed nofun

theorem mem_modifyDaemon {change : GebrmDaemon → GebrmDaemon} {daemon : GebrmDaemon} :
    daemon ∈ (modifyDaemon address change app).daemons ↔
      ∃ old ∈ app.daemons, daemon = if old.address = address then change old else old :=
  List.mem_map.trans
    ⟨fun ⟨old, listed, same⟩ => ⟨old, listed, same.symm⟩, fun ⟨old, listed, same⟩ =>
      ⟨old, listed, same.symm⟩⟩

theorem OnlyLogged.modify (only : OnlyLogged (some address) client rows app)
    (change : GebrmDaemon → GebrmDaemon) :
    OnlyLogged (some address) client rows (modifyDaemon address change app) := by
  intro connected other apart before logged
  obtain ⟨daemon, listed, named, state⟩ := only connected other apart before logged
  refine ⟨daemon, mem_modifyDaemon.2 ⟨daemon, listed, ?_⟩, named, state⟩
  rw [if_neg fun here => apart (congrArg some (named.symm.trans here))]

theorem AllLogged.modify (all : AllLogged (some address) client rows app)
    {change : GebrmDaemon → GebrmDaemon}
    (keeps : ∀ daemon, (change daemon).address = daemon.address) :
    AllLogged (some address) client rows (modifyDaemon address change app) := by
  intro named daemon listed apart logged going
  obtain ⟨old, among, rfl⟩ := mem_modifyDaemon.1 listed
  by_cases here : old.address = address
  · rw [if_pos here, keeps, here] at apart
    exact absurd rfl apart
  · rw [if_neg here] at *
    exact all named old among apart logged going

/-- What is shown once all are told of one daemon. -/
theorem shown_broadcast (formed : Formed app) (connected : client ∈ app.connections) {told : Message}
    {now : Option GebrCommServerState} (about : ∀ rows other,
      shown (parseMessage rows told) other = if other = address then now else shown rows other)
    (other : String) : shown (readAll client (app.broadcast told).sent rows) other =
      if other = address then now else shown (readAll client app.sent rows) other := by
  show shown (readAll client (app.sent ++ _) rows) other = _
  rw [readAll_append, sentTo_broadcast formed.once connected, List.foldl_cons, List.foldl_nil, about]

/-- **The last thing that is told about a daemon counts.** -/
theorem settles (formed : Formed app) (only : OnlyLogged (some address) client rows app)
    (all : AllLogged (some address) client rows app) {told : Message}
    {now : Option GebrCommServerState} (about : ∀ rows other,
      shown (parseMessage rows told) other = if other = address then now else shown rows other)
    (states : now = some .logged →
      ∃ daemon ∈ app.daemons, daemon.address = address ∧ daemon.state = .logged)
    (listed : ∀ daemon ∈ app.daemons, daemon.address = address → some daemon.state = now) :
    Mirrors client rows (app.broadcast told) := by
  refine ⟨fun connected other _ before logged => ?_, fun named daemon among _ logged going => ?_⟩
  · rw [shown_broadcast formed connected about] at logged
    split_ifs at logged with here
    · exact here ▸ states logged
    · exact only connected other (fun same => here (Option.some.inj same)) before logged
  · rw [shown_broadcast formed (formed.known client named) about]
    split_ifs with here
    · rw [← listed daemon among here, logged]
    · exact all named daemon among (fun same => here (Option.some.inj same)) logged going

theorem settle (formed : Formed app) (only : OnlyLogged (some address) client rows app)
    (all : AllLogged (some address) client rows app)
    (states : ∀ daemon ∈ app.daemons, daemon.address = address → daemon.state = state)
    (listed : state = .logged → ∃ daemon ∈ app.daemons, daemon.address = address) :
    Mirrors client rows (app.broadcast (serverStatus address state)) := by
  refine settles formed only all (fun rows other => shown_status rows address other state)
    (fun logged => ?_) fun daemon among here => congrArg some (states daemon among here)
  obtain rfl := Option.some.inj logged
  obtain ⟨daemon, among, same⟩ := listed rfl
  exact ⟨daemon, among, same, states daemon among same⟩

/-- **A daemon that is gone is not shown.** -/
theorem settle_gone (formed : Formed app) (only : OnlyLogged (some address) client rows app)
    (all : AllLogged (some address) client rows app)
    (gone : ∀ daemon ∈ app.daemons, daemon.address ≠ address) :
    Mirrors client rows (app.broadcast (.srm address)) :=
  settles formed only all (fun rows other => shown_filter address other rows)
    (fun logged => by cases logged) fun daemon among here => absurd here (gone daemon among)

end Invariant

section Daemons

variable {client : ℕ} {rows : List Row} {app : GebrmApp} {address lastError : String}
    {state : GebrCommServerState}

theorem find_some {daemons : List GebrmDaemon} {daemon : GebrmDaemon}
    (found : gebrmGetDaemonForAddress address daemons = some daemon) :
    daemon ∈ daemons ∧ daemon.address = address :=
  ⟨List.mem_of_find?_eq_some found,
    of_decide_eq_true
      (@List.find?_some _ (fun daemon : GebrmDaemon => decide (daemon.address = address)) _ _ found)⟩

theorem find_none {daemons : List GebrmDaemon}
    (none : gebrmGetDaemonForAddress address daemons = none) :
    ∀ daemon ∈ daemons, daemon.address ≠ address :=
  fun daemon listed same => List.find?_eq_none.1 none daemon listed (decide_eq_true same)

theorem Formed.eq_of_address (formed : Formed app) {daemon other : GebrmDaemon}
    (listed : daemon ∈ app.daemons) (among : other ∈ app.daemons)
    (same : daemon.address = other.address) : daemon = other :=
  List.inj_on_of_nodup_map formed.distinct listed among same

theorem formed_modifyDaemon (formed : Formed app) {change : GebrmDaemon → GebrmDaemon}
    (keeps : ∀ daemon, (change daemon).address = daemon.address) :
    Formed (modifyDaemon address change app) where
  distinct := by
    have same : (modifyDaemon address change app).daemons.map GebrmDaemon.address =
        app.daemons.map GebrmDaemon.address := by
      rw [modifyDaemon, List.map_map]
      refine List.map_congr_left fun daemon _ => ?_
      show (if daemon.address = address then change daemon else daemon).address = _
      split_ifs
      · exact keeps daemon
      · rfl
    rw [same]
    exact formed.distinct
  once := formed.once
  numbered := formed.numbered
  known := formed.known
  told := formed.told

theorem formed_broadcast (formed : Formed app) (message : Message) :
    Formed (app.broadcast message) := by
  refine ⟨formed.distinct, formed.once, formed.numbered, formed.known, fun entry member => ?_⟩
  rcases List.mem_append.1 member with before | new
  · exact formed.told entry before
  · obtain ⟨client, connected, rfl⟩ := List.mem_map.1 new
    exact formed.numbered client connected

theorem address_opStateChanged (state : GebrCommServerState) (lastError : String)
    (daemon : GebrmDaemon) : (opStateChanged state lastError daemon).address = daemon.address := by
  cases state <;> rfl

theorem state_opStateChanged (state : GebrCommServerState) (lastError : String)
    (daemon : GebrmDaemon) : (opStateChanged state lastError daemon).state = daemon.state := by
  cases state <;> rfl

/-- **A change of state**: nothing happens, or all clients are told of it. -/
theorem changeState_cases (address : String) (state : GebrCommServerState) (lastError : String)
    (app : GebrmApp) : (gebrCommServerChangeState address state lastError app = app ∧
      ∀ daemon, gebrmGetDaemonForAddress address app.daemons = some daemon → daemon.state = state) ∨
    ∃ daemon ∈ app.daemons, daemon.address = address ∧
      gebrCommServerChangeState address state lastError app =
        (modifyDaemon address
          (fun daemon => opStateChanged state lastError { daemon with state := state })
          app).broadcast (serverStatus address state) := by
  unfold gebrCommServerChangeState
  cases found : gebrmGetDaemonForAddress address app.daemons with
  | none => exact Or.inl ⟨rfl, nofun⟩
  | some daemon =>
    dsimp only
    split_ifs with same
    · refine Or.inl ⟨rfl, fun other here => ?_⟩
      rw [← Option.some.inj here, same]
    · exact Or.inr ⟨daemon, (find_some found).1, (find_some found).2, rfl⟩

theorem formed_changeState (formed : Formed app) (address : String) (state : GebrCommServerState)
    (lastError : String) : Formed (gebrCommServerChangeState address state lastError app) := by
  rcases changeState_cases address state lastError app with ⟨same, -⟩ | ⟨daemon, -, -, same⟩
  · rw [same]
    exact formed
  · rw [same]
    have kept : Formed (modifyDaemon address
        (fun daemon => opStateChanged state lastError { daemon with state := state }) app) :=
      formed_modifyDaemon formed fun daemon => address_opStateChanged state lastError _
    exact formed_broadcast kept _

/-- A changed state settles what is shown of the daemon. -/
theorem changed_mirrors (formed : Formed app) (only : OnlyLogged (some address) client rows app)
    (all : AllLogged (some address) client rows app) {daemon : GebrmDaemon}
    (listed : daemon ∈ app.daemons) (named : daemon.address = address) :
    Mirrors client rows ((modifyDaemon address
      (fun daemon => opStateChanged state lastError { daemon with state := state }) app).broadcast
        (serverStatus address state)) := by
  have keeps (daemon : GebrmDaemon) :
      (opStateChanged state lastError { daemon with state := state }).address = daemon.address :=
    address_opStateChanged state lastError _
  refine settle (formed_modifyDaemon formed keeps) (only.modify _) (all.modify keeps)
    (fun other among same => ?_) fun _ => ?_
  · obtain ⟨old, -, rfl⟩ := mem_modifyDaemon.1 among
    split_ifs at same ⊢ with here
    · exact state_opStateChanged state lastError _
    · exact absurd same here
  · refine ⟨_, mem_modifyDaemon.2 ⟨daemon, listed, rfl⟩, ?_⟩
    rw [if_pos named, keeps, named]

/-- **Any change of state keeps what is shown.** -/
theorem changeState_mirrors (formed : Formed app) (mirrors : Mirrors client rows app)
    (address : String) (state : GebrCommServerState) (lastError : String) :
    Mirrors client rows (gebrCommServerChangeState address state lastError app) := by
  rcases changeState_cases address state lastError app with ⟨same, -⟩ | ⟨daemon, listed, named, same⟩
  · rw [same]
    exact mirrors
  · rw [same]
    exact changed_mirrors formed (mirrors.only.spare address) (mirrors.all.spare address) listed named

theorem disconnect_mirrors (formed : Formed app) (only : OnlyLogged none client rows app)
    (all : AllLogged (some address) client rows app) (lastError : String) :
    Mirrors client rows (gebrCommServerChangeState address .disconnected lastError app) := by
  rcases changeState_cases address .disconnected lastError app with
    ⟨same, down⟩ | ⟨daemon, listed, named, same⟩
  · rw [same]
    refine ⟨only, fun named daemon listed _ logged going => ?_⟩
    by_cases here : daemon.address = address
    · -- A daemon with this address is not logged.
      cases found : gebrmGetDaemonForAddress address app.daemons with
      | none => exact absurd here (find_none found daemon listed)
      | some other =>
        obtain rfl := formed.eq_of_address listed (find_some found).1
          (here.trans (find_some found).2.symm)
        rw [down daemon found] at logged
        cases logged
    · exact all named daemon listed (fun same => here (Option.some.inj same)) logged going
  · rw [same]
    exact changed_mirrors formed (only.spare address) all listed named

/-- An error of a daemon has no bearing on its state. -/
theorem setErrorType_only (only : OnlyLogged none client rows app) (address : String)
    (errorType : Option String) :
    OnlyLogged none client rows (gebrmDaemonSetErrorType address errorType app) := by
  intro connected other apart before logged
  obtain ⟨daemon, listed, named, state⟩ := only connected other apart before logged
  refine ⟨_, mem_modifyDaemon.2 ⟨daemon, listed, rfl⟩, ?_, ?_⟩
  · split_ifs <;> exact named
  · split_ifs <;> exact state

theorem setErrorType_all (all : AllLogged none client rows app) (address : String)
    (errorType : Option String) :
    AllLogged (some address) client rows (gebrmDaemonSetErrorType address errorType app) :=
  (all.spare address).modify fun _ => rfl

theorem formed_setErrorType (formed : Formed app) (address : String) (errorType : Option String) :
    Formed (gebrmDaemonSetErrorType address errorType app) := formed_modifyDaemon formed fun _ => rfl

end Daemons

section Lists

variable {client : ℕ} {rows : List Row} {app : GebrmApp} {address lastError : String}

/-- A list of daemons with more of them, which are disconnected. -/
structure Joined (daemons next : List GebrmDaemon) : Prop where
  kept : ∀ daemon ∈ daemons, daemon ∈ next
  new : ∀ daemon ∈ next, daemon ∈ daemons ∨ daemon.state = .disconnected
  distinct : (daemons.map GebrmDaemon.address).Nodup → (next.map GebrmDaemon.address).Nodup

theorem joined_add (daemons : List GebrmDaemon) (address : String) :
    Joined daemons (gebrmAddServerToList daemons address) := by
  unfold gebrmAddServerToList
  cases found : gebrmGetDaemonForAddress address daemons with
  | some daemon => exact ⟨fun _ listed => listed, fun _ listed => Or.inl listed, id⟩
  | none =>
    refine ⟨fun _ listed => List.mem_cons_of_mem _ listed, fun daemon listed => ?_,
      fun distinct => ?_⟩
    · rcases List.mem_cons.1 listed with rfl | old
      · exact Or.inr rfl
      · exact Or.inl old
    · refine List.nodup_cons.2 ⟨fun member => ?_, distinct⟩
      obtain ⟨daemon, listed, same⟩ := List.mem_map.1 member
      exact find_none found daemon listed same

theorem joined_all (daemons : List GebrmDaemon) (possible : List String) :
    Joined daemons (possible.foldl gebrmAddServerToList daemons) := by
  induction possible generalizing daemons with
  | nil => exact ⟨fun _ listed => listed, fun _ listed => Or.inl listed, id⟩
  | cons address possible ih =>
    have first := joined_add daemons address
    have rest := ih (gebrmAddServerToList daemons address)
    refine ⟨fun daemon listed => rest.kept daemon (first.kept daemon listed), fun daemon listed => ?_,
      fun distinct => rest.distinct (first.distinct distinct)⟩
    exact (rest.new daemon listed).elim (first.new daemon) Or.inr

/-- Daemons that join are not logged. -/
theorem Mirrors.join (mirrors : Mirrors client rows app) {next : List GebrmDaemon}
    (joined : Joined app.daemons next) : Mirrors client rows { app with daemons := next } := by
  refine ⟨fun connected other apart before logged => ?_,
    fun named daemon listed apart logged going => ?_⟩
  · obtain ⟨daemon, listed, known⟩ := mirrors.only connected other apart before logged
    exact ⟨daemon, joined.kept daemon listed, known⟩
  · rcases joined.new daemon listed with old | down
    · exact mirrors.all named daemon old apart logged going
    · rw [down] at logged
      cases logged

/-- **What a client shows after a hello.** -/
theorem shown_hello (daemons : List GebrmDaemon) (rows : List Row) :
    (∀ address, shown ((daemons.map helloStatus).foldl parseMessage rows) address = some .logged →
      (∃ daemon ∈ daemons, daemon.address = address ∧ daemon.state = .logged) ∨ shown rows address =
    some .logged) ∧ ((daemons.map GebrmDaemon.address).Nodup → ∀ daemon ∈ daemons,
      daemon.state = .logged → shown ((daemons.map helloStatus).foldl parseMessage rows)
      daemon.address = some .logged) := by
  induction daemons using List.reverseRecOn with
  | nil => exact ⟨fun _ logged => Or.inr logged, fun _ _ listed => absurd listed List.not_mem_nil⟩
  | append_singleton daemons last ih =>
    have told (other : String) : shown
        (((daemons ++ [last]).map helloStatus).foldl parseMessage rows) other = if other =
          last.address then some (if last.state ≠ .logged then .disconnected else last.state)
        else shown ((daemons.map helloStatus).foldl parseMessage rows) other := by
      rw [List.map_append, List.foldl_append]
      exact shown_status _ _ _ _
    refine ⟨fun address logged => ?_, fun distinct daemon listed logged => ?_⟩
    · rw [told] at logged
      split_ifs at logged with here other
      · cases logged
      · exact Or.inl ⟨last, List.mem_append_right _ List.mem_cons_self, here.symm, not_not.1 other⟩
      · refine (ih.1 address logged).imp_left fun ⟨daemon, listed, known⟩ => ?_
        exact ⟨daemon, List.mem_append_left _ listed, known⟩
    · rw [told]
      by_cases here : daemon.address = last.address
      · have same : daemon = last := List.inj_on_of_nodup_map distinct listed
          (List.mem_append_right _ List.mem_cons_self) here
        rw [if_pos here, if_neg (not_not.2 (same ▸ logged)), ← same, logged]
      · rw [if_neg here]
        have old : daemon ∈ daemons := by
          refine (List.mem_append.1 listed).resolve_right fun new => here ?_
          rw [List.mem_singleton.1 new]
        rw [List.map_append] at distinct
        exact ih.2 (List.nodup_append.1 distinct).1 daemon old logged

/-- **A hello.** -/
theorem ini_mirrors (formed : Formed app) (mirrors : Mirrors client rows app) (other : ℕ)
    (possible : List String) : Mirrors client rows (onIni other possible app) := by
  have joined := joined_all app.daemons possible
  have grown := mirrors.join joined
  have distinct := joined.distinct formed.distinct
  have told (daemons : List GebrmDaemon) : (daemons.map fun daemon => (other, helloStatus daemon)) =
      (daemons.map helloStatus).map fun message => (other, message) := by
    rw [List.map_map]
    rfl
  by_cases here : client = other
  · have view : readAll client (onIni other possible app).sent rows =
        ((possible.foldl gebrmAddServerToList app.daemons).map helloStatus).foldl parseMessage
          (readAll client app.sent rows) := by
      show readAll client (app.sent ++ _) rows = _
      rw [readAll_append, told, here, sentTo_own]
    obtain ⟨only, all⟩ := shown_hello (possible.foldl gebrmAddServerToList app.daemons)
      (readAll client app.sent rows)
    refine ⟨fun connected address apart before logged => ?_, fun _ daemon listed _ logged _ => ?_⟩
    · rw [view] at logged
      exact (only address logged).elim id fun already => grown.only connected address apart
        before already
    · rw [view]
      exact all distinct daemon listed logged
  · have view : readAll client (onIni other possible app).sent rows =
        readAll client app.sent rows := by
      show readAll client (app.sent ++ _) rows = _
      rw [readAll_append, told, sentTo_other (Ne.symm here)]
      rfl
    refine ⟨fun connected address apart before logged => ?_,
      fun named daemon listed apart logged going => ?_⟩
    · rw [view] at logged
      exact grown.only connected address apart before logged
    · rw [view]
      exact grown.all ((List.mem_cons.1 named).resolve_left here) daemon listed apart logged going

/-- What is left of a list that a daemon is taken off. -/
theorem mem_eraseP {daemons : List GebrmDaemon} (distinct : (daemons.map GebrmDaemon.address).Nodup)
    (daemon : GebrmDaemon) :
    daemon ∈ daemons.eraseP (fun daemon => daemon.address = address) ↔ daemon ∈ daemons ∧
    daemon.address ≠ address := by
  constructor
  · intro left
    refine ⟨List.mem_of_mem_eraseP left, fun same => ?_⟩
    have some_daemon : ∃ other ∈ daemons, other.address = address :=
      ⟨daemon, List.mem_of_mem_eraseP left, same⟩
    obtain ⟨other, among, hit⟩ := some_daemon
    obtain ⟨gone, front, back, -, there, whole, rest⟩ :=
      @List.exists_of_eraseP _ (fun daemon : GebrmDaemon => decide (daemon.address = address))
        daemons other among (decide_eq_true hit)
    rw [rest] at left
    rw [whole, List.map_append, List.map_cons, List.nodup_middle, List.nodup_cons,
      ← List.map_append] at distinct
    exact distinct.1 (List.mem_map.2 ⟨daemon, left, same.trans (of_decide_eq_true there).symm⟩)
  · rintro ⟨listed, apart⟩
    exact (@List.mem_eraseP_of_neg _ (fun daemon : GebrmDaemon => decide (daemon.address = address))
      daemon daemons fun same => apart (of_decide_eq_true same)).2 listed

/-- What is told about a daemon has no bearing on the others. -/
theorem spared_broadcast (formed : Formed app) {state : GebrCommServerState}
    (only : OnlyLogged (some address) client rows app)
    (all : AllLogged (some address) client rows app) :
      OnlyLogged (some address) client rows (app.broadcast (serverStatus address state)) ∧ AllLogged
      (some address) client rows (app.broadcast (serverStatus address state)) := by
  have about (rows : List Row) (other : String) := shown_status rows address other state
  refine ⟨fun connected other apart before logged => ?_,
    fun named daemon listed apart logged going => ?_⟩
  · rw [shown_broadcast formed connected about, if_neg fun same =>
      apart (congrArg some same)] at logged
    exact only connected other apart before logged
  · rw [shown_broadcast formed (formed.known client named) about, if_neg fun same =>
      apart (congrArg some same)]
    exact all named daemon listed apart logged going

/-- **A daemon is removed.** -/
theorem remove_mirrors (formed : Formed app) (mirrors : Mirrors client rows app) (address : String) :
    Formed (removeDaemon address app) ∧ Mirrors client rows (removeDaemon address app) := by
  unfold removeDaemon
  dsimp only
  cases found : gebrmGetDaemonForAddress address app.daemons with
  | none =>
    exact ⟨formed_broadcast formed _, settle_gone formed (mirrors.only.spare address)
      (mirrors.all.spare address) (find_none found)⟩
  | some daemon =>
    dsimp only
    have left (other : GebrmDaemon) := @mem_eraseP address app.daemons formed.distinct other
    have off : Formed { app with daemons := app.daemons.eraseP fun daemon => daemon.address =
        address } :=
      ⟨(List.eraseP_sublist.map _).nodup formed.distinct, formed.once, formed.numbered,
        formed.known, formed.told⟩
    have only : OnlyLogged (some address) client rows
        { app with daemons := app.daemons.eraseP fun daemon => daemon.address = address } := by
      intro connected other apart before logged
      obtain ⟨daemon, listed, named, state⟩ := mirrors.only connected other nofun before logged
      exact ⟨daemon, (left daemon).2
        ⟨listed, fun same => apart (congrArg some (named.symm.trans same))⟩, named, state⟩
    have all : AllLogged (some address) client rows
        { app with daemons := app.daemons.eraseP fun daemon => daemon.address = address } :=
      fun named daemon listed _ => mirrors.all named daemon ((left daemon).1 listed).1 nofun
    have gone (daemon : GebrmDaemon)
        (listed : daemon ∈ app.daemons.eraseP fun daemon => daemon.address = address) :
            daemon.address ≠ address :=
      ((left daemon).1 listed).2
    split_ifs
    · exact ⟨formed_broadcast off _, settle_gone off only all gone⟩
    · obtain ⟨only', all'⟩ := @spared_broadcast client rows _ address off .disconnected only all
      exact ⟨formed_broadcast (formed_broadcast off _) _, settle_gone (formed_broadcast off _)
        only' all' gone⟩

end Lists

section Runs

variable {client : ℕ} {rows : List Row} {app next : GebrmApp} {event : Event}

/-- A daemon whose state is changed has the new one. -/
theorem changeState_states (formed : Formed app) {address lastError : String} {state : GebrCommServerState}
    {daemon : GebrmDaemon} (listed : daemon ∈ (gebrCommServerChangeState address state lastError app).daemons)
    (here : daemon.address = address) : daemon.state = state := by
  rcases changeState_cases address state lastError app with ⟨same, already⟩ | ⟨other, -, -, same⟩
  · rw [same] at listed
    refine already daemon ?_
    cases found : gebrmGetDaemonForAddress address app.daemons with
    | none => exact absurd here (find_none found daemon listed)
    | some other => rw [formed.eq_of_address listed (find_some found).1 (here.trans (find_some found).2.symm)]
  · rw [same] at listed
    obtain ⟨old, -, rfl⟩ := mem_modifyDaemon.1 listed
    split_ifs at here ⊢ with hit
    · exact state_opStateChanged state lastError _
    · exact absurd here hit

theorem changeState_known {address lastError : String} {state : GebrCommServerState}
    (listed : (gebrmGetDaemonForAddress address app.daemons).isSome = true) :
    ∃ daemon ∈ (gebrCommServerChangeState address state lastError app).daemons, daemon.address = address := by
  rcases changeState_cases address state lastError app with ⟨same, -⟩ | ⟨daemon, among, here, same⟩
  · obtain ⟨daemon, found⟩ := Option.isSome_iff_exists.1 listed
    rw [same]
    exact ⟨daemon, find_some found⟩
  · rw [same]
    refine ⟨_, mem_modifyDaemon.2 ⟨daemon, among, rfl⟩, ?_⟩
    rw [if_pos here]
    exact (address_opStateChanged state lastError _).trans here

/-- **A daemon is refused.** -/
theorem refuse_mirrors (formed : Formed app) (mirrors : Mirrors client rows app)
    (address error lastError : String) : Formed (refuseDaemon address error lastError app) ∧
    Mirrors client rows (refuseDaemon address error lastError app) := by
  have marked := formed_setErrorType formed address (some error)
  exact ⟨formed_changeState marked address .disconnected lastError,
    disconnect_mirrors marked (setErrorType_only mirrors.only address _)
      (setErrorType_all mirrors.all address _) lastError⟩

/-- **A daemon says hello**: it is logged, or refused at once. -/
theorem init_mirrors (formed : Formed app) (mirrors : Mirrors client rows app) {address : String}
    (listed : (gebrmGetDaemonForAddress address app.daemons).isSome = true) (refused : Option String)
    (lastError : String) :
    Formed (onDaemonInit address refused lastError app) ∧
      Mirrors client rows (onDaemonInit address refused lastError app) := by
  have logged := changeState_mirrors formed mirrors address .logged lastError
  have kept := formed_changeState formed address .logged lastError
  have states : ∀ daemon ∈ (gebrCommServerChangeState address .logged lastError app).daemons,
      daemon.address = address → daemon.state = .logged := fun daemon => changeState_states formed
  have known := @changeState_known app address lastError .logged listed
  unfold onDaemonInit
  dsimp only
  generalize gebrCommServerChangeState address .logged lastError app = mid at *
  cases refused with
  | some error => exact refuse_mirrors kept logged address error lastError
  | none =>
    have marked := formed_setErrorType kept address none
    refine ⟨formed_broadcast marked _,
      settle marked ((setErrorType_only logged.only address _).spare address)
        (setErrorType_all logged.all address _) (fun daemon among same => ?_) fun _ => ?_⟩
    · obtain ⟨old, old_listed, rfl⟩ := mem_modifyDaemon.1 among
      split_ifs at same ⊢ with here
      · exact states old old_listed here
      · exact absurd same here
    · obtain ⟨daemon, among, same⟩ := known
      refine ⟨_, mem_modifyDaemon.2 ⟨daemon, among, rfl⟩, ?_⟩
      rw [if_pos same]
      exact same

/-- **A daemon is stopped**: one client is told that it is disconnected. -/
theorem stop_mirrors (formed : Formed app) (mirrors : Mirrors client rows app) {other : ℕ}
    (connected : other ∈ app.connections) (address : String) :
    Formed (onStop other address app) ∧ Mirrors client rows (onStop other address app) := by
  unfold onStop
  cases found : gebrmGetDaemonForAddress address app.daemons with
  | none => exact ⟨formed, mirrors⟩
  | some daemon =>
    dsimp only
    have marked := formed_setErrorType formed address (some "error:stop")
    have only := setErrorType_only mirrors.only address (some "error:stop")
    have all := setErrorType_all mirrors.all address (some "error:stop")
    have stopping : ∀ daemon ∈ (gebrmDaemonSetErrorType address (some "error:stop") app).daemons,
        daemon.address = address → daemon.errorType = some "error:stop" := by
      intro daemon listed here
      obtain ⟨old, -, rfl⟩ := mem_modifyDaemon.1 listed
      split_ifs at here ⊢ with hit
      · rfl
      · exact absurd here hit
    have member : other ∈ (gebrmDaemonSetErrorType address (some "error:stop") app).connections :=
      connected
    generalize gebrmDaemonSetErrorType address (some "error:stop") app = mid at *
    have view (place : String) :
        shown (readAll client (mid.sent ++ [(other, serverStatus address .disconnected)]) rows)
          place = if other = client ∧ place = address then some .disconnected
          else shown (readAll client mid.sent rows) place := by
      rw [readAll_append]
      by_cases own : other = client
      · have one : sentTo client [(other, serverStatus address .disconnected)] =
            [serverStatus address .disconnected] := by
          simp [sentTo, own]
        rw [one, List.foldl_cons, List.foldl_nil, shown_status]
        simp only [own, true_and]
      · have none : sentTo client [(other, serverStatus address .disconnected)] = [] := by
          simp [sentTo, own]
        rw [none, List.foldl_nil, if_neg fun both => own both.1]
    refine ⟨⟨marked.distinct, marked.once, marked.numbered, marked.known, fun entry told => ?_⟩,
      fun here place apart before logged => ?_, fun named daemon listed _ logged going => ?_⟩
    · rcases List.mem_append.1 told with before | new
      · exact marked.told entry before
      · rw [List.mem_singleton.1 new]
        exact marked.numbered other member
    · dsimp only at logged
      rw [view] at logged
      split_ifs at logged
      · cases logged
      · exact only here place apart before logged
    · dsimp only
      rw [view, if_neg fun both => going (stopping daemon listed both.2)]
      exact all named daemon listed
        (fun same => going (stopping daemon listed (Option.some.inj same))) logged going

/-- A client that has just connected has been told nothing. -/
theorem connection_mirrors (formed : Formed app) (mirrors : Mirrors client rows app) :
    Mirrors client rows
    { app with clients := app.clients + 1, connections := app.clients :: app.connections } := by
  refine ⟨fun connected address apart before logged => ?_, mirrors.all⟩
  rcases List.mem_cons.1 connected with new | old
  · have none : sentTo client app.sent = [] := by
      refine List.filterMap_eq_nil_iff.2 fun entry told => if_neg fun same => ?_
      exact Nat.ne_of_lt (formed.told entry told) (same.trans new)
    have view : readAll client app.sent rows = rows := by rw [readAll, none, List.foldl_nil]
    exact absurd (view ▸ logged) before
  · exact mirrors.only old address apart before logged

/-- **Every event keeps what a client shows.** -/
theorem step_mirrors (formed : Formed app) (mirrors : Mirrors client rows app)
    (taken : step app event = some next) : Formed next ∧ Mirrors client rows next := by
  cases event with
  | connection =>
    obtain rfl := Option.some.inj taken
    refine ⟨⟨formed.distinct, List.nodup_cons.2 ⟨fun member => ?_, formed.once⟩, fun other member =>
      ?_, fun other named => List.mem_cons_of_mem _ (formed.known other named), fun entry told => ?_⟩,
      connection_mirrors formed mirrors⟩
    · exact Nat.lt_irrefl _ (formed.numbered _ member)
    · rcases List.mem_cons.1 member with rfl | old
      · exact Nat.lt_succ_self _
      · exact Nat.lt_succ_of_lt (formed.numbered other old)
    · exact Nat.lt_succ_of_lt (formed.told entry told)
  | ini other possible =>
    unfold step at taken
    dsimp only at taken
    split_ifs at taken with connected
    obtain rfl := Option.some.inj taken
    refine ⟨⟨(joined_all app.daemons possible).distinct formed.distinct, formed.once,
      formed.numbered, fun one named => ?_, fun entry told => ?_⟩,
        ini_mirrors formed mirrors other possible⟩
    · rcases List.mem_cons.1 named with rfl | old
      · exact connected
      · exact formed.known one old
    · rcases List.mem_append.1 told with before | new
      · exact formed.told entry before
      · obtain ⟨daemon, -, rfl⟩ := List.mem_map.1 new
        exact formed.numbered other connected
  | clientDisconnect other =>
    obtain rfl := Option.some.inj taken
    refine ⟨⟨formed.distinct, formed.once.erase other, fun one member =>
      formed.numbered one (List.mem_of_mem_erase member), fun one named => ?_, formed.told⟩,
        fun connected => mirrors.only (List.mem_of_mem_erase connected),
      fun named => mirrors.all (List.mem_filter.1 named).1⟩
    obtain ⟨named, apart⟩ := List.mem_filter.1 named
    exact (List.mem_erase_of_ne (of_decide_eq_true apart)).2 (formed.known one named)
  | add address =>
    obtain rfl := Option.some.inj taken
    have joined := joined_add app.daemons address
    exact ⟨⟨joined.distinct formed.distinct, formed.once, formed.numbered, formed.known,
      formed.told⟩, mirrors.join joined⟩
  | changeState address state lastError =>
    obtain rfl := Option.some.inj taken
    exact ⟨formed_changeState formed address state lastError, changeState_mirrors formed mirrors
      address state lastError⟩
  | daemonInit address refused lastError =>
    unfold step at taken
    dsimp only at taken
    split_ifs at taken with listed
    obtain rfl := Option.some.inj taken
    exact init_mirrors formed mirrors listed refused lastError
  | daemonError address error lastError =>
    obtain rfl := Option.some.inj taken
    exact refuse_mirrors formed mirrors address error lastError
  | invalidPassword address lastError =>
    obtain rfl := Option.some.inj taken
    exact refuse_mirrors formed mirrors address "error:ssh" lastError
  | stop other address =>
    unfold step at taken
    dsimp only at taken
    split_ifs at taken with connected
    obtain rfl := Option.some.inj taken
    exact stop_mirrors formed mirrors connected address
  | remove address =>
    obtain rfl := Option.some.inj taken
    exact remove_mirrors formed mirrors address

theorem formed_new : Formed gebrmAppNew :=
  ⟨List.nodup_nil, List.nodup_nil, fun _ member => absurd member List.not_mem_nil,
    fun _ member => absurd member List.not_mem_nil, fun _ member => absurd member List.not_mem_nil⟩

theorem mirrors_new (client : ℕ) (rows : List Row) : Mirrors client rows gebrmAppNew :=
  ⟨fun connected => absurd connected List.not_mem_nil, fun named => absurd named List.not_mem_nil⟩

/-- **In any run, a client that has said hello and has read all shows the daemons that are logged**,
but for those that are being stopped, and no other daemon but one that it showed before it
connected. -/
theorem logged_mirror {events : List Event} (reaches : Run.run step gebrmAppNew events = some app)
    (named : client ∈ app.named) (rows : List Row) :
    (∀ daemon ∈ app.daemons, daemon.state = .logged → daemon.errorType ≠ some "error:stop" →
      shown (readAll client app.sent rows) daemon.address = some .logged) ∧
    ∀ address, shown rows address ≠ some .logged → shown (readAll client app.sent rows) address =
      some .logged → ∃ daemon ∈ app.daemons, daemon.address = address ∧ daemon.state = .logged := by
  have kept : Formed app ∧ Mirrors client rows app :=
    @Run.run_invariant _ _ step (fun app => Formed app ∧ Mirrors client rows app)
      (fun _ _ _ good taken => step_mirrors good.1 good.2 taken) _ _ _
        ⟨formed_new, mirrors_new client rows⟩ reaches
  exact ⟨fun daemon listed => kept.2.all named daemon listed nofun,
    fun address => kept.2.only (kept.1.known client named) address nofun⟩

/-- Two clients; a daemon that they are told of, and that one of them stops. -/
def twoClients : List Event :=
  [.connection, .ini 0 ["node"], .changeState "node" .run "", .changeState "node" .connect "",
    .connection, .ini 1 ["node", "other"], .daemonInit "node" none "", .stop 0 "node"]

/-- The client that stopped the daemon does not show it any more, and the other one does. -/
theorem logged_mirror_twoClients : ∃ app, Run.run step gebrmAppNew twoClients = some app ∧
    shown (readAll 0 app.sent [⟨"", .logged⟩]) "node" = some .disconnected ∧
    shown (readAll 1 app.sent [⟨"", .logged⟩]) "node" = some .logged ∧
    ∃ daemon ∈ app.daemons, daemon.address = "node" ∧ daemon.state = .logged := by
  refine ⟨_, rfl, by decide +kernel, by decide +kernel, ?_⟩
  exact (@logged_mirror 1 _ twoClients rfl (by decide +kernel) [⟨"", .logged⟩]).2 "node"
    (by decide +kernel) (by decide +kernel)

end Runs

end Gebr.Maestro.DaemonMirror
