/-
**The maestro with its daemons.**

The queues of jobs are `App`; here are the tasks of the jobs, on the daemons that run them. A runner
that has been started sends the tasks of its job to the daemons, by one of two paths. A daemon then
defines each task, and reports its statuses; the job follows its tasks, and its signals go to `App`.

* `gebrmJobGetPartialStatus`: the status by which `/close` and `/kill` judge a job.
* `gebrmDaemonGetListOfJobs`: the jobs that a forced disconnection kills.
* `step`: the maestro as a machine over the requests of clients, the paths of the runners, the
  messages of the daemons and the states of their connections.
* `killJobs_eq`: that list is lost, and no job is killed.

A task is named by its job and its fraction, a daemon by its address. The X11 forwards, the error
texts of a daemon and `/remove` are left out; no task is destroyed while its job lives.
-/

import Gebr.Comm.Server
import Gebr.Maestro.App
import Mathlib.Data.Int.Notation

namespace Gebr.Maestro.Gebrm

open Gebr.Comm
open Gebr.Maestro.App (GebrmApp Key gebrmAppNew gebrmAppJobControllerFind gebrmAppHandleRun
  onExecutionResponse onSignal onKill onClose)

section Model

/-- What the maestro sends to a daemon. -/
inductive Order where
  | run (id frac : ℕ)
  | kil (id : ℕ)
  | clr (id : ℕ)
  | harakiri
  deriving DecidableEq, Repr

/-- `GebrmDaemonPriv`, with the state of its server. `orders` is all that it was sent. -/
structure GebrmDaemon where
  state : GebrCommServerState
  isDisconnecting : Bool
  uncompletedTasks : ℤ
  tasks : List (ℕ × ℕ)
  orders : List Order
  deriving DecidableEq, Repr

/-- A task and its daemon; `mapped` is whether `tasks_map` holds it. -/
structure DaemonTask where
  daemon : String
  mapped : Bool
  task : GebrmTask
  deriving DecidableEq, Repr

/-- What a client is told about a daemon. -/
inductive Reply where
  | cfrm (address confirm : String)
  | sst (address : String) (state : GebrCommServerState)
  deriving DecidableEq, Repr

/-- The maestro. `tasks`, `total` and `hasIssued` are fields of `GebrmJobPriv`, by job; `ran` are
the jobs whose tasks were sent, and `idle` those whose `call_ran_func` is due. -/
structure Program where
  app : GebrmApp
  tasks : ℕ → List ℕ
  total : ℕ → ℕ
  hasIssued : ℕ → Bool
  task : ℕ → ℕ → Option DaemonTask
  daemon : String → Option GebrmDaemon
  ran : List ℕ
  idle : List ℕ
  replies : List (ℕ × Reply)

/-- `gebrm_daemon_new`. -/
def gebrmDaemonNew : GebrmDaemon := ⟨.disconnected, false, 0, [], []⟩

/-- A maestro that has been started, with some clients and some daemons. -/
def gebrmStart (connections : List ℕ) (daemons : List String) : Program where
  app := gebrmAppNew connections
  tasks _ := []
  total _ := 0
  hasIssued _ := false
  task _ _ := none
  daemon address := if address ∈ daemons then some gebrmDaemonNew else none
  ran := []
  idle := []
  replies := []

def Program.modifyDaemon (address : String) (change : GebrmDaemon → GebrmDaemon)
    (self : Program) : Program :=
  { self with daemon := Function.update self.daemon address ((self.daemon address).map change) }

/-- `gebr_comm_protocol_socket_oldmsg_send`, to a daemon. -/
def Program.send (address : String) (order : Order) (self : Program) : Program :=
  self.modifyDaemon address fun daemon => { daemon with orders := daemon.orders ++ [order] }

def Program.reply (client : ℕ) (reply : Reply) (self : Program) : Program :=
  { self with replies := self.replies ++ [(client, reply)] }

/-- `gebrm_task_get_status`; a task that is not known has not begun. -/
def Program.statusOf (self : Program) (id frac : ℕ) : JobStatus :=
  ((self.task id frac).map fun known => known.task.status).getD .initial

/-- `gebrm_job_get_queue`. -/
def gebrmJobGetQueue : Key → String
  | .num id => toString id
  | .other text => text

/-- A job as it follows its tasks. -/
def Program.job (self : Program) (id : ℕ) : GebrmJob where
  parentId := some (gebrmJobGetQueue (self.app.jobs id).parentId)
  tasks := self.tasks id
  total := self.total id
  status := (self.app.jobs id).status
  hasIssued := self.hasIssued id
  emitted := []

/-- The loop of `gebrm_job_get_partial_status`: the first status that is not `RUNNING`. -/
def firstNotRunning : List JobStatus → JobStatus
  | [] => .running
  | status :: rest => if status = .running then firstNotRunning rest else status

/-- `gebrm_job_get_partial_status`. -/
def gebrmJobGetPartialStatus (self : Program) (id : ℕ) : JobStatus :=
  if (self.app.jobs id).status = .queued then .queued
  else if self.tasks id = [] then .initial
  else if (self.tasks id).length = self.total id then (self.app.jobs id).status
  else firstNotRunning ((self.tasks id).map (self.statusOf id))

/-- `gebrm_job_can_close`. -/
def gebrmJobCanClose (self : Program) (id : ℕ) : Bool :=
  (gebrmJobGetPartialStatus self id).isStopped

/-- `gebrm_job_can_kill`. -/
def gebrmJobCanKill (self : Program) (id : ℕ) : Bool :=
  gebrmJobGetPartialStatus self id = .queued || gebrmJobGetPartialStatus self id = .running

/-- `gebrm_task_kill`. -/
def gebrmTaskKill (id frac : ℕ) (self : Program) : Program :=
  match self.task id frac with
  | none => self
  | some known => self.send known.daemon (.kil id)

/-- `gebrm_job_kill_tasks`. -/
def gebrmJobKillTasks (id : ℕ) (self : Program) : Program :=
  (self.tasks id).foldl (fun self frac => gebrmTaskKill id frac self) self

/-- `gebrm_job_kill`. -/
def gebrmJobKill (id : ℕ) (self : Program) : Program :=
  if gebrmJobCanKill self id = true then gebrmJobKillTasks id self else self

/-- `gebrm_job_kill_immediately`. -/
def gebrmJobKillImmediately (isoDate : String) (failing : List ℕ) (id : ℕ) (self : Program) :
    Program :=
  let self := gebrmJobKill id self
  { self with app := App.gebrmJobKillImmediately isoDate failing id self.app }

/-- `gebrm_task_close`. -/
def gebrmTaskClose (id frac : ℕ) (self : Program) : Program :=
  match self.task id frac with
  | none => self
  | some known =>
    let logged := (self.daemon known.daemon).any fun daemon => daemon.state = .logged
    let self := if logged = true then self.send known.daemon (.clr id) else self
    let closed := Function.update (self.task id) frac (some { known with mapped := false })
    { self with task := Function.update self.task id closed }

/-- `gebrm_job_close`: whether it closes, and what it does then. -/
def gebrmJobClose (id : ℕ) (self : Program) : Bool × Program :=
  if gebrmJobCanClose self id = false then (false, self)
  else (true, (self.tasks id).foldl (fun self frac => gebrmTaskClose id frac self) self)

/-- A signal of a job: `App` handles it, and a job that has failed kills its tasks. -/
def deliver (isoDate : String) (failing : List ℕ) (id : ℕ) (self : Program) (emission : Emission) :
    Program :=
  match emission with
  | .kil frac => gebrmTaskKill id frac self
  | .statusChange old new parameter =>
    let self := if new = .failed then gebrmJobKillTasks id self else self
    { self with app := onSignal isoDate failing id (.statusChange old new parameter) self.app }
  | other => { self with app := onSignal isoDate failing id other self.app }

/-- A job after one of its tasks: its fields are kept, and its signals delivered. -/
def settle (isoDate : String) (failing : List ℕ) (id : ℕ) (job : GebrmJob) (self : Program) :
    Program :=
  let tasks := Function.update self.tasks id job.tasks
  let hasIssued := Function.update self.hasIssued id job.hasIssued
  job.emitted.foldl (deliver isoDate failing id) { self with tasks := tasks, hasIssued := hasIssued }

/-- `gebr_comm_daemon_add_task`. -/
def gebrmDaemonIfaceAddTask (address : String) (self : Program) : Program :=
  self.modifyDaemon address fun daemon =>
    { daemon with uncompletedTasks := daemon.uncompletedTasks + 1 }

/-- The loop of `divide_and_run_flows`, from a fraction on. -/
def runFlows (id : ℕ) : ℕ → List String → Program → Program
  | _, [], self => self
  | frac, server :: servers, self =>
    runFlows id (frac + 1) servers ((gebrmDaemonIfaceAddTask server self).send server (.run id frac))

/-- `gebrm_job_set_total_tasks`. -/
def gebrmJobSetTotalTasks (id total : ℕ) (self : Program) : Program :=
  { self with total := Function.update self.total id total }

/-- `divide_and_run_flows`, up to `ran_func`. -/
def divideAndRunFlows (id : ℕ) (servers : List String) (self : Program) : Program :=
  gebrmJobSetTotalTasks id servers.length
    (runFlows id 1 servers { self with ran := id :: self.ran })

/-- `mpi_run_flow`, which leaves `ran_func` to an idle callback. -/
def mpiRunFlow (id : ℕ) (server : String) (self : Program) : Program :=
  { self with ran := id :: self.ran, idle := id :: self.idle }.send server (.run id 1)

/-- `gebrm_task_new`, with the entry in the table of the daemon. -/
def taskNew (address : String) (id frac : ℕ) (task : GebrmTask) (self : Program) : Program :=
  let known := Function.update (self.task id) frac (some ⟨address, true, task⟩)
  let self := { self with task := Function.update self.task id known }
  self.modifyDaemon address fun daemon => { daemon with tasks := daemon.tasks ++ [(id, frac)] }

/-- The `TSK` branch of `gebrm_server_op_parse_messages`, with
`gebrm_app_job_controller_on_task_def`. -/
def onTaskDef (isoDate : String) (failing : List ℕ) (address : String) (id frac : ℕ)
    (issues cmdLine : String) (self : Program) : Program :=
  let task : GebrmTask := ⟨.running, issues, cmdLine, "", none, ""⟩
  let self := taskNew address id frac task self
  match gebrmAppJobControllerFind (.num id) self.app with
  | none => self
  | some id =>
    settle isoDate failing id
      (gebrmJobAppendTask (self.statusOf id) isoDate frac task (self.job id)) self

/-- `gebrm_daemon_on_task_status_change`. -/
def gebrmDaemonOnTaskStatusChange (address : String) (newStatus : JobStatus) (self : Program) :
    Program :=
  if newStatus.isStopped = true then
    self.modifyDaemon address fun daemon =>
      { daemon with uncompletedTasks := daemon.uncompletedTasks - 1 }
  else self

/-- `gebrm_task_emit_status_changed_signal`: the handlers of the daemon and of the job. -/
def emitStatusChanged (isoDate : String) (failing : List ℕ) (id frac : ℕ) (known : DaemonTask)
    (newStatus : JobStatus) (parameter : String) (self : Program) : Program :=
  let told : DaemonTask := { known with task := taskSetStatus newStatus isoDate known.task }
  let self :=
    { self with task :=
      Function.update self.task id (Function.update (self.task id) frac (some told)) }
  let self := gebrmDaemonOnTaskStatusChange known.daemon newStatus self
  if frac ∈ self.tasks id then
    settle isoDate failing id
      (gebrmJobChangeTaskStatus (self.statusOf id) frac newStatus
        (some (statusParameter newStatus isoDate parameter)) (self.job id)) self
  else self

/-- `gebrm_server_op_state_changed`. -/
def gebrmServerOpStateChanged (address : String) (state : GebrCommServerState) (self : Program) :
    Program :=
  self.modifyDaemon address fun daemon =>
    let daemon := { daemon with state := state }
    if state = .disconnected then { daemon with uncompletedTasks := 0 } else daemon

/-- `get_jobs`: the list it has been given, with the job of one more task. -/
def getJobs (task : ℕ × ℕ) (jobs : List ℕ) : List ℕ := task.1 :: jobs

/-- `gebrm_daemon_get_list_of_jobs`. Each call of `get_jobs` gets the pointer by value, and what it
makes of it is lost. -/
def gebrmDaemonGetListOfJobs (daemon : GebrmDaemon) : List ℕ :=
  let jobs : List ℕ := []
  let _ := daemon.tasks.map fun task => getJobs task jobs
  jobs

/-- `gebrm_daemon_set_disconnecting`. -/
def gebrmDaemonSetDisconnecting (address : String) (setting : Bool) (self : Program) : Program :=
  self.modifyDaemon address fun daemon => { daemon with isDisconnecting := setting }

/-- The part that `/disconnect` and `/stop` share: the jobs of the daemon are killed. -/
def killJobs (isoDate : String) (failing : List ℕ) (address : String) (daemon : GebrmDaemon)
    (self : Program) : Program :=
  let self := gebrmDaemonSetDisconnecting address true self
  let self := (gebrmDaemonGetListOfJobs daemon).foldl
    (fun self id =>
      match gebrmAppJobControllerFind (.num id) self.app with
      | none => self
      | some id =>
        if gebrmJobCanKill self id = true then gebrmJobKillImmediately isoDate failing id self
        else self) self
  gebrmDaemonSetDisconnecting address false self

/-- `gebrm_daemon_disconnect`. A server that is disconnected already does not change its state. -/
def gebrmDaemonDisconnect (address : String) (self : Program) : Program :=
  let self := self.send address .harakiri
  if (self.daemon address).any (fun daemon => daemon.state ≠ .disconnected) = true then
    gebrmServerOpStateChanged address .disconnected self
  else self

/-- `/disconnect`. -/
def onDisconnect (isoDate : String) (failing : List ℕ) (client : ℕ) (address : String)
    (confirm : Option String) (self : Program) : Program :=
  match self.daemon address with
  | none => self
  | some daemon =>
    if confirm = some "remove" ∧ daemon.uncompletedTasks ≤ 0 then
      self.reply client (.cfrm address "remove-immediately")
    else if confirm = some "yes" ∨ daemon.uncompletedTasks ≤ 0 then
      gebrmDaemonDisconnect address (killJobs isoDate failing address daemon self)
    else if confirm = some "remove" then self.reply client (.cfrm address "remove")
    else self.reply client (.cfrm address "disconnect")

/-- `/stop`. The program on the other machine is killed, which ends the connection later. -/
def onStop (isoDate : String) (failing : List ℕ) (client : ℕ) (address : String)
    (confirm : Option String) (self : Program) : Program :=
  match self.daemon address with
  | none => self
  | some daemon =>
    if confirm = some "yes" ∨ daemon.uncompletedTasks ≤ 0 then
      (killJobs isoDate failing address daemon self).reply client (.sst address .disconnected)
    else self.reply client (.cfrm address "stop")

/-- `/close`: what `gebrm_job_close` says is not asked. -/
def onCloseRequest (id : Key) (self : Program) : Program :=
  match gebrmAppJobControllerFind id self.app with
  | none => self
  | some job =>
    let self := (gebrmJobClose job self).2
    { self with app := onClose id self.app }

/-- `/kill`. -/
def onKillRequest (isoDate : String) (failing : List ℕ) (id : Key) (self : Program) : Program :=
  match gebrmAppJobControllerFind id self.app with
  | none => self
  | some job =>
    if (self.app.jobs job).status = .queued then
      { self with app := onKill isoDate failing id self.app }
    else gebrmJobKill job self

/-- What the maestro receives. -/
inductive Event where
  | run (parentId : Key) (servers : Bool) (mpiIssueMessage : String)
  | close (id : Key)
  | kill (id : Key)
  | disconnect (client : ℕ) (address : String) (confirm : Option String)
  | stop (client : ℕ) (address : String) (confirm : Option String)
  /-- The last server has answered the runner of a job: `divide_and_run_flows`. -/
  | divideAndRun (id : ℕ) (servers : List String)
  /-- The same, for a flow with MPI programs: `mpi_run_flow`. -/
  | mpiRun (id : ℕ) (server : String)
  /-- `call_ran_func`. -/
  | callRanFunc (id : ℕ)
  /-- `TSK`. -/
  | taskDef (address : String) (id frac : ℕ) (issues cmdLine : String)
  /-- `STA`. -/
  | status (id frac : ℕ) (newStatus : JobStatus) (parameter : String)
  /-- The server of a daemon changes its state. -/
  | stateChanged (address : String) (state : GebrCommServerState)
  deriving DecidableEq, Repr

/-- An event, with the clock as text and the runners that cannot be started meanwhile. -/
structure Input where
  event : Event
  isoDate : String
  failing : List ℕ
  deriving DecidableEq, Repr

/-- The daemon has been sent the task. -/
def Program.hasRun (self : Program) (address : String) (id frac : ℕ) : Bool :=
  (self.daemon address).any fun daemon => Order.run id frac ∈ daemon.orders

/-- **The maestro takes one event.** A runner runs once; a daemon defines each task it has been sent
once, and reports statuses up to a terminal one. A report about a task that has been closed ends the
maestro: `gebrm_task_find` gives `NULL`. -/
def step (self : Program) (input : Input) : Option Program :=
  let isoDate := input.isoDate
  let failing := input.failing
  match input.event with
  | .run parentId servers mpiIssueMessage =>
    some { self with
      app := gebrmAppHandleRun isoDate failing parentId servers mpiIssueMessage self.app }
  | .close id => some (onCloseRequest id self)
  | .kill id => some (onKillRequest isoDate failing id self)
  | .disconnect client address confirm =>
    some (onDisconnect isoDate failing client address confirm self)
  | .stop client address confirm => some (onStop isoDate failing client address confirm self)
  | .divideAndRun id servers =>
    if id ∈ self.app.awaiting ∧ id ∉ self.ran ∧ servers ≠ [] ∧
        ∀ server ∈ servers, (self.daemon server).isSome = true then
      let self := divideAndRunFlows id servers self
      (onExecutionResponse isoDate failing id self.app).map fun app => { self with app := app }
    else none
  | .mpiRun id server =>
    if id ∈ self.app.awaiting ∧ id ∉ self.ran ∧ (self.daemon server).isSome = true then
      some (mpiRunFlow id server self)
    else none
  | .callRanFunc id =>
    if id ∈ self.idle then
      let self := gebrmJobSetTotalTasks id 1 { self with idle := self.idle.erase id }
      (onExecutionResponse isoDate failing id self.app).map fun app => { self with app := app }
    else none
  | .taskDef address id frac issues cmdLine =>
    if self.hasRun address id frac = true ∧ self.task id frac = none then
      some (onTaskDef isoDate failing address id frac issues cmdLine self)
    else none
  | .status id frac newStatus parameter =>
    match self.task id frac with
    | none => none
    | some known =>
      if known.mapped = true ∧ known.task.status.isStopped = false then
        some (emitStatusChanged isoDate failing id frac known newStatus parameter self)
      else none
  | .stateChanged address state =>
    if (self.daemon address).any (fun daemon => daemon.state ≠ state) = true then
      some (gebrmServerOpStateChanged address state self)
    else none

end Model

section Killing

variable {isoDate : String} {failing : List ℕ}

/-- So no job is killed. -/
theorem killJobs_eq (address : String) (daemon : GebrmDaemon) (self : Program) :
    killJobs isoDate failing address daemon self =
      gebrmDaemonSetDisconnecting address false (gebrmDaemonSetDisconnecting address true self) :=
  rfl

end Killing

end Gebr.Maestro.Gebrm
