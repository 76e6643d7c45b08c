/-
**The maestro's queues of jobs.**

A `/run` request makes a job, with a runner that starts it. A job that names a live parent waits in
the children list of the parent, and its runner is started when the parent stops; every other job is
a root, and waits in `job_run_queue`, whose head has been started. The definition of a job is sent
to the clients later: until then the job is in `job_def_queue`.

* `gebrmAppJobControllerOnStatusChange`: the signal handler of a job; it starts the children of a
  job that stops, and runs again for a child that cannot be started.
* `step`: the maestro as a machine over requests, execution responses and signals of jobs.
* `onStatusChange_keep`: what starting, cancelling and telling keeps, the handler keeps.

A client is named by a number, and a job by its id; `sent` is all that the clients are sent, in
order.
-/

import Gebr.Maestro.Job

namespace Gebr.Maestro.App

open Gebr.Comm

section Model

/-- An id as a request gives it: the decimal text of a number, or some other text. -/
inductive Key where
  | num (id : ℕ)
  | other (text : String)
  deriving DecidableEq, Repr

/-- A message to a client about a job. -/
inductive Message where
  | job (id : ℕ) (status : JobStatus) (parentId : Key)
  | sta (id : ℕ) (status : JobStatus) (parameter : Option String)
  | iss (id : ℕ) (issues : Option String)
  | cmd (id frac : ℕ) (cmdLine : String)
  | out (id frac : ℕ) (output : String)
  | jcl (id : ℕ)
  deriving DecidableEq, Repr

/-- A job, as the queues see it; `listed` is whether `app->priv->jobs` holds it. A child is a runner
and its job. -/
structure AppJob where
  parentId : Key
  status : JobStatus
  listed : Bool
  children : List ℕ
  deriving DecidableEq, Repr

/-- `GebrmAppPriv`, with the counter of `gebrm_job_new`. `roots` are the runners ever pushed to
`job_run_queue`, `started` those whose start succeeded, `awaiting` those that have not responded
since, and `announced` the jobs whose definition was sent to all clients. -/
structure GebrmApp where
  jobs : ℕ → AppJob
  counter : ℕ
  connections : List ℕ
  jobDefQueue : List ℕ
  jobRunQueue : List ℕ
  sent : List (ℕ × Message)
  announced : List ℕ
  roots : List ℕ
  started : List ℕ
  awaiting : List ℕ

/-- A maestro that has been started, with some clients. -/
def gebrmAppNew (connections : List ℕ) : GebrmApp :=
  ⟨fun _ => ⟨.other "", .initial, false, []⟩, 0, connections, [], [], [], [], [], [], []⟩

def GebrmApp.modifyJob (id : ℕ) (change : AppJob → AppJob) (app : GebrmApp) : GebrmApp :=
  { app with jobs := Function.update app.jobs id (change (app.jobs id)) }

/-- `gebrm_job_set_status`. -/
def gebrmJobSetStatus (id : ℕ) (status : JobStatus) (app : GebrmApp) : GebrmApp :=
  app.modifyJob id fun job => { job with status := status }

/-- `gebrm_job_set_queue`. -/
def gebrmJobSetQueue (id : ℕ) (parentId : Key) (app : GebrmApp) : GebrmApp :=
  app.modifyJob id fun job => { job with parentId := parentId }

/-- `g_object_set_data` of `"children"`. -/
def setChildren (id : ℕ) (children : List ℕ) (app : GebrmApp) : GebrmApp :=
  app.modifyJob id fun job => { job with children := children }

/-- `gebrm_app_job_controller_find`. -/
def gebrmAppJobControllerFind (id : Key) (app : GebrmApp) : Option ℕ :=
  match id with
  | .num id => if id < app.counter ∧ (app.jobs id).listed = true then some id else none
  | .other _ => none

/-- `gebr_comm_protocol_socket_oldmsg_send` to every client. -/
def GebrmApp.broadcast (message : Message) (app : GebrmApp) : GebrmApp :=
  { app with sent := app.sent ++ app.connections.map fun client => (client, message) }

/-- The definition of a job, as it is now. -/
def GebrmApp.jobDef (app : GebrmApp) (id : ℕ) : Message :=
  .job id (app.jobs id).status (app.jobs id).parentId

/-- `send_job_def_to_clients`. -/
def sendJobDefToClients (id : ℕ) (app : GebrmApp) : GebrmApp :=
  let app := app.broadcast (app.jobDef id)
  { app with announced := app.announced ++ [id] }

/-- A successful `gebr_comm_runner_run_async`. -/
def gebrCommRunnerRunAsync (id : ℕ) (app : GebrmApp) : GebrmApp :=
  { app with started := app.started ++ [id], awaiting := app.awaiting ++ [id] }

/-- The loop over `job_def_queue` when a job starts to run. -/
def flushJobDefQueue (app : GebrmApp) : GebrmApp :=
  app.jobDefQueue.foldl (fun app id => sendJobDefToClients id app) { app with jobDefQueue := [] }

/-- The second loop of the handler, for one client. -/
def tellClient (id : ℕ) (old new : JobStatus) (parameter : Option String) (app : GebrmApp)
    (client : ℕ) : GebrmApp :=
  let app := { app with sent := app.sent ++ [(client, .sta id new parameter)] }
  if old = .initial ∧ new = .running then flushJobDefQueue app else app

/-- The second loop of the handler. -/
def tellStatus (id : ℕ) (old new : JobStatus) (parameter : Option String) (app : GebrmApp) :
    GebrmApp :=
  app.connections.foldl (tellClient id old new parameter) app

/-- `gebrm_app_job_controller_on_status_change`. The runners in `failing` cannot be started: their
jobs are killed, which calls the handler again. `fuel` bounds the depth of these calls. -/
def gebrmAppJobControllerOnStatusChange (isoDate : String) (failing : List ℕ) :
    ℕ → ℕ → JobStatus → JobStatus → Option String → GebrmApp → GebrmApp
  | 0, _, _, _, _, app => app
  | fuel + 1, id, old, new, parameter, app =>
    let app :=
      if new.isStopped = true then
        setChildren id [] <| (app.jobs id).children.foldl
          (fun app child =>
            if child ∈ failing then
              -- `gebrm_job_kill_immediately`.
              gebrmAppJobControllerOnStatusChange isoDate failing fuel child
                (app.jobs child).status .canceled (some isoDate)
                (gebrmJobSetStatus child .canceled app)
            else gebrCommRunnerRunAsync child app)
          app
      else app
    tellStatus id old new parameter app

/-- `gebrm_job_kill_immediately`. A handler calls itself for younger jobs only, so the number of
jobs is fuel enough. -/
def gebrmJobKillImmediately (isoDate : String) (failing : List ℕ) (id : ℕ) (app : GebrmApp) :
    GebrmApp :=
  gebrmAppJobControllerOnStatusChange isoDate failing app.counter id (app.jobs id).status .canceled
    (some isoDate) (gebrmJobSetStatus id .canceled app)

/-- The live parent that `/run` finds: in the table, and not to `run_immediately`. -/
def liveParent (parentId : Key) (app : GebrmApp) : Option ℕ :=
  match gebrmAppJobControllerFind parentId app with
  | none => none
  | some parent =>
    let status := (app.jobs parent).status
    if status ≠ .queued ∧ status ≠ .running ∧ status ≠ .initial then none else some parent

/-- `g_queue_insert_after` the link of the parent, if there is one. -/
def insertAfter (parent id : ℕ) : List ℕ → List ℕ
  | [] => []
  | first :: rest => if first = parent then first :: id :: rest else first :: insertAfter
      parent id rest

/-- `gebrm_app_handle_run`; without `servers` no processing node supports the flow. -/
def gebrmAppHandleRun (isoDate : String) (failing : List ℕ) (parentId : Key) (servers : Bool)
    (mpiIssueMessage : String) (app : GebrmApp) : GebrmApp :=
  let id := app.counter
  let status := if parentId ≠ .other "" then .queued else .initial
  let job : AppJob := ⟨parentId, status, true, []⟩
  let app := { app with jobs := Function.update app.jobs id job, counter := id + 1 }
  if servers = false then
    let app := gebrmJobSetStatus id .failed app
    let told := app.connections.flatMap fun client =>
      [(client, app.jobDef id), (client, .iss id (some mpiIssueMessage))]
    { app with sent := app.sent ++ told, announced := app.announced ++ [id] }
  else
    match liveParent parentId app with
    | none =>
      let app := { app with jobDefQueue := id :: app.jobDefQueue }
      let app :=
        if app.jobRunQueue = [] then
          if id ∈ failing then gebrmJobKillImmediately isoDate failing id app
          else gebrCommRunnerRunAsync id app
        else app
      { app with jobRunQueue := app.jobRunQueue ++ [id], roots := app.roots ++ [id] }
    | some parent =>
      let app := { app with jobDefQueue := insertAfter parent id app.jobDefQueue }
      let app := setChildren parent (id :: (app.jobs parent).children) app
      if app.jobDefQueue = [] then sendJobDefToClients id app else app

/-- `on_execution_response`. A runner that cannot be started, and whose job is not in the table,
ends the maestro. -/
def onExecutionResponse (isoDate : String) (failing : List ℕ) (id : ℕ) (app : GebrmApp) :
    Option GebrmApp :=
  let app := { app with awaiting := app.awaiting.erase id, jobDefQueue := app.jobDefQueue.tail }
  let app := sendJobDefToClients id app
  let app := { app with jobRunQueue := app.jobRunQueue.tail }
  match app.jobRunQueue with
  | [] => some app
  | nextRun :: _ =>
    if nextRun ∈ failing then
      match gebrmAppJobControllerFind (.num nextRun) app with
      | none => none
      | some job => some (gebrmJobKillImmediately isoDate failing job app)
    else some (gebrCommRunnerRunAsync nextRun app)

/-- `/kill` for a job that is queued. `g_list_remove` clears the link that the loop over the
children stands on, so that the loop moves the first child only. -/
def killQueued (isoDate : String) (failing : List ℕ) (id : ℕ) (app : GebrmApp) : GebrmApp :=
  let parentId := (app.jobs id).parentId
  let parent := gebrmAppJobControllerFind parentId app
  let childParent := (parent.elim [] fun parent => (app.jobs parent).children).erase id
  let childJob := (app.jobs id).children
  let app :=
    match childJob with
    | [] =>
      let app := parent.elim app fun parent => setChildren parent childParent app
      setChildren id [] app
    | child :: rest =>
      let app := gebrmJobSetQueue child parentId app
      let app := sendJobDefToClients child app
      let app := parent.elim app fun parent => setChildren parent (child :: childParent) app
      setChildren id rest app
  -- `gebrm_job_unqueue`.
  gebrmAppJobControllerOnStatusChange isoDate failing app.counter id .queued .canceled (some isoDate)
    (gebrmJobSetStatus id .canceled app)

/-- What the maestro receives. -/
inductive Event where
  /-- `/run`. -/
  | run (parentId : Key) (servers : Bool) (mpiIssueMessage : String)
  /-- The runner of a job has sent the job to its servers. -/
  | executionResponse (id : ℕ)
  /-- A job emits a signal, because of one of its tasks. -/
  | signal (id : ℕ) (emission : Emission)
  /-- `/kill`. -/
  | kill (id : Key)
  /-- `/close`. -/
  | close (id : Key)
  deriving DecidableEq, Repr

/-- An event, with the clock as text and the runners that cannot be started meanwhile. -/
structure Input where
  event : Event
  isoDate : String
  failing : List ℕ
  deriving DecidableEq, Repr

/-- The job has tasks, and they may make it emit the signal: it leaves a status that is not stopped
for `RUNNING` or for a terminal one, or falls back to `INITIAL` when a task is destroyed. -/
def Emits (app : GebrmApp) (id : ℕ) : Emission → Prop
  | .statusChange old new _ => id ∈ app.started ∧ old = (app.jobs id).status ∧
    ((old.isStopped = false ∧ (new = .running ∨ new.isStopped = true)) ∨
      (old ≠ .initial ∧ new = .initial))
  | .issued _ => id ∈ app.started
  | .cmdLineReceived _ _ => id ∈ app.started
  | .output _ _ => id ∈ app.started
  | .disconnect => id ∈ app.started
  | .kil _ => False

instance (app : GebrmApp) (id : ℕ) (emission : Emission) : Decidable (Emits app id emission) := by
  cases emission <;> unfold Emits <;> infer_instance

/-- The handlers of the signals of a job. -/
def onSignal (isoDate : String) (failing : List ℕ) (id : ℕ) (emission : Emission) (app : GebrmApp) :
    GebrmApp :=
  match emission with
  | .statusChange old new parameter =>
    gebrmAppJobControllerOnStatusChange isoDate failing app.counter id old new parameter
      (gebrmJobSetStatus id new app)
  | .issued parameter => app.broadcast (.iss id parameter)
  | .cmdLineReceived frac cmdLine => app.broadcast (.cmd id frac cmdLine)
  | .output frac output => app.broadcast (.out id frac output)
  -- The last task is gone: the status has changed, but nothing was said.
  | .disconnect => gebrmJobSetStatus id .initial app
  | .kil _ => app

/-- `/kill`. A job that is not queued has its tasks killed, which is not our business here. -/
def onKill (isoDate : String) (failing : List ℕ) (id : Key) (app : GebrmApp) : GebrmApp :=
  match gebrmAppJobControllerFind id app with
  | none => app
  | some job =>
    if (app.jobs job).status = .queued then killQueued isoDate failing job app else app

/-- `/close`. -/
def onClose (id : Key) (app : GebrmApp) : GebrmApp :=
  match gebrmAppJobControllerFind id app with
  | none => app
  | some job =>
    let app := app.modifyJob job fun job => { job with listed := false }
    app.broadcast (.jcl job)

/-- **The maestro takes one event.** -/
def step (app : GebrmApp) (input : Input) : Option GebrmApp :=
  match input.event with
  | .run parentId servers mpiIssueMessage =>
    some (gebrmAppHandleRun input.isoDate input.failing parentId servers mpiIssueMessage app)
  | .executionResponse id =>
    if id ∈ app.awaiting then onExecutionResponse input.isoDate input.failing id app else none
  | .signal id emission =>
    if Emits app id emission then some (onSignal input.isoDate input.failing id emission app)
    else none
  | .kill id => some (onKill input.isoDate input.failing id app)
  | .close id => some (onClose id app)

end Model

section Fields

variable (id other : ℕ) (app : GebrmApp)

@[simp] theorem jobs_setStatus (status : JobStatus) :
    (gebrmJobSetStatus id status app).jobs other =
      if other = id then { app.jobs id with status := status } else app.jobs other := by
  unfold gebrmJobSetStatus GebrmApp.modifyJob
  exact Function.update_apply app.jobs id _ other

@[simp] theorem jobs_setQueue (parentId : Key) :
    (gebrmJobSetQueue id parentId app).jobs other =
      if other = id then { app.jobs id with parentId := parentId } else app.jobs other := by
  unfold gebrmJobSetQueue GebrmApp.modifyJob
  exact Function.update_apply app.jobs id _ other

@[simp] theorem jobs_setChildren (children : List ℕ) :
    (setChildren id children app).jobs other =
      if other = id then { app.jobs id with children := children } else app.jobs other := by
  unfold setChildren GebrmApp.modifyJob
  exact Function.update_apply app.jobs id _ other

theorem children_setStatus (status : JobStatus) :
    ((gebrmJobSetStatus id status app).jobs other).children = (app.jobs other).children := by
  rw [jobs_setStatus]
  split_ifs with same
  · rw [same]
  · rfl

theorem children_setQueue (parentId : Key) :
    ((gebrmJobSetQueue id parentId app).jobs other).children = (app.jobs other).children := by
  rw [jobs_setQueue]
  split_ifs with same
  · rw [same]
  · rfl

theorem children_setChildren (children : List ℕ) :
    ((setChildren id children app).jobs other).children =
      if other = id then children else (app.jobs other).children := by
  rw [jobs_setChildren]
  split_ifs <;> rfl

theorem children_unlisted :
    (Function.update app.jobs id { app.jobs id with listed := false } other).children =
      (app.jobs other).children := by
  rw [Function.update_apply]
  split_ifs with same
  · rw [same]
  · rfl

end Fields

section Lookup

variable {app : GebrmApp} {parentId : Key} {parent : ℕ}

/-- What is found in the table is the job that the key names. -/
theorem find_some (found : gebrmAppJobControllerFind parentId app = some parent) :
    parentId = .num parent ∧ parent < app.counter := by
  cases parentId with
  | other text => cases found
  | num id =>
    simp only [gebrmAppJobControllerFind] at found
    split at found
    · rename_i known
      obtain rfl := Option.some.inj found
      exact ⟨rfl, known.1⟩
    · cases found

/-- **The live parent** is found in the table, and is not stopped. -/
theorem liveParent_some (found : liveParent parentId app = some parent) :
    gebrmAppJobControllerFind parentId app = some parent ∧
      (app.jobs parent).status.isStopped = false := by
  unfold liveParent at found
  split at found
  · cases found
  · rename_i job listed
    dsimp only at found
    split at found
    · cases found
    · rename_i live
      obtain rfl := Option.some.inj found
      refine ⟨listed, ?_⟩
      cases status : (app.jobs job).status <;> rw [status] at live <;> revert live <;> decide

theorem mem_children_of_update {id other child : ℕ} {job : AppJob} (childless : job.children = [])
    (member : child ∈ (Function.update app.jobs id job other).children) :
    child ∈ (app.jobs other).children := by
  rw [Function.update_apply] at member
  split at member
  · rw [childless] at member
    exact absurd member List.not_mem_nil
  · exact member

/-- The other children of a parent are children of a job. -/
theorem exists_children_of_siblings {job child : ℕ}
    (member : child ∈ ((gebrmAppJobControllerFind parentId app).elim []
      fun parent => (app.jobs parent).children).erase job) :
    ∃ parent, child ∈ (app.jobs parent).children := by
  have sibling := List.mem_of_mem_erase member
  cases found : gebrmAppJobControllerFind parentId app with
  | none =>
    rw [found] at sibling
    exact absurd sibling List.not_mem_nil
  | some parent =>
    rw [found] at sibling
    exact ⟨parent, sibling⟩

end Lookup

section Handler

variable {isoDate : String} {failing : List ℕ}

/-- The flush announces all that the queue holds, in its order. -/
theorem flushJobDefQueue_eq (app : GebrmApp) :
    flushJobDefQueue app =
      { app with
        jobDefQueue := [], announced := app.announced ++ app.jobDefQueue,
        sent := app.sent ++ app.jobDefQueue.flatMap fun id =>
          app.connections.map fun client => (client, app.jobDef id) } := by
  have loop : ∀ (queue : List ℕ) (start : GebrmApp),
      queue.foldl (fun app id => sendJobDefToClients id app) start =
        { start with
          announced := start.announced ++ queue,
          sent := start.sent ++ queue.flatMap fun id =>
            start.connections.map fun client => (client, start.jobDef id) } := by
    intro queue
    induction queue with
    | nil =>
      intro start
      rw [List.foldl_nil, List.flatMap_nil, List.append_nil, List.append_nil]
    | cons id queue ih =>
      intro start
      rw [List.foldl_cons, ih]
      simp only [sendJobDefToClients, GebrmApp.broadcast, List.flatMap_cons, List.append_assoc,
        List.singleton_append, GebrmApp.jobDef]
  unfold flushJobDefQueue
  rw [loop]
  rfl

/-- Unless a job starts to run, the clients are told its status, and that is all. -/
theorem tellStatus_eq {old new : JobStatus} (quiet : ¬ (old = .initial ∧ new = .running)) (id : ℕ)
    (parameter : Option String) (app : GebrmApp) :
    tellStatus id old new parameter app = app.broadcast (.sta id new parameter) := by
  have loop : ∀ (clients : List ℕ) (start : GebrmApp),
      clients.foldl (tellClient id old new parameter) start =
        { start with sent := start.sent ++
            clients.map fun client => (client, Message.sta id new parameter) } := by
    intro clients
    induction clients with
    | nil =>
      intro start
      rw [List.foldl_nil, List.map_nil, List.append_nil]
    | cons client clients ih =>
      intro start
      rw [List.foldl_cons, ih, tellClient, if_neg quiet]
      simp only [List.map_cons, List.append_assoc, List.singleton_append]
  exact loop app.connections app

/-- Telling a status is the business of `job_def_queue` and of the clients. -/
theorem tellStatus_frame (id : ℕ) (old new : JobStatus) (parameter : Option String)
    (app : GebrmApp) :
    ∃ queue announced sent, tellStatus id old new parameter app =
      { app with jobDefQueue := queue, announced := announced, sent := sent } := by
  have one : ∀ (client : ℕ) (start : GebrmApp), ∃ queue announced sent,
      tellClient id old new parameter start client =
        { start with jobDefQueue := queue, announced := announced, sent := sent } := by
    intro client start
    unfold tellClient
    split_ifs
    · exact ⟨_, _, _, flushJobDefQueue_eq _⟩
    · exact ⟨_, _, _, rfl⟩
  have loop : ∀ (clients : List ℕ) (start : GebrmApp), ∃ queue announced sent,
      clients.foldl (tellClient id old new parameter) start =
        { start with jobDefQueue := queue, announced := announced, sent := sent } := by
    intro clients
    induction clients with
    | nil => exact fun start => ⟨start.jobDefQueue, start.announced, start.sent, rfl⟩
    | cons client clients ih =>
      intro start
      obtain ⟨queue, announced, sent, same⟩ := one client start
      rw [List.foldl_cons, same]
      exact ih _
  exact loop app.connections app

/-- A status that is not terminal is only told. -/
theorem onStatusChange_live (isoDate : String) (failing : List ℕ) {new : JobStatus}
    (live : new.isStopped = false) (fuel id : ℕ) (old : JobStatus) (parameter : Option String)
    (app : GebrmApp) :
    ∃ queue announced sent,
      gebrmAppJobControllerOnStatusChange isoDate failing fuel id old new parameter app =
        { app with jobDefQueue := queue, announced := announced, sent := sent } := by
  cases fuel with
  | zero => exact ⟨app.jobDefQueue, app.announced, app.sent, rfl⟩
  | succ fuel =>
    unfold gebrmAppJobControllerOnStatusChange
    rw [if_neg (by rw [live]; exact Bool.false_ne_true)]
    exact tellStatus_frame id old new parameter app

/-- **What starting, cancelling and telling keeps, the handler keeps.** `Q` is what is known of the
children, and `S` of a job that is spoken of. -/
theorem onStatusChange_keep {inv : GebrmApp → Prop} {Q S : ℕ → Prop}
    (kids : ∀ app id, inv app → ∀ child ∈ (app.jobs id).children, Q child)
    (speak : ∀ child, Q child → child ∈ failing → S child)
    (start : ∀ app child, inv app → Q child → child ∉ failing →
      inv (gebrCommRunnerRunAsync child app))
    (cancel : ∀ app child, inv app → Q child → inv (gebrmJobSetStatus child .canceled app))
    (clear : ∀ app id, inv app → inv (setChildren id [] app))
    (tell : ∀ app id status parameter, inv app → S id →
      inv (app.broadcast (.sta id status parameter)))
    (fuel : ℕ) {id : ℕ} {old new : JobStatus} {parameter : Option String} {app : GebrmApp}
    (quiet : ¬ (old = .initial ∧ new = .running)) (good : inv app) (spoken : S id) :
    inv (gebrmAppJobControllerOnStatusChange isoDate failing fuel id old new parameter app) := by
  induction fuel generalizing id old new parameter app with
  | zero => exact good
  | succ fuel ih =>
    unfold gebrmAppJobControllerOnStatusChange
    rw [tellStatus_eq quiet]
    refine tell _ id new parameter ?_ spoken
    split
    · refine clear _ id ?_
      -- Each child is started, or killed, in turn.
      have loop : ∀ (children : List ℕ) (mid : GebrmApp), inv mid → (∀ child ∈ children, Q child) →
          inv (children.foldl
            (fun app child =>
              if child ∈ failing then
                gebrmAppJobControllerOnStatusChange isoDate failing fuel child
                  (app.jobs child).status .canceled (some isoDate)
                  (gebrmJobSetStatus child .canceled app)
              else gebrCommRunnerRunAsync child app) mid) := by
        intro children
        induction children with
        | nil => exact fun mid good _ => good
        | cons child children ihList =>
          intro mid good known
          rw [List.forall_mem_cons] at known
          rw [List.foldl_cons]
          refine ihList _ ?_ known.2
          split
          · rename_i fails
            exact ih (fun both => JobStatus.noConfusion both.2) (cancel mid child good known.1)
              (speak child known.1 fails)
          · rename_i starts
            exact start mid child good known.1 starts
      exact loop _ app good (kids app id good)
    · exact good

/-- What a response does before it starts the next runner. -/
def responded (id : ℕ) (app : GebrmApp) : GebrmApp :=
  let app := { app with awaiting := app.awaiting.erase id, jobDefQueue := app.jobDefQueue.tail }
  let app := sendJobDefToClients id app
  { app with jobRunQueue := app.jobRunQueue.tail }

/-- **All that a response does**: the next runner of the queue, if there is one, is started, or its
job is killed. -/
theorem onExecutionResponse_some {id : ℕ} {app next : GebrmApp}
    (taken : onExecutionResponse isoDate failing id app = some next) :
    app.jobRunQueue.tail = [] ∧ next = responded id app ∨
      ∃ nextRun rest, app.jobRunQueue.tail = nextRun :: rest ∧
        (nextRun ∉ failing ∧ next = gebrCommRunnerRunAsync nextRun (responded id app) ∨
          nextRun ∈ failing ∧
            next = gebrmJobKillImmediately isoDate failing nextRun (responded id app)) := by
  have queues : (responded id app).jobRunQueue = app.jobRunQueue.tail := rfl
  have taken' : (match (responded id app).jobRunQueue with
      | [] => some (responded id app)
      | nextRun :: _ =>
        if nextRun ∈ failing then
          match gebrmAppJobControllerFind (.num nextRun) (responded id app) with
          | none => none
          | some job => some (gebrmJobKillImmediately isoDate failing job (responded id app))
        else some (gebrCommRunnerRunAsync nextRun (responded id app))) = some next := taken
  rw [queues] at taken'
  cases queue : app.jobRunQueue.tail with
  | nil =>
    rw [queue] at taken'
    exact Or.inl ⟨rfl, (Option.some.inj taken').symm⟩
  | cons nextRun rest =>
    rw [queue] at taken'
    refine Or.inr ⟨nextRun, rest, rfl, ?_⟩
    dsimp only at taken'
    split at taken'
    · rename_i fails
      simp only [gebrmAppJobControllerFind] at taken'
      split at taken'
      · cases taken'
      · rename_i job found
        split at found
        · obtain rfl := Option.some.inj found
          exact Or.inr ⟨fails, (Option.some.inj taken').symm⟩
        · cases found
    · rename_i begins
      exact Or.inl ⟨begins, (Option.some.inj taken').symm⟩

/-- **All that a request does** with the new job: it has failed at once, or it is a root, which is
started when no other runs, or it goes to a parent. -/
theorem gebrmAppHandleRun_cases (isoDate : String) (failing : List ℕ) (parentId : Key) (servers : Bool)
    (mpiIssueMessage : String) (app : GebrmApp) :
    ∃ job made next, job.parentId = parentId ∧ job.listed = true ∧ job.children = [] ∧
      made = { app with jobs := Function.update app.jobs app.counter job, counter :=
      app.counter + 1 } ∧ gebrmAppHandleRun isoDate failing parentId servers mpiIssueMessage app =
        next ∧
      ((servers = false ∧ ∃ failed, failed = gebrmJobSetStatus app.counter .failed made ∧
          next = { failed with
            sent := failed.sent ++ failed.connections.flatMap fun client =>
              [(client, failed.jobDef app.counter), (client, .iss app.counter (some mpiIssueMessage))]
            announced := failed.announced ++ [app.counter] }) ∨
        (servers = true ∧ ∃ queued started,
          queued = { made with jobDefQueue := app.counter :: app.jobDefQueue } ∧
          (app.jobRunQueue = [] ∧ app.counter ∈ failing ∧
              started = gebrmJobKillImmediately isoDate failing app.counter queued ∨
            app.jobRunQueue = [] ∧ app.counter ∉ failing ∧
              started = gebrCommRunnerRunAsync app.counter queued ∨
            app.jobRunQueue ≠ [] ∧ started = queued) ∧
          next = { started with jobRunQueue := started.jobRunQueue ++ [app.counter],
                                roots := started.roots ++ [app.counter] }) ∨
        (servers = true ∧ ∃ parent adopted, liveParent parentId made = some parent ∧
          adopted = setChildren parent (app.counter :: (made.jobs parent).children)
            { made with jobDefQueue := insertAfter parent app.counter app.jobDefQueue } ∧
          (insertAfter parent app.counter app.jobDefQueue ≠ [] ∧ next = adopted ∨
            insertAfter parent app.counter app.jobDefQueue = [] ∧
              next = sendJobDefToClients app.counter adopted))) := by
  unfold gebrmAppHandleRun
  dsimp only
  generalize newJob :
    AppJob.mk parentId (if parentId ≠ .other "" then .queued else .initial) true [] = job
  refine ⟨job, _, _, by rw [← newJob], by rw [← newJob], by rw [← newJob], rfl, rfl, ?_⟩
  cases servers with
  | false =>
    rw [if_pos rfl]
    exact .inl ⟨rfl, _, rfl, rfl⟩
  | true =>
    rw [if_neg (by decide)]
    split
    · refine .inr (.inl ⟨rfl, _, _, rfl, ?_, rfl⟩)
      split_ifs with idle fails
      · exact .inl ⟨idle, fails, rfl⟩
      · exact .inr (.inl ⟨idle, fails, rfl⟩)
      · exact .inr (.inr ⟨idle, rfl⟩)
    · rename_i parent found
      refine .inr (.inr ⟨rfl, parent, _, found, rfl, ?_⟩)
      split
      · rename_i none
        exact .inr ⟨none, rfl⟩
      · rename_i queue
        exact .inl ⟨queue, rfl⟩

end Handler

end Gebr.Maestro.App
