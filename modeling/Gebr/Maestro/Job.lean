/-
**A job on the maestro: a status kept from the statuses of its tasks.**

A job runs as `total` tasks, one on each server. Tasks are appended as the daemons announce them,
report their status while they run, and can be destroyed. Three functions write the status of the
job: `gebrm_job_change_task_status`, called by reports and by `gebrm_job_append_task`, and
`on_task_destroy`.

* `changeTaskStatus_stopped`: a job that is stopped answers every report with a kill, and does
  nothing else.
* `changeTaskStatus_live`: all that a report does to a job that is not stopped.
* `step`: a job and its tasks as a machine over appends, reports and destructions;
  `step_append_some` and its siblings say all that a step of each kind does.
-/

import Gebr.Comm.JobStatus
import Gebr.Lib.Run
import Mathlib.Logic.Function.Basic

namespace Gebr.Maestro

open Gebr.Comm

section Model

/-- A task, as its job reads it. `startDate` is `NULL` while it is empty. -/
structure GebrmTask where
  status : JobStatus
  issues : String
  cmdLine : String
  output : String
  startDate : Option String
  finishDate : String
  deriving DecidableEq, Repr

/-- What a job sends out: its signals, and the `KIL` message to the daemon of a task. Tasks are
named by their fraction. -/
inductive Emission where
  | statusChange (old new : JobStatus) (parameter : Option String)
  | issued (parameter : Option String)
  | cmdLineReceived (frac : ℕ) (cmdLine : String)
  | output (frac : ℕ) (output : String)
  | disconnect
  | kil (frac : ℕ)
  deriving DecidableEq, Repr

/-- The fields of `GebrmJobPriv` that follow the tasks; `emitted` is all the job has sent out. -/
structure GebrmJob where
  parentId : Option String
  tasks : List ℕ
  total : ℕ
  status : JobStatus
  hasIssued : Bool
  emitted : List Emission
  deriving DecidableEq, Repr

/-- `g_signal_emit` and `gebr_comm_protocol_socket_oldmsg_send`. -/
def GebrmJob.emit (job : GebrmJob) (emission : Emission) : GebrmJob :=
  { job with emitted := job.emitted ++ [emission] }

/-- `gebrm_job_is_stopped`. -/
def gebrmJobIsStopped (job : GebrmJob) : Bool := job.status.isStopped

/-- `gebrm_task_kill`. -/
def gebrmTaskKill (frac : ℕ) (job : GebrmJob) : GebrmJob := job.emit (.kil frac)

/-- `gebrm_job_change_task_status`, with the statuses of the tasks at that time. -/
def gebrmJobChangeTaskStatus (statusOf : ℕ → JobStatus) (frac : ℕ) (newStatus : JobStatus)
    (parameter : Option String) (job : GebrmJob) : GebrmJob :=
  let old := job.status
  if gebrmJobIsStopped job = true then gebrmTaskKill frac job
  -- Only failures get through while some task has not been appended.
  else if job.tasks.length ≠ job.total ∧ newStatus ≠ .canceled ∧ newStatus ≠ .failed then job
  else
    match newStatus with
    | .issued =>
      if job.hasIssued = true then job
      else GebrmJob.emit { job with hasIssued := true } (.issued parameter)
    | .running =>
      GebrmJob.emit { job with status := .running } (.statusChange old .running parameter)
    | .canceled =>
      GebrmJob.emit { job with status := .canceled } (.statusChange old .canceled parameter)
    | .failed => GebrmJob.emit { job with status := .failed } (.statusChange old .failed parameter)
    | .finished =>
      if job.tasks.length = job.total ∧ ∀ task ∈ job.tasks, statusOf task = .finished then
        GebrmJob.emit { job with status := .finished } (.statusChange old .finished parameter)
      else job
    -- Logged as critical, and ignored.
    | .queued => job
    | .requeued => job
    | .initial => job

/-- `on_task_destroy`. -/
def onTaskDestroy (frac : ℕ) (job : GebrmJob) : GebrmJob :=
  let oldStatus := job.status
  let job := { job with status := .initial, tasks := job.tasks.erase frac }
  if job.tasks = [] then job.emit .disconnect
  else if oldStatus ≠ job.status then job.emit (.statusChange oldStatus job.status (some ""))
  else job

/-- `gebrm_job_append_task`; `isoDate` is the clock as text. -/
def gebrmJobAppendTask (statusOf : ℕ → JobStatus) (isoDate : String) (frac : ℕ) (task : GebrmTask)
    (job : GebrmJob) : GebrmJob :=
  let job := { job with tasks := frac :: job.tasks }
  let job := job.emit (.cmdLineReceived frac task.cmdLine)
  let job := job.emit (.output frac task.output)
  let job :=
    if task.issues ≠ "" then gebrmJobChangeTaskStatus statusOf frac .issued (some task.issues) job
    else job
  match task.status with
  | .failed => gebrmJobChangeTaskStatus statusOf frac .failed (some isoDate) job
  | .finished => gebrmJobChangeTaskStatus statusOf frac .finished (some task.finishDate) job
  | .canceled => gebrmJobChangeTaskStatus statusOf frac .canceled (some task.finishDate) job
  | .queued => gebrmJobChangeTaskStatus statusOf frac .queued job.parentId job
  | .running => gebrmJobChangeTaskStatus statusOf frac .running task.startDate job
  | .initial => job
  | .requeued => job
  | .issued => job

/-- The part of `gebrm_task_emit_status_changed_signal` before the signal: the status and its
date. -/
def taskSetStatus (newStatus : JobStatus) (isoDate : String) (task : GebrmTask) : GebrmTask :=
  match newStatus with
  | .running => { task with status := newStatus, startDate := some isoDate }
  | .finished => { task with status := newStatus, finishDate := isoDate }
  | .canceled => { task with status := newStatus, finishDate := isoDate }
  | .failed => { task with status := newStatus, finishDate := isoDate }
  | .initial => { task with status := newStatus }
  | .queued => { task with status := newStatus }
  | .requeued => { task with status := newStatus }
  | .issued => { task with status := newStatus }

theorem taskSetStatus_status (newStatus : JobStatus) (isoDate : String) (task : GebrmTask) :
    (taskSetStatus newStatus isoDate task).status = newStatus := by
  cases newStatus <;> rfl

/-- The parameter the signal carries: the date for a status that has one. -/
def statusParameter (newStatus : JobStatus) (isoDate parameter : String) : String :=
  match newStatus with
  | .running => isoDate
  | .finished => isoDate
  | .canceled => isoDate
  | .failed => isoDate
  | .initial => parameter
  | .queued => parameter
  | .requeued => parameter
  | .issued => parameter

/-- A job and the tasks that are alive, by fraction. -/
structure State where
  job : GebrmJob
  task : ℕ → Option GebrmTask

/-- The status of a task; a task that is not alive is in no list. -/
def State.statusOf (state : State) (frac : ℕ) : JobStatus :=
  ((state.task frac).map GebrmTask.status).getD .initial

/-- What happens to the tasks of a job. -/
inductive Event where
  /-- `gebrm_task_new` and `gebrm_task_init_details`. -/
  | create (frac : ℕ) (issues cmdLine : String)
  | append (frac : ℕ) (isoDate : String)
  /-- `gebrm_task_emit_status_changed_signal`, on a `STA` message of the daemon. -/
  | report (frac : ℕ) (newStatus : JobStatus) (isoDate parameter : String)
  | destroy (frac : ℕ)
  deriving DecidableEq, Repr

/-- **A job and its tasks take one event.** A fraction below the total is appended once while its
task lives, and a task moves from `INITIAL` or `RUNNING` to `RUNNING` or to a terminal status. -/
def step (state : State) : Event → Option State
  | .create frac issues cmdLine =>
    if state.task frac = none then
      let task : GebrmTask := ⟨.running, issues, cmdLine, "", none, ""⟩
      some { state with task := Function.update state.task frac (some task) }
    else none
  | .append frac isoDate =>
    match state.task frac with
    | none => none
    | some task =>
      if frac < state.job.total ∧ frac ∉ state.job.tasks then
        some { state with job := gebrmJobAppendTask state.statusOf isoDate frac task state.job }
      else none
  | .report frac newStatus isoDate parameter =>
    match state.task frac with
    | none => none
    | some task =>
      if (task.status = .initial ∨ task.status = .running) ∧
          (newStatus = .running ∨ newStatus.isStopped = true) then
        let task := taskSetStatus newStatus isoDate task
        let state := { state with task := Function.update state.task frac (some task) }
        -- The handler is connected when the task is appended.
        if frac ∈ state.job.tasks then
          let job := gebrmJobChangeTaskStatus state.statusOf frac newStatus
            (some (statusParameter newStatus isoDate parameter)) state.job
          some { state with job := job }
        else some state
      else none
  | .destroy frac =>
    match state.task frac with
    | none => none
    | some _ =>
      let state := { state with task := Function.update state.task frac none }
      if frac ∈ state.job.tasks then some { state with job := onTaskDestroy frac state.job }
      else some state

end Model

section Change

variable {statusOf : ℕ → JobStatus} {frac : ℕ} {newStatus : JobStatus}
  {parameter : Option String} {job : GebrmJob}

/-- **A stopped job answers a report with a kill**, and nothing else changes. -/
theorem changeTaskStatus_stopped (stopped : job.status.isStopped = true) :
    gebrmJobChangeTaskStatus statusOf frac newStatus parameter job =
      { job with emitted := job.emitted ++ [.kil frac] } := by
  unfold gebrmJobChangeTaskStatus gebrmJobIsStopped
  rw [if_pos stopped]
  rfl

/-- All tasks are appended, and each is finished. -/
def GebrmJob.Complete (statusOf : ℕ → JobStatus) (job : GebrmJob) : Prop :=
  job.tasks.length = job.total ∧ ∀ task ∈ job.tasks, statusOf task = .finished

/-- **All that a report does to a job that is not stopped**: nothing, the issue signal, or one
status change. -/
theorem changeTaskStatus_live (statusOf : ℕ → JobStatus) (frac : ℕ) (newStatus : JobStatus)
    (parameter : Option String) (live : job.status.isStopped = false) :
    let next := gebrmJobChangeTaskStatus statusOf frac newStatus parameter job
    next = job ∧ newStatus.isBad = false ∧ ¬ (newStatus = .finished ∧ job.Complete statusOf) ∨
    next = { job with hasIssued := true, emitted := job.emitted ++ [.issued parameter] } ∧
      newStatus = .issued ∨
    next = { job with
        status := newStatus
        emitted := job.emitted ++ [.statusChange job.status newStatus parameter] } ∧
      (newStatus = .running ∨ newStatus.isBad = true ∨
        newStatus = .finished ∧ job.Complete statusOf) := by
  unfold gebrmJobChangeTaskStatus gebrmJobIsStopped GebrmJob.emit
  dsimp only
  rw [live, if_neg Bool.false_ne_true]
  cases newStatus with
  | canceled =>
    rw [if_neg fun early => early.2.1 rfl]
    exact Or.inr (Or.inr ⟨rfl, Or.inr (Or.inl rfl)⟩)
  | failed =>
    rw [if_neg fun early => early.2.2 rfl]
    exact Or.inr (Or.inr ⟨rfl, Or.inr (Or.inl rfl)⟩)
  | running =>
    dsimp only
    split_ifs
    · exact Or.inl ⟨rfl, rfl, by rintro ⟨⟨⟩, -⟩⟩
    · exact Or.inr (Or.inr ⟨rfl, Or.inl rfl⟩)
  | issued =>
    dsimp only
    split_ifs
    · exact Or.inl ⟨rfl, rfl, by rintro ⟨⟨⟩, -⟩⟩
    · exact Or.inl ⟨rfl, rfl, by rintro ⟨⟨⟩, -⟩⟩
    · exact Or.inr (Or.inl ⟨rfl, rfl⟩)
  | finished =>
    dsimp only
    split_ifs with early complete
    · exact Or.inl ⟨rfl, rfl, fun complete => early.1 complete.2.1⟩
    · exact Or.inr (Or.inr ⟨rfl, Or.inr (Or.inr ⟨rfl, complete⟩)⟩)
    · exact Or.inl ⟨rfl, rfl, fun complete' => complete complete'.2⟩
  | queued =>
    refine Or.inl ⟨?_, rfl, by rintro ⟨⟨⟩, -⟩⟩
    exact ite_self job
  | requeued =>
    refine Or.inl ⟨?_, rfl, by rintro ⟨⟨⟩, -⟩⟩
    exact ite_self job
  | initial =>
    refine Or.inl ⟨?_, rfl, by rintro ⟨⟨⟩, -⟩⟩
    exact ite_self job

/-- The tasks and the total are not the business of a report. -/
theorem changeTaskStatus_frame (statusOf : ℕ → JobStatus) (frac : ℕ) (newStatus : JobStatus)
    (parameter : Option String) (job : GebrmJob) :
    (gebrmJobChangeTaskStatus statusOf frac newStatus parameter job).tasks = job.tasks ∧
      (gebrmJobChangeTaskStatus statusOf frac newStatus parameter job).total = job.total := by
  cases stopped : job.status.isStopped with
  | true =>
    rw [changeTaskStatus_stopped stopped]
    exact ⟨rfl, rfl⟩
  | false =>
    rcases changeTaskStatus_live statusOf frac newStatus parameter stopped with
      ⟨same, -⟩ | ⟨same, -⟩ | ⟨same, -⟩ <;> rw [same] <;> exact ⟨rfl, rfl⟩

end Change

section Inversion

variable {state next : State} {frac : ℕ}

theorem step_create_some {issues cmdLine : String}
    (taken : step state (.create frac issues cmdLine) = some next) :
    state.task frac = none ∧ next =
      ⟨state.job, Function.update state.task frac (some ⟨.running, issues, cmdLine, "", none, ""⟩)⟩
      := by
  simp only [step] at taken
  split at taken
  · rename_i missing
    exact ⟨missing, (Option.some.inj taken).symm⟩
  · cases taken

theorem step_append_some {isoDate : String}
    (taken : step state (.append frac isoDate) = some next) :
    ∃ task, state.task frac = some task ∧ frac < state.job.total ∧ frac ∉ state.job.tasks ∧
      next = ⟨gebrmJobAppendTask state.statusOf isoDate frac task state.job, state.task⟩ := by
  simp only [step] at taken
  cases alive : state.task frac with
  | none =>
    rw [alive] at taken
    cases taken
  | some task =>
    rw [alive] at taken
    dsimp only at taken
    split at taken
    · rename_i fresh
      exact ⟨task, rfl, fresh.1, fresh.2, (Option.some.inj taken).symm⟩
    · cases taken

theorem step_report_some {newStatus : JobStatus} {isoDate parameter : String}
    (taken : step state (.report frac newStatus isoDate parameter) = some next) :
    ∃ task, state.task frac = some task ∧ (task.status = .initial ∨ task.status = .running) ∧
      (newStatus = .running ∨ newStatus.isStopped = true) ∧
      let told : State :=
        ⟨state.job, Function.update state.task frac (some (taskSetStatus newStatus isoDate task))⟩
      if frac ∈ state.job.tasks then
        next = ⟨gebrmJobChangeTaskStatus told.statusOf frac newStatus
          (some (statusParameter newStatus isoDate parameter)) state.job, told.task⟩
      else next = told := by
  simp only [step] at taken
  cases alive : state.task frac with
  | none =>
    rw [alive] at taken
    cases taken
  | some task =>
    rw [alive] at taken
    dsimp only at taken
    split at taken
    · rename_i moves
      refine ⟨task, rfl, moves.1, moves.2, ?_⟩
      dsimp only
      split at taken
      · rename_i listed
        rw [if_pos listed]
        exact (Option.some.inj taken).symm
      · rename_i unlisted
        rw [if_neg unlisted]
        exact (Option.some.inj taken).symm
    · cases taken

theorem step_destroy_some (taken : step state (.destroy frac) = some next) :
    (state.task frac).isSome ∧
      let left : State := ⟨state.job, Function.update state.task frac none⟩
      if frac ∈ state.job.tasks then next = ⟨onTaskDestroy frac state.job, left.task⟩
      else next = left := by
  simp only [step] at taken
  cases alive : state.task frac with
  | none =>
    rw [alive] at taken
    cases taken
  | some task =>
    rw [alive] at taken
    refine ⟨rfl, ?_⟩
    dsimp only at taken ⊢
    split at taken
    · rename_i listed
      rw [if_pos listed]
      exact (Option.some.inj taken).symm
    · rename_i unlisted
      rw [if_neg unlisted]
      exact (Option.some.inj taken).symm

end Inversion

end Gebr.Maestro
