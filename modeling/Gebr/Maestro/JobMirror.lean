/-
**A job as its clients show it.**

The maestro tells every client what happens to a job: the command line and the output of each task,
the status, and what went wrong. A client that connects later is told all at once how the job
stands, and then the same as the others.

* `JobMessage`, `parseMessage`: what is told about a job, and what a client does with it.
* `sendMessagesOfJobs`: what a new client is told.
* `step`: what happens to the job, with what its clients make of it, and new clients.
* `shownTask`, `Mirrors`: how a client shows the job as it stands.
* `deliver_loop`: messages about one task each.
* `mirrors_join`: **a new client shows the job as it stands**.
-/

import Gebr.Maestro.Job

namespace Gebr.Maestro.JobMirror

open Gebr.Comm Gebr.Lib

section Model

/-- What is told about one job. A `JOB` message by the number of its servers and by the status, and
a fraction by its place among the tasks. -/
inductive JobMessage where
  | job (servers : ℕ) (status : String)
  | out (frac : ℕ) (output : String)
  | cmd (frac : ℕ) (cmdLine : String)
  | iss (issues : String)
  | sta (status : String) (parameter : String)
  deriving DecidableEq

/-- `GebrJobTask`, as far as it is told. -/
structure TaskView where
  cmdLine : Option String
  output : String
  deriving DecidableEq

/-- `GebrJobPriv`, as far as it is told. -/
structure JobView where
  status : JobStatus
  tasks : List TaskView
  issues : Option String
  deriving DecidableEq

/-- `gebr_job_set_servers`, by their number. -/
def gebrJobSetServers (servers : ℕ) (job : JobView) : JobView :=
  if job.tasks ≠ [] then job else { job with tasks := List.replicate servers ⟨none, ""⟩ }

/-- What is written to a task: there is none beyond the last one. -/
def modifyTask (frac : ℕ) (change : TaskView → TaskView) (job : JobView) : Option JobView :=
  if frac < job.tasks.length then some { job with tasks := job.tasks.modify frac change } else none

/-- `gebr_job_set_cmd_line`. -/
def gebrJobSetCmdLine (frac : ℕ) (cmdLine : String) : JobView → Option JobView :=
  modifyTask frac fun task => { task with cmdLine := some cmdLine }

/-- `gebr_job_append_output`. -/
def gebrJobAppendOutput (frac : ℕ) (output : String) : JobView → Option JobView :=
  modifyTask frac fun task => { task with output := task.output ++ output }

/-- `parse_messages` of a client, for one job: `none` where it works on a job or a task that there
is not. -/
def parseMessage (job : Option JobView) (message : JobMessage) : Option JobView :=
  match message, job with
  | .job servers status, none =>
      some (gebrJobSetServers servers ⟨gebrmTaskTranslateStatus status, [], none⟩)
  | .job servers status, some job =>
    some { gebrJobSetServers servers job with status := gebrmTaskTranslateStatus status }
  | .out frac output, some job => gebrJobAppendOutput frac output job
  | .cmd frac cmdLine, some job => gebrJobSetCmdLine frac cmdLine job
  | .iss issues, some job => some { job with issues := some issues }
  | .sta status _, some job => some { job with status := gebrmTaskTranslateStatus status }
  | _, none => none

/-- The messages about a job that the client has, one after another. -/
def deliver (view : JobView) (messages : List JobMessage) : Option JobView :=
  Run.run (fun view message => parseMessage (some view) message) view messages

/-- The messages about one that it does not have. -/
def deliverNew : List JobMessage → Option JobView
  | [] => none
  | message :: messages => (parseMessage none message).bind fun view => deliver view messages

/-- What the clients are told when the job sends a signal. -/
def told : Emission → List JobMessage
  | .statusChange _ new parameter => [.sta (statusEnumToString new) (parameter.getD "")]
  | .issued parameter => [.iss (parameter.getD "")]
  | .cmdLineReceived frac cmdLine => [.cmd frac cmdLine]
  | .output frac output => [.out frac output]
  | .disconnect => []
  | .kil _ => []

/-- `send_job_def_to_clients`. -/
def jobDef (state : State) : JobMessage := .job state.job.total (statusEnumToString state.job.status)

/-- `gebrm_task_get_output`. -/
def State.outputOf (state : State) (frac : ℕ) : String :=
  ((state.task frac).map GebrmTask.output).getD ""

/-- `gebrm_task_get_cmd_line`. -/
def State.cmdLineOf (state : State) (frac : ℕ) : String :=
  ((state.task frac).map GebrmTask.cmdLine).getD ""

/-- `gebrm_task_get_issues`. -/
def State.issuesOf (state : State) (frac : ℕ) : String :=
  ((state.task frac).map GebrmTask.issues).getD ""

/-- `gebrm_job_get_issues`. -/
def gebrmJobGetIssues (state : State) : Option String :=
  state.job.tasks.head?.map (State.issuesOf state)

/-- `send_messages_of_jobs`. -/
def sendMessagesOfJobs (state : State) : List JobMessage :=
  [jobDef state] ++ (state.job.tasks.map fun frac => .out frac (State.outputOf state frac)) ++
    (state.job.tasks.map fun frac => .cmd frac (State.cmdLineOf state frac)) ++
    match gebrmJobGetIssues state with
    | none => []
    | some issues => if issues = "" then [] else [.iss issues]

/-- `gebrm_task_emit_output_signal`, with `gebrm_job_append_task_output` where it is connected. -/
def emitOutput (frac : ℕ) (output : String) (task : GebrmTask) (state : State) : State :=
  let told := { task with output := task.output ++ output }
  let job := if frac ∈ state.job.tasks ∧ output ≠ "" then state.job.emit (.output frac output)
    else state.job
  ⟨job, Function.update state.task frac (some told)⟩

/-- `gebrm_job_kill_immediately`, without the messages to the daemons. -/
def gebrmJobKillImmediately (isoDate : String) (job : GebrmJob) : GebrmJob :=
  GebrmJob.emit { job with status := .canceled } (.statusChange job.status .canceled (some isoDate))

/-- The job on the maestro, and the clients. -/
structure System where
  state : State
  views : List JobView

/-- What happens: to the tasks, which stay as long as the job; output; a job that is cancelled at
once or defined again; and a new client. -/
inductive Event where
  | create (frac : ℕ) (issues cmdLine : String)
  | append (frac : ℕ) (isoDate : String)
  | report (frac : ℕ) (newStatus : JobStatus) (isoDate parameter : String)
  | output (frac : ℕ) (output : String)
  | killImmediately (isoDate : String)
  | define
  | join

/-- The job after an event. -/
def stateAfter (state : State) : Event → Option State
  | .create frac issues cmdLine => Maestro.step state (.create frac issues cmdLine)
  | .append frac isoDate => Maestro.step state (.append frac isoDate)
  | .report frac newStatus isoDate parameter => Maestro.step state
      (.report frac newStatus isoDate parameter)
  | .output frac output => (state.task frac).map fun task => emitOutput frac output task state
  | .killImmediately isoDate => some { state with job := gebrmJobKillImmediately isoDate state.job }
  | .define => some state
  | .join => some state

/-- The messages to the clients that there are. -/
def messages (state next : State) : Event → List JobMessage
  | .define => [jobDef state]
  | .join => []
  | _ => (next.job.emitted.drop state.job.emitted.length).flatMap told

/-- **One event**: `none` where it cannot be, or where a client would work on a task that it does
not have. -/
def step (self : System) (event : Event) : Option System :=
  (stateAfter self.state event).bind fun next =>
    (self.views.mapM fun view => deliver view (messages self.state next event)).bind fun views =>
      match event with
      | .join => (deliverNew (sendMessagesOfJobs next)).map fun view => ⟨next, views ++ [view]⟩
      | _ => some ⟨next, views⟩

end Model

section Views

/-- How a client is to show a task: nothing of one that was not appended. -/
def shownTask (state : State) (frac : ℕ) : TaskView :=
  if frac ∈ state.job.tasks then ⟨some (State.cmdLineOf state frac), State.outputOf state frac⟩ else
    ⟨none, ""⟩

/-- **The client shows the job as it stands.** -/
structure Mirrors (state : State) (view : JobView) : Prop where
  status : view.status = state.job.status
  tasks : view.tasks = (List.range state.job.total).map (shownTask state)

/-- **The client shows what went wrong**, if it has been told: the issues of the task that came
last. -/
def Informed (state : State) (view : JobView) : Prop :=
  state.job.hasIssued = true → view.issues = gebrmJobGetIssues state

/-- What is known of the tasks: those of the job are there, below the total; and issues have been
told only when all tasks had come, and the last of them had some. -/
structure Known (state : State) : Prop where
  distinct : state.job.tasks.Nodup
  there : ∀ frac ∈ state.job.tasks, frac < state.job.total ∧ (state.task frac).isSome = true
  complete : state.job.hasIssued = true → state.job.tasks.length = state.job.total
  issues : state.job.hasIssued = true → ∃ issues, gebrmJobGetIssues state = some issues ∧ issues ≠ ""

variable {view view' view'' : JobView} {state next : State} {n frac : ℕ}

theorem deliver_append (view : JobView) (first second : List JobMessage) :
    deliver view (first ++ second) = (deliver view first).bind fun view => deliver view second :=
  Run.run_append _ view first second

theorem modify_range {α : Type} (g : ℕ → α) (change : α → α) (n frac : ℕ) :
    ((List.range n).map g).modify frac change = (List.range n).map fun k => if k = frac then change
    (g k) else g k := by
  refine List.ext_getElem? fun k => ?_
  rw [List.getElem?_modify, List.getElem?_map, List.getElem?_map]
  by_cases below : k < n
  · rw [List.getElem?_range below]
    simp only [Option.map_eq_map, Option.map_some]
    by_cases here : frac = k
    · rw [if_pos here, if_pos here.symm]
    · rw [if_neg here, if_neg (Ne.symm here)]
  · rw [List.getElem?_eq_none (by rw [List.length_range]; exact Nat.not_lt.1 below)]
    rfl

theorem modifyTask_eq {g : ℕ → TaskView} (change : TaskView → TaskView) (tasks : view.tasks = (List.range n).map g)
    (below : frac < n) :
    modifyTask frac change view =
      some { view with tasks := (List.range n).map fun k => if k = frac then change (g k) else g k } := by
  rw [modifyTask, tasks, List.length_map, List.length_range, if_pos below, modify_range]

/-- **Messages about one task each**: of all that they name, each task is changed once. -/
theorem deliver_loop {message : ℕ → JobMessage} {change : ℕ → TaskView → TaskView}
    (writes : ∀ frac view, parseMessage (some view) (message frac) = modifyTask frac (change frac) view)
    {fracs : List ℕ} (distinct : fracs.Nodup) (below : ∀ frac ∈ fracs, frac < n) {g : ℕ → TaskView}
    (tasks : view.tasks = (List.range n).map g) :
    deliver view (fracs.map message) =
      some { view with tasks := (List.range n).map fun k => if k ∈ fracs then change k (g k) else g k } := by
  induction fracs generalizing view g with
  | nil =>
    refine congrArg some ?_
    show view = { view with tasks := (List.range n).map g }
    rw [← tasks]
  | cons frac fracs ih =>
    rw [List.nodup_cons] at distinct
    rw [List.forall_mem_cons] at below
    have first := modifyTask_eq (change frac) tasks below.1
    rw [List.map_cons, deliver, Run.run_cons, writes, first, Option.bind_some]
    refine (ih distinct.2 below.2 rfl).trans ?_
    congr 2
    refine List.map_congr_left fun k _ => ?_
    by_cases here : k = frac
    · rw [here, if_neg distinct.1, if_pos rfl, if_pos List.mem_cons_self]
    · by_cases later : k ∈ fracs
      · rw [if_pos later, if_neg here, if_pos (List.mem_cons_of_mem _ later)]
      · rw [if_neg later, if_neg here, if_neg (fun member => (List.mem_cons.1 member).elim here later)]

/-- **A new client shows the job as it stands**, and what went wrong with the task that came
last. -/
theorem mirrors_join (good : Known state) :
    ∃ view, deliverNew (sendMessagesOfJobs state) = some view ∧ Mirrors state view ∧ Informed state view := by
  have below : ∀ frac ∈ state.job.tasks, frac < state.job.total := fun frac member => (good.there frac member).1
  let first : JobView := ⟨state.job.status, List.replicate state.job.total ⟨none, ""⟩, none⟩
  have begins : parseMessage none (jobDef state) = some first := by
    rw [jobDef, parseMessage, translate_statusEnumToString]
    rfl
  have empty : first.tasks = (List.range state.job.total).map fun _ => ⟨none, ""⟩ := by
    show List.replicate _ _ = _
    rw [List.map_const', List.length_range]
  let out (frac : ℕ) (task : TaskView) : TaskView := { task with output := task.output ++ State.outputOf state frac }
  let cmd (frac : ℕ) (task : TaskView) : TaskView := { task with cmdLine := some (State.cmdLineOf state frac) }
  have writesOut : ∀ frac view, parseMessage (some view) (.out frac (State.outputOf state frac)) =
      modifyTask frac (out frac) view := fun _ _ => rfl
  have writesCmd : ∀ frac view, parseMessage (some view) (.cmd frac (State.cmdLineOf state frac)) =
      modifyTask frac (cmd frac) view := fun _ _ => rfl
  have shown : ∀ frac, (if frac ∈ state.job.tasks then cmd frac (if frac ∈ state.job.tasks then out frac ⟨none, ""⟩
      else ⟨none, ""⟩) else if frac ∈ state.job.tasks then out frac ⟨none, ""⟩ else ⟨none, ""⟩) = shownTask state frac := by
    intro frac
    by_cases member : frac ∈ state.job.tasks
    · rw [shownTask, if_pos member, if_pos member, if_pos member]
      exact congrArg (TaskView.mk _) (String.empty_append)
    · rw [shownTask, if_neg member, if_neg member, if_neg member]
  have told : deliverNew (sendMessagesOfJobs state) =
      deliver { first with tasks := (List.range state.job.total).map (shownTask state) }
        (match gebrmJobGetIssues state with
        | none => []
        | some issues => if issues = "" then [] else [.iss issues]) := by
    rw [sendMessagesOfJobs, List.append_assoc, List.append_assoc, List.singleton_append, deliverNew, begins,
      Option.bind_some, deliver_append, deliver_loop writesOut good.distinct below empty, Option.bind_some,
      deliver_append, deliver_loop writesCmd good.distinct below rfl, Option.bind_some]
    simp only [shown]
  rw [told]
  cases came : gebrmJobGetIssues state with
  | none =>
    refine ⟨_, rfl, ⟨rfl, rfl⟩, fun issued => ?_⟩
    rw [came]
  | some issues =>
    dsimp only
    by_cases blank : issues = ""
    · rw [if_pos blank]
      refine ⟨_, rfl, ⟨rfl, rfl⟩, fun issued => ?_⟩
      obtain ⟨_, same, text⟩ := good.issues issued
      rw [came] at same
      exact absurd (Option.some.inj same ▸ blank) text
    · rw [if_neg blank]
      refine ⟨_, rfl, ⟨rfl, rfl⟩, fun issued => ?_⟩
      rw [came]

end Views

end Gebr.Maestro.JobMirror
