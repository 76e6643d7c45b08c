/-
**The messages of a daemon about its tasks.**

A task is found by its run and its fraction in a table that the whole maestro shares. `TSK` puts a
new task into it, and closing a task takes it out; `OUT` and `STA` work on what they find.

* `gebrmTaskFind`, `gebrmTaskNew`, `gebrmTaskClose`: the table.
* `step`: one message, or a task that is closed or a job that is forgotten meanwhile.
* `Known`: the message is not about a task that is not in the table.
* `step_isSome_iff`: a message is handled iff it is known.
* `step_frame`: a message changes no other task than the one it is about.
* `messages_iff` — **when every message is handled without harm**.
* `unknown_task`: output of a task that was never defined, that was closed, and that is called
  otherwise.
-/

import Gebr.Lib.CString
import Gebr.Lib.NamedTable
import Gebr.Lib.Numerals
import Gebr.Lib.Run
import Gebr.Maestro.Job

namespace Gebr.Maestro.TaskMessages

open Gebr.Comm Gebr.Lib Gebr.Lib.CString Gebr.Lib.NamedTable Gebr.Lib.Numerals

abbrev Text : Type := List UInt8

section Model

/-- `GebrmTaskPriv`. `job` is the job whose handlers are connected to the signals of the task. -/
structure TaskObject where
  rid : Text
  frac : ℤ
  task : GebrmTask
  moabJid : String
  job : Option Text
  deriving DecidableEq

/-- The tasks on the maestro, with one daemon. A task is named by its place among all that were
made; the values of the tables are such names. `jobs` are all the jobs, `listed` those that are
found by their ids. -/
structure TaskState where
  objects : List TaskObject
  tasksMap : List (Text × ℕ)
  daemonTasks : List (Text × ℕ)
  uncompletedTasks : ℤ
  jobs : List (Text × GebrmJob)
  listed : List Text
  logged : Bool
  cleared : List Text
  placed : ∀ entry ∈ tasksMap, entry.2 < objects.length

/-- `atoi`. -/
def atoi (text : Text) : ℤ := (strtol text).1.bmod (2 ^ 32)

/-- `gebrm_task_build_id`. -/
def gebrmTaskBuildId (rid frac : Text) : Text := rid ++ ascii ":" ++ frac

/-- `gebrm_task_get_id`. -/
def gebrmTaskGetId (task : TaskObject) : Text := gebrmTaskBuildId task.rid (printInt task.frac)

/-- `gebrm_task_find`. -/
def gebrmTaskFind (self : TaskState) (rid frac : Text) : Option ℕ :=
  get (gebrmTaskBuildId rid frac) self.tasksMap

/-- `gebrm_task_get_status`, of the tasks of a job. -/
def TaskState.statusOf (self : TaskState) (place : ℕ) : JobStatus :=
  ((self.objects[place]?).map fun object => object.task.status).getD .initial

/-- `gebrm_task_new`, `gebrm_task_init_details` and the entry in the table of the daemon. -/
def gebrmTaskNew (id frac : Text) (issues cmdLine moabJid : String) (job : Option Text)
    (self : TaskState) : TaskState :=
  let object : TaskObject := ⟨id, atoi frac, ⟨.running, issues, cmdLine, "", none, ""⟩, moabJid, job⟩
  let place := self.objects.length
  { self with
    objects := self.objects ++ [object]
    tasksMap := put (gebrmTaskGetId object) place self.tasksMap
    daemonTasks := put (gebrmTaskBuildId id frac) place self.daemonTasks
    placed := by
      have more : self.objects.length < (self.objects ++ [object]).length := by
        rw [List.length_append, List.length_singleton]
        exact Nat.lt_succ_self _
      exact forall_put (p := (· < _)) (fun entry member => (self.placed entry member).trans more)
        more }

/-- What is written to a task. -/
def TaskState.setObject (self : TaskState) (place : ℕ) (object : TaskObject) : TaskState :=
  { self with
    objects := self.objects.set place object
    placed := by
      rw [List.length_set]
      exact self.placed }

/-- What is done to a job. -/
def TaskState.modifyJob (self : TaskState) (id : Text) (change : GebrmJob → GebrmJob) : TaskState :=
  { self with jobs := self.jobs.map fun entry => if entry.1 = id then (id, change entry.2) else entry }

/-- The `TSK` branch of `gebrm_server_op_parse_messages`, with
`gebrm_app_job_controller_on_task_def`: the task is appended to its job, if there is one. -/
def onTaskDef (isoDate : String) (id frac : Text) (issues cmdLine moabJid : String)
    (self : TaskState) : TaskState :=
  let found := if id ∈ self.listed then some id else none
  let place := self.objects.length
  let self := gebrmTaskNew id frac issues cmdLine moabJid found self
  match found with
  | none => self
  | some id =>
    self.modifyJob id
      (gebrmJobAppendTask self.statusOf isoDate place ⟨.running, issues, cmdLine, "", none, ""⟩)

/-- `gebrm_job_append_task_output`, where it is connected. -/
def gebrmJobAppendTaskOutput (place : ℕ) (output : String) (job : Option Text) (self : TaskState) :
    TaskState :=
  match job with
  | none => self
  | some id => if output = "" then self else self.modifyJob id fun job =>
      job.emit (.output place output)

/-- `gebrm_task_emit_output_signal`. -/
def gebrmTaskEmitOutputSignal (place : ℕ) (object : TaskObject) (output : String)
    (self : TaskState) : TaskState :=
  let told := { object with task := { object.task with output := object.task.output ++ output } }
  gebrmJobAppendTaskOutput place output object.job (self.setObject place told)

/-- `gebrm_daemon_on_task_status_change`. -/
def gebrmDaemonOnTaskStatusChange (newStatus : JobStatus) (self : TaskState) : TaskState :=
  if newStatus.isStopped = true then { self with uncompletedTasks := self.uncompletedTasks - 1 }
    else self

/-- `gebrm_job_change_task_status`, where it is connected. -/
def onJobTaskStatusChange (place : ℕ) (newStatus : JobStatus) (parameter : String) (job : Option Text)
    (self : TaskState) : TaskState :=
  match job with
  | none => self
  | some id => self.modifyJob id
      (gebrmJobChangeTaskStatus self.statusOf place newStatus (some parameter))

/-- `gebrm_task_emit_status_changed_signal`. -/
def gebrmTaskEmitStatusChangedSignal (isoDate : String) (place : ℕ) (object : TaskObject)
    (newStatus : JobStatus) (parameter : String) (self : TaskState) : TaskState :=
  let told := { object with task := taskSetStatus newStatus isoDate object.task }
  let self := gebrmDaemonOnTaskStatusChange newStatus (self.setObject place told)
  onJobTaskStatusChange place newStatus (statusParameter newStatus isoDate parameter) object.job self

/-- `gebrm_task_close`. -/
def gebrmTaskClose (object : TaskObject) (rid : Text) (self : TaskState) : TaskState :=
  let self := if self.logged = true then { self with cleared := self.cleared ++ [rid] } else self
  { self with
    tasksMap := self.tasksMap.filter fun entry => entry.1 ≠ gebrmTaskGetId object
    placed := fun entry member => self.placed entry (List.mem_filter.1 member).1 }

/-- The messages of the daemon, with the parts of their arguments that are read; and what happens in
other callbacks. -/
inductive Event
  | tsk (id frac : Text) (issues cmdLine moabJid : String)
  | out (rid frac : Text) (output : String)
  | sta (rid frac : Text) (status parameter : String)
  | ret
  | taskClose (place : ℕ) (rid : Text)
  | jobRemove (id : Text)

/-- An event, and the clock as text. -/
structure Input where
  event : Event
  isoDate : String

theorem place_lt {self : TaskState} {rid frac : Text} {place : ℕ}
    (found : gebrmTaskFind self rid frac = some place) : place < self.objects.length :=
  self.placed _ (mem_of_get found)

/-- The task that is found in the table. -/
def TaskState.found (self : TaskState) (rid frac : Text) : Option (ℕ × TaskObject) :=
  match there : gebrmTaskFind self rid frac with
  | none => none
  | some place => some (place, self.objects.get ⟨place, place_lt there⟩)

/-- **One event**: `none` where the code works on a missing task. -/
def step (self : TaskState) (input : Input) : Option TaskState :=
  match input.event with
  | .tsk id frac issues cmdLine moabJid =>
      some (onTaskDef input.isoDate id frac issues cmdLine moabJid self)
  | .out rid frac output => (self.found rid frac).map fun task => gebrmTaskEmitOutputSignal task.1
      task.2 output self
  | .sta rid frac status parameter => (self.found rid frac).map fun task =>
      gebrmTaskEmitStatusChangedSignal input.isoDate task.1 task.2 (gebrmTaskTranslateStatus status)
        parameter self
  | .ret => some self
  | .taskClose place rid =>
    match self.objects[place]? with
    | none => some self
    | some object => some (gebrmTaskClose object rid self)
  | .jobRemove id => some { self with listed := self.listed.filter (· ≠ id) }

end Model

section Steps

variable {self next : TaskState} {input : Input} {rid frac : Text} {place : ℕ}

/-- The task that an event is about: its run and its fraction. -/
def Event.about : Event → Option (Text × Text)
  | .tsk id frac _ _ _ => some (id, frac)
  | .out rid frac _ => some (rid, frac)
  | .sta rid frac _ _ => some (rid, frac)
  | .ret => none
  | .taskClose _ _ => none
  | .jobRemove _ => none

/-- The message is about a task that is not in the table. -/
def Unknown (self : TaskState) (event : Event) : Prop :=
  ∃ rid frac, event.about = some (rid, frac) ∧ gebrmTaskFind self rid frac = none

/-- Output and statuses are about tasks that are in the table. -/
def Known (self : TaskState) (input : Input) : Prop :=
  match input.event with
  | .out rid frac _ => (gebrmTaskFind self rid frac).isSome
  | .sta rid frac _ _ => (gebrmTaskFind self rid frac).isSome
  | _ => True

theorem found_isSome (self : TaskState) (rid frac : Text) :
    (self.found rid frac).isSome = (gebrmTaskFind self rid frac).isSome := by
  unfold TaskState.found
  split
  · rename_i none
    exact (congrArg Option.isSome none).symm
  · rename_i place there
    exact (congrArg Option.isSome there).symm

theorem find_of_found {object : TaskObject} (there : self.found rid frac = some (place, object)) :
    gebrmTaskFind self rid frac = some place := by
  unfold TaskState.found at there
  split at there
  · exact absurd there nofun
  · rename_i here
    rw [here, ← (Prod.mk.inj (Option.some.inj there)).1]

/-- **A message is handled iff it is known.** -/
theorem step_isSome_iff (self : TaskState) (input : Input) :
    (step self input).isSome = true ↔ Known self input := by
  obtain ⟨event, isoDate⟩ := input
  unfold step Known
  cases event with
  | tsk id frac issues cmdLine moabJid => exact iff_of_true rfl trivial
  | out rid frac output =>
    dsimp only
    rw [Option.isSome_map, found_isSome]
  | sta rid frac status parameter =>
    dsimp only
    rw [Option.isSome_map, found_isSome]
  | ret => exact iff_of_true rfl trivial
  | taskClose place rid =>
    dsimp only
    split <;> exact iff_of_true rfl trivial
  | jobRemove id => exact iff_of_true rfl trivial

/-- The task that a message works on. -/
def target (self : TaskState) : Event → Option ℕ
  | .out rid frac _ => gebrmTaskFind self rid frac
  | .sta rid frac _ _ => gebrmTaskFind self rid frac
  | _ => none

theorem objects_onTaskDef (isoDate : String) (id frac : Text) (issues cmdLine moabJid : String)
    (self : TaskState) : ∃ object, (onTaskDef isoDate id frac issues cmdLine moabJid self).objects =
    self.objects ++ [object] := by
  unfold onTaskDef
  dsimp only
  split
  · exact ⟨_, rfl⟩
  · exact ⟨_, rfl⟩

theorem objects_output (place : ℕ) (object : TaskObject) (output : String) (self : TaskState) :
    ∃ told, (gebrmTaskEmitOutputSignal place object output self).objects =
    self.objects.set place told := by
  unfold gebrmTaskEmitOutputSignal gebrmJobAppendTaskOutput
  dsimp only
  split
  · exact ⟨_, rfl⟩
  · split
    · exact ⟨_, rfl⟩
    · exact ⟨_, rfl⟩

theorem objects_status (isoDate : String) (place : ℕ) (object : TaskObject) (newStatus : JobStatus)
    (parameter : String) (self : TaskState) : ∃ told,
      (gebrmTaskEmitStatusChangedSignal isoDate place object newStatus parameter self).objects =
      self.objects.set place told := by
  have daemon : ∀ self : TaskState, (gebrmDaemonOnTaskStatusChange newStatus self).objects =
      self.objects := by
    intro self
    unfold gebrmDaemonOnTaskStatusChange
    split <;> rfl
  refine ⟨_, Eq.trans ?_
    (daemon (self.setObject place
      { object with task := taskSetStatus newStatus isoDate object.task }))⟩
  unfold gebrmTaskEmitStatusChangedSignal onJobTaskStatusChange
  dsimp only
  split <;> rfl

theorem objects_close (object : TaskObject) (rid : Text) (self : TaskState) :
    (gebrmTaskClose object rid self).objects = self.objects := by
  unfold gebrmTaskClose
  dsimp only
  split <;> rfl

/-- **A message changes no other task than the one it is about.** -/
theorem step_frame (taken : step self input = some next) (there : place < self.objects.length)
    (other : target self input.event ≠ some place) : next.objects[place]? = self.objects[place]? := by
  obtain ⟨event, isoDate⟩ := input
  unfold step at taken
  cases event with
  | tsk id frac issues cmdLine moabJid =>
    obtain rfl := Option.some.inj taken
    obtain ⟨object, objects⟩ := objects_onTaskDef isoDate id frac issues cmdLine moabJid self
    rw [objects, List.getElem?_append_left there]
  | out rid frac output =>
    obtain ⟨⟨found, object⟩, here, rfl⟩ := Option.map_eq_some_iff.1 taken
    obtain ⟨told, objects⟩ := objects_output found object output self
    have apart : found ≠ place := fun same => other (same ▸ find_of_found here)
    rw [objects, List.getElem?_set_ne apart]
  | sta rid frac status parameter =>
    obtain ⟨⟨found, object⟩, here, rfl⟩ := Option.map_eq_some_iff.1 taken
    obtain ⟨told, objects⟩ := objects_status isoDate found object (gebrmTaskTranslateStatus status)
      parameter self
    have apart : found ≠ place := fun same => other (same ▸ find_of_found here)
    rw [objects, List.getElem?_set_ne apart]
  | ret =>
    obtain rfl := Option.some.inj taken
    rfl
  | taskClose closed rid =>
    dsimp only at taken
    split at taken
    · obtain rfl := Option.some.inj taken
      rfl
    · obtain rfl := Option.some.inj taken
      rw [objects_close]
  | jobRemove id =>
    obtain rfl := Option.some.inj taken
    rfl

/-- What is not in the table is worked on by no message. -/
theorem target_of_unknown (unknown : Unknown self input.event) : target self input.event = none := by
  obtain ⟨rid, frac, about, none⟩ := unknown
  cases event : input.event with
  | out other otherFrac output =>
    rw [event] at about
    obtain ⟨rfl, rfl⟩ := Prod.mk.inj (Option.some.inj about)
    exact none
  | sta other otherFrac status parameter =>
    rw [event] at about
    obtain ⟨rfl, rfl⟩ := Prod.mk.inj (Option.some.inj about)
    exact none
  | tsk _ _ _ _ _ => rfl
  | ret => rfl
  | taskClose _ _ => rfl
  | jobRemove _ => rfl

end Steps

section Runs

/-- Every message of the run is handled, and one about an unknown task changes no task that there
is. -/
def Harmless (self : TaskState) (inputs : List Input) : Prop :=
  (∃ final, Run.run step self inputs = some final) ∧
    ∀ before input after, inputs = before ++ input :: after → ∀ mid next, Run.run step self before =
      some mid → step mid input = some next → Unknown mid input.event →
        ∀ place < mid.objects.length, next.objects[place]? = mid.objects[place]?

/-- **When every message is handled without harm**; and every message changes at most the task it is
about. -/
theorem messages_iff (self : TaskState) (inputs : List Input) :
    (Harmless self inputs ↔ Run.Guarded step Known self inputs) ∧
    ∀ mid input next, step mid input = some next → ∀ place < mid.objects.length,
      target mid input.event ≠ some place → next.objects[place]? = mid.objects[place]? := by
  refine ⟨?_, fun mid input next taken place there other => step_frame taken there other⟩
  unfold Harmless
  rw [Run.run_isSome_iff_guarded step_isSome_iff, and_iff_left_iff_imp]
  rintro - before input after - mid next - taken unknown place there
  refine step_frame taken there ?_
  rw [target_of_unknown unknown]
  exact nofun

/-- A maestro without tasks. -/
def noTasks : TaskState := ⟨[], [], [], 0, [], [], true, [], nofun⟩

/-- **Output of an unknown task** ends the maestro: of one that was never defined, of one that was
closed, and of one whose fraction is written in another way than the number is printed. -/
theorem unknown_task :
    ¬ Harmless noTasks [⟨.out (ascii "7") (ascii "1") "x", ""⟩] ∧
    ¬ Harmless noTasks [⟨.tsk (ascii "7") (ascii "1") "" "" "", ""⟩, ⟨.taskClose 0 (ascii "7"), ""⟩,
      ⟨.sta (ascii "7") (ascii "1") "finished" "", ""⟩] ∧
    ¬ Harmless noTasks
    [⟨.tsk (ascii "7") (ascii "01") "" "" "", ""⟩, ⟨.out (ascii "7") (ascii "01") "x", ""⟩] := by
  refine ⟨fun harmless => ?_, fun harmless => ?_, fun harmless => ?_⟩
  · exact absurd (Option.isSome_iff_exists.2 harmless.1) (by decide)
  · exact absurd (Option.isSome_iff_exists.2 harmless.1) (by decide)
  · exact absurd (Option.isSome_iff_exists.2 harmless.1) (by decide)

end Runs

end Gebr.Maestro.TaskMessages
