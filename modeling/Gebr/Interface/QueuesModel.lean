/-
**The jobs that the interface offers as queues.**

The interface keeps a list of the jobs after which another one may be run: the queued and the
running ones, behind a first entry that stands for no job. Each message about a job updates it.

* `updateQueuesModel`: the list after a message about a job.
* `parseJob`, `parseSta`: the messages that define a job, and that change its status.
* `QueuesExact`: the list is the known jobs that are queued or running, each once.
* `update_exact_iff`: when an update leaves the list as it should be.
* `Sound`, `step_sound`: each job has one number, and waits for its id or is known.
* `step_exact_iff`, `queuesKept_iff`: when a step, and when a whole run, keeps the list right.
-/

import Gebr.Comm.JobStatus
import Gebr.Lib.Run
import Mathlib.Data.List.Nodup
import Mathlib.Data.Option.Basic
import Mathlib.Logic.Function.Basic

namespace Gebr.Interface

open Gebr.Comm
open Gebr.Lib

section Model

/-- `GebrJobPriv`, as far as these messages read it. -/
structure GebrJob where
  runid : String
  queue : String
  status : JobStatus
  isFake : Bool
  startDate : Option String
  finishDate : Option String
  deriving DecidableEq, Repr

/-- `gebr_job_new_with_id`. -/
def gebrJobNewWithId (rid queue : String) : GebrJob := ⟨rid, queue, .initial, true, none, none⟩

/-- `gebr_job_is_queueable`. -/
def GebrJob.isQueueable (job : GebrJob) : Bool := job.status = .queued || job.status = .running

/-- `gebr_job_set_static_status`. -/
def gebrJobSetStaticStatus (job : GebrJob) (status : JobStatus) : GebrJob := { job with status }

/-- `gebr_job_set_status`. -/
def gebrJobSetStatus (job : GebrJob) (status : JobStatus) (parameter : String) : GebrJob :=
  let job := { job with status }
  match status with
  | .running => { job with startDate := some parameter, finishDate := some parameter }
  | .canceled => { job with finishDate := some parameter }
  | .failed => { job with finishDate := some parameter }
  | .finished => { job with finishDate := some parameter }
  | _ => job

/-- `GebrMaestroServerPriv`: the jobs that were made, each named by a number; the table of the known
ones by their ids and of those that wait for one; and the list, whose first entry is `NULL`. -/
structure GebrMaestroServer where
  job : ℕ → GebrJob
  made : ℕ
  jobs : String → Option ℕ
  tempJobs : String → Option ℕ
  queuesModel : List (Option ℕ)

/-- `gebr_maestro_server_init`. -/
def gebrMaestroServerNew : GebrMaestroServer where
  job _ := gebrJobNewWithId "" ""
  made := 0
  jobs _ := none
  tempJobs _ := none
  queuesModel := [none]

/-- A change of one job. -/
def GebrMaestroServer.setJob (maestro : GebrMaestroServer) (job : ℕ) (value : GebrJob) :
    GebrMaestroServer :=
  { maestro with job := Function.update maestro.job job value }

/-- A new job. -/
def GebrMaestroServer.make (maestro : GebrMaestroServer) (value : GebrJob) : GebrMaestroServer :=
  { maestro.setJob maestro.made value with made := maestro.made + 1 }

/-- `gebr_maestro_server_add_temporary_job`, of a job that is made with an id of its own. -/
def gebrMaestroServerAddTemporaryJob (maestro : GebrMaestroServer) (rid queue : String) :
    GebrMaestroServer :=
  { maestro.make (gebrJobNewWithId rid queue) with
    tempJobs := Function.update maestro.tempJobs rid (some maestro.made) }

/-- `update_queues_model`. -/
def updateQueuesModel (maestro : GebrMaestroServer) (job : ℕ) : GebrMaestroServer :=
  match (maestro.job job).status with
  | .canceled => { maestro with queuesModel := maestro.queuesModel.erase (some job) }
  | .finished => { maestro with queuesModel := maestro.queuesModel.erase (some job) }
  | .failed => { maestro with queuesModel := maestro.queuesModel.erase (some job) }
  | .running | .queued =>
    if some job ∈ maestro.queuesModel then maestro
    else { maestro with queuesModel := maestro.queuesModel ++ [some job] }
  | _ => maestro

/-- A `JOB` message, as far as it says something that is read here. -/
structure JobMessage where
  id : String
  tempId : String
  parentId : String
  status : String
  startDate : String
  finishDate : String
  deriving DecidableEq, Repr

/-- A `STA` message. -/
structure StaMessage where
  id : String
  status : String
  parameter : String
  deriving DecidableEq, Repr

/-- The job of a `JOB` message, and whether it is new: a known one, one that waits for its id, or a
new one. -/
def jobOf (maestro : GebrMaestroServer) (msg : JobMessage) : GebrMaestroServer × ℕ × Bool :=
  match maestro.jobs msg.id with
  | some job => (maestro, job, false)
  | none =>
    match maestro.tempJobs msg.tempId with
    | some job =>
      ({ maestro.setJob job { maestro.job job with runid := msg.id } with
          tempJobs := Function.update maestro.tempJobs msg.tempId none
          jobs := Function.update maestro.jobs msg.id (some job) }, job, false)
    | none => (maestro.make (gebrJobNewWithId msg.id msg.parentId), maestro.made, true)

/-- What a `JOB` message sets in its job. -/
def announced (job : GebrJob) (msg : JobMessage) (init : Bool) : GebrJob :=
  let status := gebrmTaskTranslateStatus msg.status
  let job := gebrJobSetStaticStatus job status
  let job := if job.queue ≠ msg.parentId then { job with queue := msg.parentId } else job
  if init then
    let job := gebrJobSetStaticStatus { job with isFake := false } status
    let job := if msg.startDate ≠ "" then { job with startDate := some msg.startDate } else job
    if msg.finishDate ≠ "" then { job with finishDate := some msg.finishDate } else job
  else job

/-- `parse_messages`, on a `JOB` message. -/
def parseJob (maestro : GebrMaestroServer) (msg : JobMessage) : GebrMaestroServer :=
  let (maestro, job, init) := jobOf maestro msg
  let maestro := maestro.setJob job (announced (maestro.job job) msg init)
  let maestro :=
    if init then { maestro with jobs := Function.update maestro.jobs msg.id (some job) } else maestro
  updateQueuesModel maestro job

/-- `parse_messages`, on a `STA` message: without a job the program ends. -/
def parseSta (maestro : GebrMaestroServer) (msg : StaMessage) : Option GebrMaestroServer :=
  match maestro.jobs msg.id with
  | none => none
  | some job =>
    let status := gebrmTaskTranslateStatus msg.status
    let maestro := maestro.setJob job (gebrJobSetStatus (maestro.job job) status msg.parameter)
    some (updateQueuesModel maestro job)

/-- What happens to the jobs: the interface runs one, or a message comes. -/
inductive Event where
  | temporary (rid queue : String)
  | job (msg : JobMessage)
  | sta (msg : StaMessage)
  deriving DecidableEq, Repr

/-- One event; `none` is the end of the program. -/
def step (maestro : GebrMaestroServer) : Event → Option GebrMaestroServer
  | .temporary rid queue => some (gebrMaestroServerAddTemporaryJob maestro rid queue)
  | .job msg => some (parseJob maestro msg)
  | .sta msg => parseSta maestro msg

/-- The job is known. -/
def GebrMaestroServer.Known (maestro : GebrMaestroServer) (job : ℕ) : Prop :=
  ∃ id, maestro.jobs id = some job

/-- **The list has the known jobs that are queued or running**, each once, behind its first
entry. -/
def QueuesExact (maestro : GebrMaestroServer) : Prop :=
  ∃ rows : List ℕ, maestro.queuesModel = none :: rows.map some ∧ rows.Nodup ∧
    ∀ job, job ∈ rows ↔ maestro.Known job ∧ (maestro.job job).isQueueable = true

/-- The status neither puts a job on the list nor takes it off. -/
def isFalse (status : JobStatus) : Bool := status = .initial || status = .requeued || status = .issued

/-- The job with an id is not queued or running where a status that is none comes for it. -/
def Decides (maestro : GebrMaestroServer) (id status : String) : Prop :=
  isFalse (gebrmTaskTranslateStatus status) = true →
    ∀ job, maestro.jobs id = some job → (maestro.job job).isQueueable = false

/-- What a message has to be: a `STA` message names a known job, and no message gives a queued or
running job a status that is none. -/
def Meets (maestro : GebrMaestroServer) : Event → Prop
  | .temporary _ _ => True
  | .job msg => Decides maestro msg.id msg.status
  | .sta msg => (∃ job, maestro.jobs msg.id = some job) ∧ Decides maestro msg.id msg.status

end Model

section Status

/-- **The status after a `JOB` message is the one it names.** -/
theorem announced_status (job : GebrJob) (msg : JobMessage) (init : Bool) :
    (announced job msg init).status = gebrmTaskTranslateStatus msg.status := by
  unfold announced
  cases init
  · simp only [Bool.false_eq_true, if_false]
    split_ifs <;> rfl
  · simp only [if_true]
    split_ifs <;> rfl

/-- **The status after a `STA` message is the one it names.** -/
theorem gebrJobSetStatus_status (job : GebrJob) (status : JobStatus) (parameter : String) :
    (gebrJobSetStatus job status parameter).status = status := by
  cases status <;> rfl

@[simp] theorem setJob_same (maestro : GebrMaestroServer) (job : ℕ) (value : GebrJob) :
    (maestro.setJob job value).job job = value := Function.update_self ..

theorem setJob_other {job other : ℕ} (maestro : GebrMaestroServer) (value : GebrJob)
    (apart : other ≠ job) : (maestro.setJob job value).job other = maestro.job other :=
  Function.update_of_ne apart ..

end Status

section Update

/-- The list behind its first entry has each job once, and all but this one belong. -/
structure ExactBut (maestro : GebrMaestroServer) (job : ℕ) (rows : List ℕ) : Prop where
  listed : maestro.queuesModel = none :: rows.map some
  once : rows.Nodup
  others : ∀ other, other ≠ job →
    (other ∈ rows ↔ maestro.Known other ∧ (maestro.job other).isQueueable = true)

theorem queuesExact_iff {maestro : GebrMaestroServer} {rows : List ℕ}
    (listed : maestro.queuesModel = none :: rows.map some) :
    QueuesExact maestro ↔ rows.Nodup ∧
      ∀ job, job ∈ rows ↔ maestro.Known job ∧ (maestro.job job).isQueueable = true := by
  constructor
  · rintro ⟨others, same, exact⟩
    have equal : others = rows := by
      have maps := (List.cons.inj (same.symm.trans listed)).2
      exact List.map_injective_iff.2 (Option.some_injective ℕ) maps
    exact equal ▸ exact
  · exact fun exact => ⟨rows, listed, exact⟩

theorem ExactBut.mem_list_iff {maestro : GebrMaestroServer} {job : ℕ} {rows : List ℕ}
    (exact : ExactBut maestro job rows) : some job ∈ maestro.queuesModel ↔ job ∈ rows := by
  rw [exact.listed]
  simp

/-- Where all others belong, the list is right if this one is. -/
theorem ExactBut.exact_iff {maestro : GebrMaestroServer} {job : ℕ} {rows : List ℕ}
    (exact : ExactBut maestro job rows) (known : maestro.Known job) :
    QueuesExact maestro ↔ (job ∈ rows ↔ (maestro.job job).isQueueable = true) := by
  rw [queuesExact_iff exact.listed]
  constructor
  · rintro ⟨-, all⟩
    rw [all job]
    exact and_iff_right known
  · refine fun own => ⟨exact.once, fun other => ?_⟩
    by_cases same : other = job
    · rw [same, own]
      exact (and_iff_right known).symm
    · exact exact.others other same

theorem ExactBut.erase {maestro : GebrMaestroServer} {job : ℕ} {rows : List ℕ}
    (exact : ExactBut maestro job rows) :
    ExactBut { maestro with queuesModel := maestro.queuesModel.erase (some job) } job
      (rows.erase job) where
  listed := by
    show maestro.queuesModel.erase (some job) = _
    rw [exact.listed, List.erase_cons_tail (by simp), List.map_erase (Option.some_injective ℕ)]
  once := exact.once.erase job
  others other apart := by
    rw [List.mem_erase_of_ne apart]
    exact exact.others other apart

theorem ExactBut.append {maestro : GebrMaestroServer} {job : ℕ} {rows : List ℕ}
    (exact : ExactBut maestro job rows) (absent : job ∉ rows) :
    ExactBut { maestro with queuesModel := maestro.queuesModel ++ [some job] } job
      (rows ++ [job]) where
  listed := by
    show maestro.queuesModel ++ [some job] = _
    rw [exact.listed, List.map_append]
    rfl
  once := List.nodup_append_comm.1 (List.nodup_cons.2 ⟨absent, exact.once⟩)
  others other apart := by
    rw [List.mem_append, List.mem_singleton, or_iff_left apart]
    exact exact.others other apart

/-- **When an update leaves the list as it should be**: a status that is none finds no row. -/
theorem update_exact_iff {maestro : GebrMaestroServer} {job : ℕ} {rows : List ℕ}
    (exact : ExactBut maestro job rows) (known : maestro.Known job) :
    QueuesExact (updateQueuesModel maestro job) ↔
      (isFalse (maestro.job job).status = true → job ∉ rows) := by
  have removed (stopped : (maestro.job job).isQueueable = false) :
      QueuesExact { maestro with queuesModel := maestro.queuesModel.erase (some job) } := by
    refine (exact.erase.exact_iff known).2 ?_
    exact iff_of_false exact.once.not_mem_erase (by simp [stopped])
  have kept (none : (maestro.job job).isQueueable = false) : QueuesExact maestro ↔ job ∉ rows := by
    rw [exact.exact_iff known, none]
    simp
  have added (live : (maestro.job job).isQueueable = true) :
      QueuesExact (if some job ∈ maestro.queuesModel then maestro
        else { maestro with queuesModel := maestro.queuesModel ++ [some job] }) := by
    split_ifs with present
    · exact (exact.exact_iff known).2 (iff_of_true (exact.mem_list_iff.1 present) live)
    · have absent : job ∉ rows := fun member => present (exact.mem_list_iff.2 member)
      exact ((exact.append absent).exact_iff known).2
        (iff_of_true (List.mem_append_right _ List.mem_cons_self) live)
  unfold updateQueuesModel
  cases status : (maestro.job job).status with
  | canceled | finished | failed =>
    exact iff_of_true (removed (by rw [GebrJob.isQueueable, status]; rfl))
      (fun none => Bool.noConfusion none)
  | running | queued =>
    exact iff_of_true (added (by rw [GebrJob.isQueueable, status]; rfl))
      (fun none => Bool.noConfusion none)
  | initial | requeued | issued =>
    rw [kept (by rw [GebrJob.isQueueable, status]; rfl)]
    exact ⟨fun absent _ => absent, fun absent => absent rfl⟩

end Update

section Tables

/-- The numbers of the known jobs and of those that wait for an id were given, each to one job. -/
structure Sound (maestro : GebrMaestroServer) : Prop where
  made : ∀ job, maestro.Known job → job < maestro.made
  waits : ∀ rid job, maestro.tempJobs rid = some job → job < maestro.made
  apart : ∀ rid job, maestro.tempJobs rid = some job → ¬ maestro.Known job
  alone : ∀ rid other job, maestro.tempJobs rid = some job → maestro.tempJobs other = some job →
    rid = other

/-- An entry of a table after a change is the new one, or an old one. -/
theorem update_some {table : String → Option ℕ} {id name : String} {entry : Option ℕ} {job : ℕ}
    (found : Function.update table id entry name = some job) :
    (name = id ∧ entry = some job) ∨ (name ≠ id ∧ table name = some job) := by
  by_cases same : name = id
  · rw [same, Function.update_self] at found
    exact .inl ⟨same, found⟩
  · rw [Function.update_of_ne same] at found
    exact .inr ⟨same, found⟩

/-- What is known after an id that was none is given to a job. -/
theorem known_insert {jobs : String → Option ℕ} {id : String} (unknown : jobs id = none)
    (job other : ℕ) :
    (∃ name, Function.update jobs id (some job) name = some other) ↔
      other = job ∨ ∃ name, jobs name = some other := by
  constructor
  · rintro ⟨name, found⟩
    rcases update_some found with ⟨-, same⟩ | ⟨-, old⟩
    · exact .inl (Option.some.inj same).symm
    · exact .inr ⟨name, old⟩
  · rintro (rfl | ⟨name, old⟩)
    · exact ⟨id, Function.update_self ..⟩
    · have apart : name ≠ id := by
        rintro rfl
        exact absurd (unknown.symm.trans old) (by simp)
      exact ⟨name, (Function.update_of_ne apart ..).trans old⟩

theorem sound_gebrMaestroServerNew : Sound gebrMaestroServerNew where
  made := fun _ ⟨_, known⟩ => absurd known (by simp [gebrMaestroServerNew])
  waits _ _ found := absurd found (by simp [gebrMaestroServerNew])
  apart _ _ found := absurd found (by simp [gebrMaestroServerNew])
  alone _ _ _ found := absurd found (by simp [gebrMaestroServerNew])

theorem Sound.of_tables {maestro next : GebrMaestroServer} (sound : Sound maestro)
    (made : maestro.made = next.made) (jobs : maestro.jobs = next.jobs)
    (tempJobs : maestro.tempJobs = next.tempJobs) : Sound next where
  made job known := made ▸ sound.made job (by rwa [GebrMaestroServer.Known, jobs])
  waits rid job found := made ▸ sound.waits rid job (tempJobs ▸ found)
  apart rid job found known :=
    sound.apart rid job (tempJobs ▸ found) (by rwa [GebrMaestroServer.Known, jobs])
  alone rid other job first second :=
    sound.alone rid other job (tempJobs ▸ first) (tempJobs ▸ second)

theorem Sound.setJob {maestro : GebrMaestroServer} (sound : Sound maestro) (job : ℕ)
    (value : GebrJob) : Sound (maestro.setJob job value) :=
  sound.of_tables rfl rfl rfl

/-- **An update changes the list alone.** -/
theorem updateQueuesModel_tables (maestro : GebrMaestroServer) (job : ℕ) :
    maestro.made = (updateQueuesModel maestro job).made ∧
      maestro.jobs = (updateQueuesModel maestro job).jobs ∧
      maestro.tempJobs = (updateQueuesModel maestro job).tempJobs := by
  unfold updateQueuesModel
  split
  all_goals try split_ifs
  all_goals exact ⟨rfl, rfl, rfl⟩

theorem Sound.update {maestro : GebrMaestroServer} (sound : Sound maestro) (job : ℕ) :
    Sound (updateQueuesModel maestro job) := by
  obtain ⟨made, jobs, tempJobs⟩ := updateQueuesModel_tables maestro job
  exact sound.of_tables made jobs tempJobs

theorem Sound.temporary {maestro : GebrMaestroServer} (sound : Sound maestro) (rid queue : String) :
    Sound (gebrMaestroServerAddTemporaryJob maestro rid queue) where
  made job known := Nat.lt_succ_of_lt (sound.made job known)
  waits name job found := by
    rcases update_some found with ⟨-, same⟩ | ⟨-, old⟩
    · exact Option.some.inj same ▸ Nat.lt_succ_self _
    · exact Nat.lt_succ_of_lt (sound.waits name job old)
  apart name job found known := by
    rcases update_some found with ⟨-, same⟩ | ⟨-, old⟩
    · exact absurd (sound.made job known) (Option.some.inj same ▸ Nat.lt_irrefl _)
    · exact sound.apart name job old known
  alone name other job first second := by
    have fresh {any : String} (old : maestro.tempJobs any = some job) : maestro.made ≠ job :=
      (Nat.ne_of_lt (sound.waits any job old)).symm
    rcases update_some first with ⟨one, new⟩ | ⟨-, old⟩ <;>
      rcases update_some second with ⟨two, again⟩ | ⟨-, before⟩
    · exact one.trans two.symm
    · exact absurd (Option.some.inj new) (fresh before)
    · exact absurd (Option.some.inj again) (fresh old)
    · exact sound.alone name other job old before

end Tables

section Messages

variable {maestro : GebrMaestroServer} {msg : JobMessage} {job : ℕ}

/-- A `JOB` message of a known job. -/
theorem parseJob_known (known : maestro.jobs msg.id = some job) :
    parseJob maestro msg =
      updateQueuesModel (maestro.setJob job (announced (maestro.job job) msg false)) job := by
  simp only [parseJob, jobOf, known, Bool.false_eq_true, if_false]

/-- The tables when a job that waits gets its id. -/
def adopted (maestro : GebrMaestroServer) (msg : JobMessage) (job : ℕ) : GebrMaestroServer :=
  { maestro.setJob job { maestro.job job with runid := msg.id } with
    tempJobs := Function.update maestro.tempJobs msg.tempId none
    jobs := Function.update maestro.jobs msg.id (some job) }

/-- The tables when a new job gets its id. -/
def defined (maestro : GebrMaestroServer) (msg : JobMessage) : GebrMaestroServer :=
  { (maestro.make (gebrJobNewWithId msg.id msg.parentId)).setJob maestro.made
      (announced ((maestro.make (gebrJobNewWithId msg.id msg.parentId)).job maestro.made)
        msg true) with
    jobs := Function.update maestro.jobs msg.id (some maestro.made) }

/-- A `JOB` message of a job that waits for its id. -/
theorem parseJob_waiting (unknown : maestro.jobs msg.id = none)
    (waits : maestro.tempJobs msg.tempId = some job) :
    parseJob maestro msg =
      updateQueuesModel ((adopted maestro msg job).setJob job
        (announced ((adopted maestro msg job).job job) msg false)) job := by
  simp only [parseJob, jobOf, unknown, waits, Bool.false_eq_true, if_false, adopted]

/-- A `JOB` message of a new job. -/
theorem parseJob_new (unknown : maestro.jobs msg.id = none)
    (fresh : maestro.tempJobs msg.tempId = none) :
    parseJob maestro msg = updateQueuesModel (defined maestro msg) maestro.made := by
  simp only [parseJob, jobOf, unknown, fresh, if_true, defined]
  rfl

theorem Sound.adopted (sound : Sound maestro) (unknown : maestro.jobs msg.id = none)
    (waits : maestro.tempJobs msg.tempId = some job) : Sound (adopted maestro msg job) where
  made other known := by
    rcases (known_insert unknown job other).1 known with rfl | old
    · exact sound.waits msg.tempId other waits
    · exact sound.made other old
  waits rid other found := by
    rcases update_some found with ⟨-, same⟩ | ⟨-, old⟩
    · exact absurd same (by simp)
    · exact sound.waits rid other old
  apart rid other found known := by
    rcases update_some found with ⟨-, same⟩ | ⟨apart, old⟩
    · exact absurd same (by simp)
    · rcases (known_insert unknown job other).1 known with rfl | before
      · exact apart (sound.alone rid msg.tempId other old waits)
      · exact sound.apart rid other old before
  alone rid name other first second := by
    rcases update_some first with ⟨-, same⟩ | ⟨-, old⟩
    · exact absurd same (by simp)
    · rcases update_some second with ⟨-, same⟩ | ⟨-, before⟩
      · exact absurd same (by simp)
      · exact sound.alone rid name other old before

theorem Sound.defined (sound : Sound maestro) (unknown : maestro.jobs msg.id = none) :
    Sound (defined maestro msg) where
  made other known := by
    rcases (known_insert unknown maestro.made other).1 known with rfl | old
    · exact Nat.lt_succ_self _
    · exact Nat.lt_succ_of_lt (sound.made other old)
  waits rid other found := Nat.lt_succ_of_lt (sound.waits rid other found)
  apart rid other found known := by
    rcases (known_insert unknown maestro.made other).1 known with rfl | old
    · exact absurd (sound.waits rid _ found) (Nat.lt_irrefl _)
    · exact sound.apart rid other found old
  alone := sound.alone

/-- **The tables stay sound.** -/
theorem step_sound (sound : Sound maestro) (event : Event) {next : GebrMaestroServer}
    (taken : step maestro event = some next) : Sound next := by
  cases event with
  | temporary rid queue => exact Option.some.inj taken ▸ sound.temporary rid queue
  | job msg =>
    obtain rfl : parseJob maestro msg = next := Option.some.inj taken
    cases known : maestro.jobs msg.id with
    | some job =>
      rw [parseJob_known known]
      exact Sound.update (sound.setJob job _) job
    | none =>
      cases waits : maestro.tempJobs msg.tempId with
      | some job =>
        rw [parseJob_waiting known waits]
        exact Sound.update ((sound.adopted known waits).setJob job _) job
      | none =>
        rw [parseJob_new known waits]
        exact Sound.update (sound.defined known) _
  | sta msg =>
    rw [step, parseSta] at taken
    cases known : maestro.jobs msg.id with
    | none => simp [known] at taken
    | some job =>
      rw [known] at taken
      exact Option.some.inj taken ▸ Sound.update (sound.setJob job _) job

end Messages

section Exact

variable {maestro next : GebrMaestroServer} {rows : List ℕ} {job : ℕ}

/-- A change of one job leaves all others as they belong. -/
theorem exactBut_of (listed : maestro.queuesModel = none :: rows.map some)
    (exact : QueuesExact maestro) (queues : next.queuesModel = maestro.queuesModel)
    (same : ∀ other, other ≠ job → next.job other = maestro.job other)
    (known : ∀ other, other ≠ job → (next.Known other ↔ maestro.Known other)) :
    ExactBut next job rows where
  listed := queues.trans listed
  once := ((queuesExact_iff listed).1 exact).1
  others other apart := by
    rw [same other apart, known other apart]
    exact ((queuesExact_iff listed).1 exact).2 other

theorem QueuesExact.not_mem (exact : QueuesExact maestro)
    (listed : maestro.queuesModel = none :: rows.map some) (unknown : ¬ maestro.Known job) :
    job ∉ rows :=
  fun member => unknown ((((queuesExact_iff listed).1 exact).2 job).1 member).1

/-- **A job that waits changes nothing on the list.** -/
theorem temporary_exact (sound : Sound maestro) (exact : QueuesExact maestro) (rid queue : String) :
    QueuesExact (gebrMaestroServerAddTemporaryJob maestro rid queue) := by
  obtain ⟨rows, listed, once, all⟩ := exact
  refine ⟨rows, listed, once, fun job => (all job).trans ?_⟩
  refine and_congr_right fun known => ?_
  have apart : job ≠ maestro.made := Nat.ne_of_lt (sound.made job known)
  exact Eq.congr_left (congrArg GebrJob.isQueueable (setJob_other maestro _ apart).symm)

/-- A new status of a known job keeps the list right if it decides whether the job belongs. -/
theorem known_exact_iff (exact : QueuesExact maestro) {name status : String}
    (known : maestro.jobs name = some job) {value : GebrJob}
    (reads : value.status = gebrmTaskTranslateStatus status) :
    QueuesExact (updateQueuesModel (maestro.setJob job value) job) ↔
      Decides maestro name status := by
  obtain ⟨rows, listed, once, all⟩ := id exact
  have but : ExactBut (maestro.setJob job value) job rows :=
    exactBut_of listed exact rfl (fun other apart => setJob_other maestro value apart)
      (fun other _ => Iff.rfl)
  have belongs : job ∈ rows ↔ (maestro.job job).isQueueable = true := by
    rw [all job]
    exact and_iff_right ⟨name, known⟩
  rw [update_exact_iff but ⟨name, known⟩, setJob_same, reads, belongs]
  refine imp_congr_right fun _ => ?_
  constructor
  · intro ends other found
    obtain rfl : job = other := Option.some.inj (known.symm.trans found)
    exact Bool.not_eq_true _ ▸ ends
  · exact fun ends live => absurd live (by simp [ends job known])

/-- A job that gets its id here is put right. -/
theorem unknown_exact (listed : maestro.queuesModel = none :: rows.map some)
    (exact : QueuesExact maestro) (unknown : ¬ maestro.Known job)
    (queues : next.queuesModel = maestro.queuesModel)
    (same : ∀ other, other ≠ job → next.job other = maestro.job other)
    (known : ∀ other, next.Known other ↔ other = job ∨ maestro.Known other) :
    QueuesExact (updateQueuesModel next job) := by
  have but : ExactBut next job rows := exactBut_of listed exact queues same fun other apart =>
    (known other).trans (or_iff_right apart)
  exact (update_exact_iff but ((known job).2 (.inl rfl))).2 fun _ => exact.not_mem listed unknown

/-- **A `JOB` message keeps the list right if its status decides.** -/
theorem parseJob_exact_iff (sound : Sound maestro) (exact : QueuesExact maestro) (msg : JobMessage) :
    QueuesExact (parseJob maestro msg) ↔ Decides maestro msg.id msg.status := by
  obtain ⟨rows, listed, -, -⟩ := id exact
  cases known : maestro.jobs msg.id with
  | some job =>
    rw [parseJob_known known]
    exact known_exact_iff exact known (announced_status ..)
  | none =>
    have decides : Decides maestro msg.id msg.status := fun _ job found =>
      absurd (known.symm.trans found) (by simp)
    refine iff_of_true ?_ decides
    cases waits : maestro.tempJobs msg.tempId with
    | some job =>
      rw [parseJob_waiting known waits]
      refine unknown_exact listed exact (sound.apart _ job waits) rfl (fun other apart => ?_)
        (known_insert known job)
      rw [setJob_other _ _ apart]
      exact setJob_other maestro _ apart
    | none =>
      rw [parseJob_new known waits]
      refine unknown_exact listed exact (fun old => Nat.lt_irrefl _ (sound.made _ old)) rfl
        (fun other apart => ?_) (known_insert known maestro.made)
      exact (setJob_other _ _ apart).trans (setJob_other maestro _ apart)

/-- **One event keeps the list right if it meets the guard.** -/
theorem step_exact_iff (sound : Sound maestro) (exact : QueuesExact maestro) (event : Event) :
    (∃ next, step maestro event = some next ∧ QueuesExact next) ↔ Meets maestro event := by
  cases event with
  | temporary rid queue =>
    exact iff_of_true ⟨_, rfl, temporary_exact sound exact rid queue⟩ trivial
  | job msg =>
    refine Iff.trans ⟨?_, fun right => ⟨_, rfl, right⟩⟩ (parseJob_exact_iff sound exact msg)
    rintro ⟨next, taken, right⟩
    exact Option.some.inj taken ▸ right
  | sta msg =>
    cases known : maestro.jobs msg.id with
    | none => simp [step, parseSta, Meets, known]
    | some job =>
      have own := known_exact_iff exact known
        (gebrJobSetStatus_status (maestro.job job) (gebrmTaskTranslateStatus msg.status) msg.parameter)
      simp [step, parseSta, Meets, known, own]

/-- The list stays right through every part of a run, and the program does not end. -/
def QueuesKept (events : List Event) : Prop :=
  ∀ before, before <+: events →
    ∃ final, Run.run step gebrMaestroServerNew before = some final ∧ QueuesExact final

/-- **The list is right in every run whose messages meet the guard, and in no other.** -/
theorem queuesKept_iff (events : List Event) :
    QueuesKept events ↔ Run.Guarded step Meets gebrMaestroServerNew events :=
  have start : QueuesExact gebrMaestroServerNew :=
    ⟨[], rfl, List.nodup_nil, fun _ => by simp [GebrMaestroServer.Known, gebrMaestroServerNew]⟩
  Run.stays_iff_guarded (fun _ event _ sound taken => step_sound sound event taken)
    (fun _ event sound exact => step_exact_iff sound exact event) sound_gebrMaestroServerNew start

end Exact

section Witnesses

/-- A status of a job that is not known ends the program. -/
def staUnknown : List Event := [.sta ⟨"1", "running", ""⟩]

/-- A running job is put back. -/
def requeuedRow : List Event :=
  [.job ⟨"1", "", "", "running", "", ""⟩, .sta ⟨"1", "requeued", ""⟩]

/-- **The program ends at the one run, and offers a job that neither waits nor runs after the
other.** -/
theorem not_queuesKept :
    Run.run step gebrMaestroServerNew staUnknown = none ∧
      (∃ final, Run.run step gebrMaestroServerNew requeuedRow = some final ∧
        final.queuesModel = [none, some 0] ∧ (final.job 0).status = .requeued) ∧
      ¬ QueuesKept staUnknown ∧ ¬ QueuesKept requeuedRow := by
  have ends : Run.run step gebrMaestroServerNew staUnknown = none := rfl
  have kept : ∃ final, Run.run step gebrMaestroServerNew requeuedRow = some final ∧
      final.queuesModel = [none, some 0] ∧ (final.job 0).status = .requeued :=
    ⟨_, rfl, by decide +kernel, by decide +kernel⟩
  refine ⟨ends, kept, fun all => ?_, fun all => ?_⟩
  · obtain ⟨final, reaches, -⟩ := all staUnknown List.prefix_rfl
    exact absurd (ends.symm.trans reaches) (by simp)
  · obtain ⟨final, reaches, right⟩ := all requeuedRow List.prefix_rfl
    obtain ⟨other, again, listed, status⟩ := kept
    obtain rfl : final = other := Option.some.inj (reaches.symm.trans again)
    have row : final.queuesModel = none :: [0].map some := listed
    have live := ((((queuesExact_iff row).1 right).2 0).1 List.mem_cons_self).2
    rw [GebrJob.isQueueable, status] at live
    exact absurd live (by decide)

end Witnesses

end Gebr.Interface
