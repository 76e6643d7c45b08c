/-
**A live job is remembered.**

* `OnlyStops`: the table of jobs is kept, and a job whose status changes is stopped. Starting,
  killing and telling jobs does no more than that.
* `Remembered`: every job that is not stopped is in the table. `Remembered.settle`: what a task does
  to its job keeps it, since a job that is stopped stays so.
* `run_remembers_iff` — **in a run** no live job is forgotten, and no refused `/close` leaves a
  trace, just when every `/close` that finds a job finds one that is stopped and can be closed.
* `live_job_closed`: a running job is forgotten.
-/

import Gebr.Lib.Run
import Gebr.Maestro.Gebrm

namespace Gebr.Maestro.Gebrm

open Gebr.Comm
open Gebr.Lib
open Gebr.Maestro.App (GebrmApp Key gebrmAppNew gebrmAppJobControllerFind gebrmAppHandleRun
  onExecutionResponse onSignal onKill onClose)

section Table

/-- The table is kept, and a job whose status changes is stopped. -/
structure OnlyStops (app next : GebrmApp) : Prop where
  counter : next.counter = app.counter
  listed : ∀ id, (next.jobs id).listed = (app.jobs id).listed
  status : ∀ id, (next.jobs id).status = (app.jobs id).status ∨
    (next.jobs id).status.isStopped = true

/-- **Every job that is not stopped is in the table.** -/
def Remembered (app : GebrmApp) : Prop :=
  ∀ id < app.counter, (app.jobs id).status.isStopped = false → (app.jobs id).listed = true

variable {app mid next : GebrmApp} {isoDate : String} {failing : List ℕ}

theorem OnlyStops.of_jobs (counter : next.counter = app.counter)
    (jobs : ∀ id, (next.jobs id).listed = (app.jobs id).listed ∧
      (next.jobs id).status = (app.jobs id).status) : OnlyStops app next :=
  ⟨counter, fun id => (jobs id).1, fun id => Or.inl (jobs id).2⟩

theorem OnlyStops.refl (app : GebrmApp) : OnlyStops app app :=
  .of_jobs rfl fun _ => ⟨rfl, rfl⟩

theorem OnlyStops.trans (first : OnlyStops app mid) (second : OnlyStops mid next) :
    OnlyStops app next where
  counter := second.counter.trans first.counter
  listed := fun id => (second.listed id).trans (first.listed id)
  status := by
    intro id
    rcases second.status id with same | stopped
    · rw [same]
      exact first.status id
    · exact Or.inr stopped

theorem Remembered.onlyStops (good : Remembered app) (stops : OnlyStops app next) :
    Remembered next := by
  intro id below live
  rw [stops.listed id]
  rcases stops.status id with same | stopped
  · exact good id (stops.counter ▸ below) (same ▸ live)
  · exact absurd (stopped.symm.trans live) (by decide)

theorem onlyStops_setStatus (id : ℕ) {status : JobStatus} (stopped : status.isStopped = true)
    (app : GebrmApp) : OnlyStops app (App.gebrmJobSetStatus id status app) := by
  refine ⟨rfl, fun other => ?_, fun other => ?_⟩ <;> rw [App.jobs_setStatus] <;> split_ifs with same
  · rw [same]
  · rfl
  · exact Or.inr stopped
  · exact Or.inl rfl

theorem onlyStops_setChildren (id : ℕ) (children : List ℕ) (app : GebrmApp) :
    OnlyStops app (App.setChildren id children app) := by
  refine .of_jobs rfl fun other => ?_
  rw [App.jobs_setChildren]
  split_ifs with same
  · rw [same]
    exact ⟨rfl, rfl⟩
  · exact ⟨rfl, rfl⟩

theorem onlyStops_setQueue (id : ℕ) (parentId : Key) (app : GebrmApp) :
    OnlyStops app (App.gebrmJobSetQueue id parentId app) := by
  refine .of_jobs rfl fun other => ?_
  rw [App.jobs_setQueue]
  split_ifs with same
  · rw [same]
    exact ⟨rfl, rfl⟩
  · exact ⟨rfl, rfl⟩

/-- **The handler only stops jobs**: the children that it cannot start. -/
theorem onlyStops_onStatusChange (isoDate : String) (failing : List ℕ) (fuel id : ℕ)
    (old new : JobStatus) (parameter : Option String) (app : GebrmApp) :
    OnlyStops app
      (App.gebrmAppJobControllerOnStatusChange isoDate failing fuel id old new parameter app) := by
  cases stopped : new.isStopped with
  | false =>
    obtain ⟨queue, announced, sent, same⟩ :=
      App.onStatusChange_live isoDate failing stopped fuel id old parameter app
    rw [same]
    exact .of_jobs rfl fun _ => ⟨rfl, rfl⟩
  | true =>
    have quiet : ¬ (old = .initial ∧ new = .running) := by
      rintro ⟨-, rfl⟩
      cases stopped
    have frame : ∀ {mid next : GebrmApp}, OnlyStops app mid → next.counter = mid.counter →
        next.jobs = mid.jobs → OnlyStops app next := fun good counter jobs =>
      good.trans (.of_jobs counter fun _ => by rw [jobs]; exact ⟨rfl, rfl⟩)
    have kept := @App.onStatusChange_keep isoDate failing (OnlyStops app) (fun _ => True)
      (fun _ => True) (fun _ _ _ _ _ => trivial) (fun _ _ _ => trivial)
      (fun _ _ good _ _ => frame good rfl rfl)
      (fun mid child good _ => good.trans (onlyStops_setStatus child rfl mid))
      (fun mid id good => good.trans (onlyStops_setChildren id [] mid))
      (fun _ _ _ _ good _ => frame good rfl rfl) fuel
    exact kept quiet (.refl app) trivial

theorem onlyStops_killImmediately (id : ℕ) (app : GebrmApp) :
    OnlyStops app (App.gebrmJobKillImmediately isoDate failing id app) :=
  (onlyStops_setStatus id rfl app).trans (onlyStops_onStatusChange isoDate failing _ id _ _ _ _)

theorem onlyStops_response {id : ℕ} (taken : onExecutionResponse isoDate failing id app = some next) :
    OnlyStops app next := by
  have answered : OnlyStops app (App.responded id app) := .of_jobs rfl fun _ => ⟨rfl, rfl⟩
  rcases App.onExecutionResponse_some taken with ⟨-, rfl⟩ | ⟨nextRun, rest, -, ⟨-, rfl⟩ | ⟨-, rfl⟩⟩
  · exact answered
  · exact answered.trans (.of_jobs rfl fun _ => ⟨rfl, rfl⟩)
  · exact answered.trans (onlyStops_killImmediately nextRun _)

theorem onlyStops_kill (key : Key) (app : GebrmApp) :
    OnlyStops app (onKill isoDate failing key app) := by
  unfold App.onKill
  split
  · exact .refl app
  · rename_i id _
    split
    · unfold App.killQueued
      dsimp only
      refine OnlyStops.trans ?_ ((onlyStops_setStatus id rfl _).trans
        (onlyStops_onStatusChange isoDate failing _ id _ _ _ _))
      have place : ∀ (children own : List ℕ) (mid : GebrmApp), OnlyStops app mid →
          OnlyStops app (App.setChildren id own
            ((gebrmAppJobControllerFind (app.jobs id).parentId app).elim mid
              fun parent => App.setChildren parent children mid)) := by
        intro children own mid good
        cases gebrmAppJobControllerFind (app.jobs id).parentId app with
        | none => exact good.trans (onlyStops_setChildren id own mid)
        | some parent =>
          exact (good.trans (onlyStops_setChildren parent children mid)).trans
            (onlyStops_setChildren id own _)
      split
      · exact place _ [] app (.refl app)
      · rename_i child rest _
        have moved := onlyStops_setQueue child (app.jobs id).parentId app
        exact place _ rest _ (moved.trans (.of_jobs rfl fun _ => ⟨rfl, rfl⟩))
    · exact .refl app

/-- **A new job is in the table.** -/
theorem Remembered.handleRun (good : Remembered app) (parentId : Key) (servers : Bool)
    (mpiIssueMessage : String) :
    Remembered (gebrmAppHandleRun isoDate failing parentId servers mpiIssueMessage app) := by
  obtain ⟨job, made, next, -, listed, -, created, taken, outcome⟩ :=
    App.gebrmAppHandleRun_cases isoDate failing parentId servers mpiIssueMessage app
  rw [taken]
  have madeGood : Remembered made := by
    rw [created]
    intro id below live
    show (Function.update app.jobs app.counter job id).listed = true
    have live' : (Function.update app.jobs app.counter job id).status.isStopped = false := live
    by_cases new : id = app.counter
    · rw [new, Function.update_self]
      exact listed
    · rw [Function.update_of_ne new] at live' ⊢
      exact good id (Nat.lt_of_le_of_ne (Nat.le_of_lt_succ below) new) live'
  have frame : ∀ {mid next : GebrmApp}, OnlyStops made mid → next.counter = mid.counter →
      next.jobs = mid.jobs → OnlyStops made next := fun good counter jobs =>
    good.trans (.of_jobs counter fun _ => by rw [jobs]; exact ⟨rfl, rfl⟩)
  have pushed : ∀ queue, OnlyStops made { made with jobDefQueue := queue } :=
    fun _ => frame (.refl made) rfl rfl
  refine madeGood.onlyStops ?_
  rcases outcome with ⟨-, failed, rfl, rfl⟩ | ⟨-, queued, started, rfl, begun, rfl⟩ |
    ⟨-, parent, adopted, -, rfl, outcome⟩
  · -- The job has failed at once.
    exact frame (onlyStops_setStatus app.counter rfl made) rfl rfl
  · -- A root.
    rcases begun with ⟨-, -, rfl⟩ | ⟨-, -, rfl⟩ | ⟨-, rfl⟩
    · exact frame ((pushed _).trans (onlyStops_killImmediately app.counter _)) rfl rfl
    · exact frame (.refl made) rfl rfl
    · exact frame (.refl made) rfl rfl
  · -- A child.
    have adopted := (pushed (App.insertAfter parent app.counter app.jobDefQueue)).trans
      (onlyStops_setChildren parent (app.counter :: (made.jobs parent).children) _)
    rcases outcome with ⟨-, rfl⟩ | ⟨-, rfl⟩
    · exact adopted
    · exact frame adopted rfl rfl

end Table

section Signals

variable {base : JobStatus} {job : GebrmJob} {self next : Program} {isoDate : String}
  {failing : List ℕ} {id : ℕ}

/-- A job that had a status: what it has sent out since is no disconnection, and a change of its
status only when it was not stopped. -/
structure Tame (base : JobStatus) (job : GebrmJob) : Prop where
  live : job.status.isStopped = false → base.isStopped = false
  emitted : ∀ emission ∈ job.emitted, emission ≠ .disconnect ∧
    ((∃ old new parameter, emission = .statusChange old new parameter) → base.isStopped = false)

theorem tame_job (self : Program) (id : ℕ) : Tame (self.app.jobs id).status (self.job id) where
  live := fun live => live
  emitted := fun _ member => absurd member List.not_mem_nil

theorem Tame.emit (tame : Tame base job) {emission : Emission} (plain : emission ≠ .disconnect)
    (live : (∃ old new parameter, emission = .statusChange old new parameter) →
      base.isStopped = false) : Tame base (job.emit emission) where
  live := tame.live
  emitted := by
    intro other member
    rcases List.mem_append.1 member with before | new
    · exact tame.emitted other before
    · rw [List.mem_singleton.1 new]
      exact ⟨plain, live⟩

/-- **A report** makes a job that is stopped kill a task, and changes no status then. -/
theorem Tame.change (tame : Tame base job) (statusOf : ℕ → JobStatus) (frac : ℕ)
    (newStatus : JobStatus) (parameter : Option String) :
    Tame base (gebrmJobChangeTaskStatus statusOf frac newStatus parameter job) := by
  cases stopped : job.status.isStopped with
  | true =>
    rw [changeTaskStatus_stopped stopped]
    exact tame.emit (by rintro ⟨⟩) (by rintro ⟨_, _, _, ⟨⟩⟩)
  | false =>
    have live := tame.live stopped
    rcases changeTaskStatus_live statusOf frac newStatus parameter stopped with
      ⟨same, -⟩ | ⟨same, -⟩ | ⟨same, -⟩ <;> rw [same]
    · exact tame
    · exact ⟨fun _ => live, (tame.emit (by rintro ⟨⟩) fun _ => live).emitted⟩
    · exact ⟨fun _ => live, (tame.emit (by rintro ⟨⟩) fun _ => live).emitted⟩

theorem Tame.append (tame : Tame base job) (statusOf : ℕ → JobStatus) (isoDate : String) (frac : ℕ)
    (task : GebrmTask) : Tame base (gebrmJobAppendTask statusOf isoDate frac task job) := by
  have listed : Tame base { job with tasks := frac :: job.tasks } := ⟨tame.live, tame.emitted⟩
  have told : Tame base ((({ job with tasks := frac :: job.tasks } : GebrmJob).emit
      (.cmdLineReceived frac task.cmdLine)).emit (.output frac task.output)) :=
    (listed.emit (by rintro ⟨⟩) (by rintro ⟨_, _, _, ⟨⟩⟩)).emit (by rintro ⟨⟩)
      (by rintro ⟨_, _, _, ⟨⟩⟩)
  unfold gebrmJobAppendTask
  dsimp only
  generalize issued : (if task.issues ≠ "" then _ else _ : GebrmJob) = job'
  have tame' : Tame base job' := by
    rw [← issued]
    split_ifs
    · exact told.change statusOf frac .issued (some task.issues)
    · exact told
  split
  · exact tame'.change ..
  · exact tame'.change ..
  · exact tame'.change ..
  · exact tame'.change ..
  · exact tame'.change ..
  · exact tame'
  · exact tame'
  · exact tame'

theorem app_foldl {α : Type} {turn : Program → α → Program}
    (keep : ∀ self item, (turn self item).app = self.app) (list : List α) (self : Program) :
    (list.foldl turn self).app = self.app := by
  induction list generalizing self with
  | nil => rfl
  | cons item list ih => rw [List.foldl_cons, ih, keep]

theorem app_taskKill (id frac : ℕ) (self : Program) : (gebrmTaskKill id frac self).app = self.app := by
  unfold gebrmTaskKill
  split <;> rfl

theorem app_jobKillTasks (id : ℕ) (self : Program) : (gebrmJobKillTasks id self).app = self.app :=
  app_foldl (fun self frac => app_taskKill id frac self) _ self

theorem app_jobKill (id : ℕ) (self : Program) : (gebrmJobKill id self).app = self.app := by
  unfold gebrmJobKill
  split_ifs
  · exact app_jobKillTasks id self
  · rfl

theorem app_taskClose (id frac : ℕ) (self : Program) :
    (gebrmTaskClose id frac self).app = self.app := by
  unfold gebrmTaskClose
  split
  · rfl
  · dsimp only
    split_ifs <;> rfl

theorem app_jobClose (id : ℕ) (self : Program) : (gebrmJobClose id self).2.app = self.app := by
  unfold gebrmJobClose
  split_ifs
  · rfl
  · exact app_foldl (fun self frac => app_taskClose id frac self) _ self

/-- **One signal** leaves the table; a status that is not terminal is that of a job in the table. -/
theorem Remembered.deliver (good : Remembered self.app) {emission : Emission}
    (plain : emission ≠ .disconnect)
    (known : (∃ old new parameter, emission = .statusChange old new parameter) →
      id < self.app.counter → (self.app.jobs id).listed = true) :
    Remembered (deliver isoDate failing id self emission).app ∧
      (deliver isoDate failing id self emission).app.counter = self.app.counter ∧
      ∀ other, ((deliver isoDate failing id self emission).app.jobs other).listed =
        (self.app.jobs other).listed := by
  have frame : ∀ next : GebrmApp, OnlyStops self.app next → Remembered next ∧
      next.counter = self.app.counter ∧
      ∀ other, (next.jobs other).listed = (self.app.jobs other).listed := fun next stops =>
    ⟨good.onlyStops stops, stops.counter, stops.listed⟩
  cases emission with
  | kil frac => exact frame _ (by rw [Gebrm.deliver, app_taskKill]; exact .refl _)
  | statusChange old new parameter =>
    have app : (Gebrm.deliver isoDate failing id self (.statusChange old new parameter)).app =
        App.gebrmAppJobControllerOnStatusChange isoDate failing self.app.counter id old new parameter
          (App.gebrmJobSetStatus id new self.app) := by
      have killed : (if new = .failed then gebrmJobKillTasks id self else self).app = self.app := by
        split_ifs
        · exact app_jobKillTasks id self
        · rfl
      show onSignal isoDate failing id (.statusChange old new parameter)
        (if new = .failed then gebrmJobKillTasks id self else self).app = _
      rw [killed]
      rfl
    rw [app]
    have handled := onlyStops_onStatusChange isoDate failing self.app.counter id old new parameter
      (App.gebrmJobSetStatus id new self.app)
    have listed : ∀ other, ((App.gebrmJobSetStatus id new self.app).jobs other).listed =
        (self.app.jobs other).listed := by
      intro other
      rw [App.jobs_setStatus]
      split_ifs with same
      · rw [same]
      · rfl
    refine ⟨Remembered.onlyStops (fun other below live => ?_) handled, handled.counter,
      fun other => (handled.listed other).trans (listed other)⟩
    rw [listed]
    rw [App.jobs_setStatus] at live
    split_ifs at live with same
    · rw [same]
      exact known ⟨old, new, parameter, rfl⟩ (same ▸ below)
    · exact good other below live
  | issued parameter => exact frame _ (.of_jobs rfl fun _ => ⟨rfl, rfl⟩)
  | cmdLineReceived frac cmdLine => exact frame _ (.of_jobs rfl fun _ => ⟨rfl, rfl⟩)
  | output frac output => exact frame _ (.of_jobs rfl fun _ => ⟨rfl, rfl⟩)
  | disconnect => exact absurd rfl plain

/-- **What a task does to its job.** -/
theorem Remembered.settle (good : Remembered self.app) (tame : Tame (self.app.jobs id).status job) :
    Remembered (settle isoDate failing id job self).app := by
  have known : (self.app.jobs id).status.isStopped = false → id < self.app.counter →
      (self.app.jobs id).listed = true := fun live below => good id below live
  have loop : ∀ (emitted : List Emission) (mid : Program),
      (∀ emission ∈ emitted, emission ∈ job.emitted) → Remembered mid.app →
      mid.app.counter = self.app.counter →
      (mid.app.jobs id).listed = (self.app.jobs id).listed →
      Remembered (emitted.foldl (Gebrm.deliver isoDate failing id) mid).app := by
    intro emitted
    induction emitted with
    | nil => exact fun mid _ midGood _ _ => midGood
    | cons emission emitted ih =>
      intro mid among midGood counter listed
      have here := tame.emitted emission (among emission List.mem_cons_self)
      have one := @Remembered.deliver mid isoDate failing id midGood emission here.1
        fun changes below => listed.trans (known (here.2 changes) (counter ▸ below))
      exact ih _ (fun other member => among other (List.mem_cons_of_mem _ member)) one.1
        (one.2.1.trans counter) ((one.2.2 id).trans listed)
  exact loop job.emitted _ (fun _ member => member) good rfl rfl

end Signals

section Step

variable {self next : Program} {input : Input} {isoDate : String} {failing : List ℕ}

/-- **A refused `/close` leaves no trace**: not in the table, nor in the job, nor at a client. -/
def RefusalKept (self : Program) (input : Input) (next : Program) : Prop :=
  ∀ key job, input.event = .close key → gebrmAppJobControllerFind key self.app = some job →
    gebrmJobCanClose self job = false → next = self

/-- **A `/close` that finds a job** finds one that is stopped, and that can be closed. -/
def CloseMet (self : Program) (input : Input) : Prop :=
  ∀ key job, input.event = .close key → gebrmAppJobControllerFind key self.app = some job →
    (self.app.jobs job).status.isStopped = true ∧ gebrmJobCanClose self job = true

theorem find_listed {app : GebrmApp} {key : Key} {job : ℕ}
    (found : gebrmAppJobControllerFind key app = some job) : (app.jobs job).listed = true := by
  cases key with
  | other text => cases found
  | num id =>
    simp only [App.gebrmAppJobControllerFind] at found
    split at found
    · rename_i known
      obtain rfl := Option.some.inj found
      exact known.2
    · cases found

/-- What a `/close` does to a job that it finds. -/
theorem jobs_closeRequest {key : Key} {job : ℕ}
    (found : gebrmAppJobControllerFind key self.app = some job) (id : ℕ) :
    (onCloseRequest key self).app.jobs id =
      if id = job then { self.app.jobs job with listed := false } else self.app.jobs id := by
  unfold onCloseRequest
  rw [found]
  show (onClose key (gebrmJobClose job self).2.app).jobs id = _
  rw [app_jobClose]
  unfold App.onClose
  rw [found]
  exact Function.update_apply self.app.jobs job _ id

theorem counter_closeRequest (key : Key) (self : Program) :
    (onCloseRequest key self).app.counter = self.app.counter := by
  unfold onCloseRequest
  split
  · rfl
  · show (onClose key (gebrmJobClose _ self).2.app).counter = _
    rw [app_jobClose]
    unfold App.onClose
    split <;> rfl

/-- **A `/close`** forgets no live job, and leaves no trace when it is refused, just when it finds a
job that is stopped and can be closed. -/
theorem closeRequest_iff (good : Remembered self.app) {key : Key} (event : input.event = .close key) :
    (Remembered (onCloseRequest key self).app ∧ RefusalKept self input (onCloseRequest key self)) ↔
      CloseMet self input := by
  constructor
  · rintro ⟨remembers, kept⟩ key' job event' found
    obtain rfl : key = key' := Event.close.inj (event.symm.trans event')
    have gone := jobs_closeRequest found job
    rw [if_pos rfl] at gone
    constructor
    · by_contra live
      have still := remembers job
        (by rw [counter_closeRequest]; exact (App.find_some found).2)
        (by rw [gone]; exact Bool.eq_false_iff.2 live)
      rw [gone] at still
      exact Bool.false_ne_true still
    · by_contra refused
      have same := kept key job event' found (Bool.eq_false_iff.2 refused)
      rw [same] at gone
      have listed := find_listed found
      rw [gone] at listed
      exact Bool.false_ne_true listed
  · intro met
    refine ⟨fun id below live => ?_, fun key' job event' found refused => ?_⟩
    · cases found : gebrmAppJobControllerFind key self.app with
      | none =>
        have same : onCloseRequest key self = self := by
          unfold onCloseRequest
          rw [found]
        rw [same] at below live ⊢
        exact good id below live
      | some job =>
        rw [counter_closeRequest] at below
        rw [jobs_closeRequest found] at live ⊢
        split_ifs at live ⊢ with same
        · exact absurd ((met key job event found).1.symm.trans live) (by decide)
        · exact good id below live
    · exact absurd ((met key' job event' found).2.symm.trans refused) (by decide)

/-- What is no `/close` refuses nothing, and finds nothing. -/
theorem other_iff (remembers : Remembered next.app) (apart : ∀ key, input.event ≠ .close key) :
    (Remembered next.app ∧ RefusalKept self input next) ↔ CloseMet self input :=
  iff_of_true ⟨remembers, fun key _ event => absurd event (apart key)⟩
    fun key _ event => absurd event (apart key)

theorem app_daemonDisconnect (address : String) (self : Program) :
    (gebrmDaemonDisconnect address self).app = self.app := by
  unfold gebrmDaemonDisconnect
  dsimp only
  split_ifs <;> rfl

theorem app_runFlows (id : ℕ) (servers : List String) (frac : ℕ) (self : Program) :
    (runFlows id frac servers self).app = self.app := by
  induction servers generalizing frac self with
  | nil => rfl
  | cons server servers ih =>
    rw [runFlows, ih]
    rfl

/-- **One step** forgets no live job and leaves no trace of a refusal just when its `/close` is
met. -/
theorem step_remembers_iff (good : Remembered self.app) (taken : step self input = some next) :
    (Remembered next.app ∧ RefusalKept self input next) ↔ CloseMet self input := by
  obtain ⟨event, isoDate, failing⟩ := input
  cases event with
  | run parentId servers mpiIssueMessage =>
    obtain rfl := Option.some.inj taken
    exact other_iff (good.handleRun parentId servers mpiIssueMessage) (by rintro _ ⟨⟩)
  | close key =>
    obtain rfl := Option.some.inj taken
    exact closeRequest_iff good rfl
  | kill key =>
    obtain rfl := Option.some.inj taken
    refine other_iff ?_ (by rintro _ ⟨⟩)
    show Remembered (onKillRequest isoDate failing key self).app
    unfold onKillRequest
    split
    · exact good
    · split_ifs
      · exact good.onlyStops (onlyStops_kill key self.app)
      · rw [app_jobKill]
        exact good
  | disconnect client address confirm =>
    obtain rfl := Option.some.inj taken
    refine other_iff ?_ (by rintro _ ⟨⟩)
    show Remembered (onDisconnect isoDate failing client address confirm self).app
    unfold onDisconnect
    split
    · exact good
    · split_ifs
      · exact good
      · rw [app_daemonDisconnect]
        exact good
      · exact good
      · exact good
  | stop client address confirm =>
    obtain rfl := Option.some.inj taken
    refine other_iff ?_ (by rintro _ ⟨⟩)
    show Remembered (onStop isoDate failing client address confirm self).app
    unfold onStop
    split
    · exact good
    · split_ifs
      · exact good
      · exact good
  | divideAndRun id servers =>
    simp only [step] at taken
    split at taken
    · obtain ⟨app, answered, rfl⟩ := Option.map_eq_some_iff.1 taken
      have same : (divideAndRunFlows id servers self).app = self.app := app_runFlows id servers 1 _
      rw [same] at answered
      exact other_iff (good.onlyStops (onlyStops_response answered)) (by rintro _ ⟨⟩)
    · cases taken
  | mpiRun id server =>
    simp only [step] at taken
    split at taken
    · obtain rfl := Option.some.inj taken
      exact other_iff good (by rintro _ ⟨⟩)
    · cases taken
  | callRanFunc id =>
    simp only [step] at taken
    split at taken
    · obtain ⟨app, answered, rfl⟩ := Option.map_eq_some_iff.1 taken
      exact other_iff (good.onlyStops (onlyStops_response answered)) (by rintro _ ⟨⟩)
    · cases taken
  | taskDef address id frac issues cmdLine =>
    simp only [step] at taken
    split at taken
    · obtain rfl := Option.some.inj taken
      refine other_iff ?_ (by rintro _ ⟨⟩)
      unfold onTaskDef
      dsimp only
      split
      · exact good
      · exact Remembered.settle good ((tame_job _ _).append _ isoDate frac _)
    · cases taken
  | status id frac newStatus parameter =>
    simp only [step] at taken
    split at taken
    · cases taken
    · rename_i known _
      split at taken
      · obtain rfl := Option.some.inj taken
        refine other_iff ?_ (by rintro _ ⟨⟩)
        have heard : ∀ mid : Program, Remembered mid.app →
            Remembered (gebrmDaemonOnTaskStatusChange known.daemon newStatus mid).app := by
          intro mid remembers
          unfold gebrmDaemonOnTaskStatusChange
          split_ifs <;> exact remembers
        unfold emitStatusChanged
        dsimp only
        split_ifs
        · exact Remembered.settle (heard _ good) ((tame_job _ _).change _ frac newStatus _)
        · exact heard _ good
      · cases taken
  | stateChanged address state =>
    simp only [step] at taken
    split at taken
    · obtain rfl := Option.some.inj taken
      exact other_iff good (by rintro _ ⟨⟩)
    · cases taken

theorem remembered_start (connections : List ℕ) (daemons : List String) :
    Remembered (gebrmStart connections daemons).app :=
  fun id below => absurd below (Nat.not_lt_zero id)

/-- **In a run** no live job is forgotten, and no refused `/close` leaves a trace, if and only if
every `/close` that finds a job finds one that is stopped and can be closed. -/
theorem run_remembers_iff (connections : List ℕ) (daemons : List String) (inputs : List Input) :
    (∀ self input next,
      (self, input, next) ∈ Run.trace step (gebrmStart connections daemons) inputs →
        Remembered next.app ∧ RefusalKept self input next) ↔
    ∀ self input next,
      (self, input, next) ∈ Run.trace step (gebrmStart connections daemons) inputs →
        CloseMet self input := by
  let good : Program → Prop := fun self => Remembered self.app
  have start : good (gebrmStart connections daemons) := remembered_start connections daemons
  constructor
  · have keep : ∀ self input next, good self → step self input = some next →
        (Remembered next.app ∧ RefusalKept self input next) → good next ∧ CloseMet self input :=
      fun self input next here taken kept => ⟨kept.1, (step_remembers_iff here taken).1 kept⟩
    exact Run.trace_carries keep start
  · have keep : ∀ self input next, good self → step self input = some next →
        CloseMet self input → good next ∧ Remembered next.app ∧ RefusalKept self input next := by
      intro self input next here taken met
      have kept := (step_remembers_iff here taken).2 met
      exact ⟨kept.1, kept⟩
    exact Run.trace_carries keep start

/-- A job runs on a node; a client closes it. -/
def closedJob : List Input :=
  [⟨.run (.other "") true "", "t0", []⟩, ⟨.divideAndRun 0 ["node"], "t1", []⟩,
    ⟨.taskDef "node" 0 1 "" "sleep", "t2", []⟩, ⟨.close (.num 0), "t3", []⟩]

/-- **A running job is forgotten**, and its client is told that it is closed. -/
theorem live_job_closed :
    ∃ final, Run.run step (gebrmStart [0] ["node"]) closedJob = some final ∧
      (final.app.jobs 0).status = .running ∧ (final.app.jobs 0).listed = false ∧
      (0, .jcl 0) ∈ final.app.sent ∧ ¬ Remembered final.app := by
  refine ⟨_, rfl, by decide +kernel, by decide +kernel, by decide +kernel, fun remembers => ?_⟩
  exact absurd (remembers 0 (by decide +kernel) (by decide +kernel)) (by decide +kernel)

end Step

end Gebr.Maestro.Gebrm
