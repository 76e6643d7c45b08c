/-
**Every client shows every job as it stands.**

Whatever happens to a job, what the maestro tells of it keeps every client up to date: what the
status signal, the command line and the output say is what changed, and no message is about a task
that the client does not have.

* `change_told`: a report to the job, and what the clients make of it.
* `Good`: what is kept: the tasks known, and each client showing the job.
* `step_good`: one event is taken by the clients if it is taken by the job, and keeps it.
* `clients_mirror`: **in every run all clients show the job as it stands**, the first ones and those
  that came later.
-/

import Gebr.Maestro.JobMirror
import Mathlib.Data.List.Perm.Subperm

namespace Gebr.Maestro.JobMirror

open Gebr.Comm Gebr.Lib

section Change

variable {view : JobView} {job next final : GebrmJob}

/-- The job sends what makes a client show the status that it has, and nothing else of it
changes. -/
structure Heard (job next : GebrmJob) : Prop where
  tasks : next.tasks = job.tasks
  total : next.total = job.total
  issued : next.hasIssued = job.hasIssued
  shown : ∀ view : JobView, view.status = job.status → ∃ more, next.emitted = job.emitted ++ more ∧
    deliver view (more.flatMap told) = some { view with status := next.status }

theorem Heard.refl (job : GebrmJob) : Heard job job := by
  refine ⟨rfl, rfl, rfl, fun view same => ⟨[], (List.append_nil _).symm, ?_⟩⟩
  rw [← same]
  rfl

theorem Heard.kil (job : GebrmJob) (frac : ℕ) : Heard job (job.emit (.kil frac)) := by
  refine ⟨rfl, rfl, rfl, fun view same => ⟨[.kil frac], rfl, ?_⟩⟩
  show some view = some { view with status := job.status }
  rw [← same]

theorem Heard.change (job : GebrmJob) (newStatus : JobStatus) (parameter : Option String) :
    Heard job (GebrmJob.emit { job with status := newStatus }
    (.statusChange job.status newStatus parameter)) := by
  refine ⟨rfl, rfl, rfl, fun view _ => ⟨[.statusChange job.status newStatus parameter], rfl, ?_⟩⟩
  refine congrArg some ?_
  rw [translate_statusEnumToString]
  rfl

/-- **A report that is no issue** is heard as the status that the job has. -/
theorem change_heard (statusOf : ℕ → JobStatus) (frac : ℕ) {newStatus : JobStatus}
    (parameter : Option String) (plain : newStatus ≠ .issued) :
    Heard job (gebrmJobChangeTaskStatus statusOf frac newStatus parameter job) := by
  cases stopped : job.status.isStopped with
  | true =>
    rw [changeTaskStatus_stopped stopped]
    exact Heard.kil job frac
  | false =>
    rcases changeTaskStatus_live statusOf frac newStatus parameter stopped with
      ⟨still, -⟩ | ⟨-, issued⟩ | ⟨changed, -⟩
    · rw [still]
      exact Heard.refl job
    · exact absurd issued plain
    · rw [changed]
      exact Heard.change job newStatus parameter

/-- **A report of issues** is told once all tasks have come, or it changes nothing. -/
theorem issued_heard (statusOf : ℕ → JobStatus) (frac : ℕ) (parameter : Option String) :
    let next := gebrmJobChangeTaskStatus statusOf frac .issued parameter job
    Heard job next ∨ job.tasks.length = job.total ∧
      next = { job with hasIssued := true, emitted := job.emitted ++ [.issued parameter] } := by
  dsimp only
  cases stopped : job.status.isStopped with
  | true =>
    rw [changeTaskStatus_stopped stopped]
    exact Or.inl (Heard.kil job frac)
  | false =>
    by_cases complete : job.tasks.length = job.total
    · rcases changeTaskStatus_live statusOf frac .issued parameter stopped with
        ⟨still, -⟩ | ⟨issued, -⟩ | ⟨changed, -⟩
      · rw [still]
        exact Or.inl (Heard.refl job)
      · exact Or.inr ⟨complete, issued⟩
      · rw [changed]
        exact Or.inl (Heard.change job .issued parameter)
    · rw [gebrmJobChangeTaskStatus, gebrmJobIsStopped, stopped, if_neg Bool.false_ne_true,
        if_pos ⟨complete, by decide, by decide⟩]
      exact Or.inl (Heard.refl job)

/-- What an appended task has to report. -/
theorem appended_heard (statusOf : ℕ → JobStatus) (isoDate : String) (frac : ℕ) (task : GebrmTask)
    (job : GebrmJob) : Heard job (match task.status with
      | .failed => gebrmJobChangeTaskStatus statusOf frac .failed (some isoDate) job
      | .finished => gebrmJobChangeTaskStatus statusOf frac .finished (some task.finishDate) job
      | .canceled => gebrmJobChangeTaskStatus statusOf frac .canceled (some task.finishDate) job
      | .queued => gebrmJobChangeTaskStatus statusOf frac .queued job.parentId job
      | .running => gebrmJobChangeTaskStatus statusOf frac .running task.startDate job
      | .initial => job
      | .requeued => job
      | .issued => job) := by
  cases task.status with
  | failed => exact change_heard statusOf frac _ (by decide)
  | finished => exact change_heard statusOf frac _ (by decide)
  | canceled => exact change_heard statusOf frac _ (by decide)
  | queued => exact change_heard statusOf frac _ (by decide)
  | running => exact change_heard statusOf frac _ (by decide)
  | initial => exact Heard.refl job
  | requeued => exact Heard.refl job
  | issued => exact Heard.refl job

end Change

section Steps

variable {state next final : State} {view : JobView} {frac : ℕ}

/-- What a client shows of the job, and of what went wrong. -/
structure Shows (state : State) (view : JobView) : Prop where
  mirrors : Mirrors state view
  informed : Informed state view

/-- The messages that a signal-sending job has sent since then. -/
def since (state next : State) : List JobMessage :=
  (next.job.emitted.drop state.job.emitted.length).flatMap told

theorem since_eq {more : List Emission} (emitted : next.job.emitted = state.job.emitted ++ more) :
    since state next = more.flatMap told := by
  rw [since, emitted, List.drop_left]

/-- The tasks of the job stay, and so does what went wrong with them. -/
structure Stays (state next : State) : Prop where
  tasks : next.job.tasks = state.job.tasks
  total : next.job.total = state.job.total
  there : ∀ frac ∈ state.job.tasks, (next.task frac).isSome = (state.task frac).isSome ∧
    State.issuesOf next frac = State.issuesOf state frac

/-- What a client shows of the tasks stays too. -/
structure Alike (state next : State) : Prop extends Stays state next where
  texts : ∀ frac ∈ state.job.tasks, State.cmdLineOf next frac = State.cmdLineOf state frac ∧
    State.outputOf next frac = State.outputOf state frac

theorem Stays.issues (stays : Stays state next) :
    gebrmJobGetIssues next = gebrmJobGetIssues state := by
  rw [gebrmJobGetIssues, gebrmJobGetIssues, stays.tasks]
  cases tasks : state.job.tasks with
  | nil => rfl
  | cons frac fracs =>
    exact congrArg some (stays.there frac (by rw [tasks]; exact List.mem_cons_self)).2

theorem Stays.known (stays : Stays state next) (issued : next.job.hasIssued = state.job.hasIssued)
    (good : Known state) : Known next where
  distinct := stays.tasks ▸ good.distinct
  there := by
    intro frac member
    rw [stays.tasks] at member
    rw [stays.total, (stays.there frac member).1]
    exact good.there frac member
  complete := by
    rw [issued, stays.tasks, stays.total]
    exact good.complete
  issues := by
    rw [issued, stays.issues]
    exact good.issues

theorem Alike.shownTask (alike : Alike state next) : shownTask next = shownTask state := by
  funext frac
  rw [JobMirror.shownTask, JobMirror.shownTask, alike.tasks]
  by_cases member : frac ∈ state.job.tasks
  · rw [if_pos member, if_pos member, (alike.texts frac member).1, (alike.texts frac member).2]
  · rw [if_neg member, if_neg member]

theorem Stays.informed (stays : Stays state next)
    (issued : next.job.hasIssued = state.job.hasIssued) {view' : JobView}
    (same : view'.issues = view.issues) (informed : Informed state view) : Informed next view' := by
  intro told
  rw [stays.issues, same]
  exact informed (issued ▸ told)

/-- A client that shows the tasks as before, and the status that the job has now. -/
theorem Alike.shows (alike : Alike state next) (issued : next.job.hasIssued = state.job.hasIssued)
    (shows : Shows state view) : Shows next { view with status := next.job.status } where
  mirrors := ⟨rfl, by rw [alike.shownTask, alike.total]; exact shows.mirrors.tasks⟩
  informed := alike.informed issued rfl shows.informed

/-- The texts of the other tasks stay when one is written. -/
theorem texts_update {task : Option GebrmTask} {job : GebrmJob} {other : ℕ} (away : other ≠ frac) :
    let next : State := ⟨job, Function.update state.task frac task⟩
    ((next.task other).isSome = (state.task other).isSome ∧ State.issuesOf next other =
      State.issuesOf state other) ∧ State.cmdLineOf next other = State.cmdLineOf state other ∧
      State.outputOf next other = State.outputOf state other := by
  have same : Function.update state.task frac task other = state.task other :=
    Function.update_of_ne away task state.task
  simp only [State.cmdLineOf, State.outputOf, State.issuesOf, same, and_self]

/-- Those of all tasks stay when one is written the same texts. -/
theorem texts_rewrite {task new : GebrmTask} {job : GebrmJob} (alive : state.task frac = some task)
    (same : new.issues = task.issues ∧ new.cmdLine = task.cmdLine ∧ new.output = task.output)
    (other : ℕ) : let next : State := ⟨job, Function.update state.task frac (some new)⟩
    ((next.task other).isSome = (state.task other).isSome ∧ State.issuesOf next other =
      State.issuesOf state other) ∧ State.cmdLineOf next other = State.cmdLineOf state other ∧
      State.outputOf next other = State.outputOf state other := by
  by_cases here : other = frac
  · subst here
    simp only [State.cmdLineOf, State.outputOf, State.issuesOf, Function.update_self, alive,
      Option.map_some, Option.getD_some, Option.isSome_some, true_and]
    exact same
  · exact texts_update here

/-- **What is known of the tasks is kept, and each client shows the job** when it has been told what
the job sent. -/
structure Keeps (state next : State) : Prop where
  known : Known next
  sent : ∃ more, next.job.emitted = state.job.emitted ++ more
  shown : ∀ view, Shows state view → ∃ view', deliver view (since state next) = some view' ∧
    Shows next view'

theorem since_since (first : ∃ more, next.job.emitted = state.job.emitted ++ more)
    (second : ∃ more, final.job.emitted = next.job.emitted ++ more) :
    since state final = since state next ++ since next final := by
  obtain ⟨more, first⟩ := first
  obtain ⟨rest, second⟩ := second
  have both : final.job.emitted = state.job.emitted ++ (more ++ rest) := by
    rw [second, first, List.append_assoc]
  rw [since_eq first, since_eq second, since_eq both, List.flatMap_append]

/-- **One thing after another.** -/
theorem Keeps.trans (first : Keeps state next) (second : Keeps next final) : Keeps state final where
  known := second.known
  sent := by
    obtain ⟨more, first⟩ := first.sent
    obtain ⟨rest, second⟩ := second.sent
    exact ⟨more ++ rest, by rw [second, first, List.append_assoc]⟩
  shown := by
    intro view shows
    obtain ⟨mid, toMid, midShows⟩ := first.shown view shows
    obtain ⟨last, toLast, lastShows⟩ := second.shown mid midShows
    refine ⟨last, ?_, lastShows⟩
    rw [since_since first.sent second.sent, deliver_append, toMid, Option.bind_some, toLast]

/-- A step in which the job hears of a status. -/
theorem heard_keeps (alike : Alike state next) (heard : Heard state.job next.job)
    (good : Known state) : Keeps state next := by
  refine ⟨alike.known heard.issued good, ?_, fun view shows => ?_⟩
  · obtain ⟨more, emitted, -⟩ := heard.shown ⟨state.job.status, [], none⟩ rfl
    exact ⟨more, emitted⟩
  obtain ⟨more, emitted, delivered⟩ := heard.shown view shows.mirrors.status
  refine ⟨_, ?_, alike.shows heard.issued shows⟩
  rw [since_eq emitted, delivered]

theorem quiet_keeps (alike : Alike state next) (same : next.job = state.job) (good : Known state) :
    Keeps state next :=
  heard_keeps alike (same ▸ Heard.refl state.job) good

/-- **A task that is new is none of the job's.** -/
theorem create_keeps {issues cmdLine : String} (good : Known state)
    (taken : Maestro.step state (.create frac issues cmdLine) = some next) : Keeps state next := by
  obtain ⟨missing, rfl⟩ := step_create_some taken
  have away (other : ℕ) (member : other ∈ state.job.tasks) : other ≠ frac := by
    rintro rfl
    have there := (good.there other member).2
    rw [missing] at there
    cases there
  exact quiet_keeps ⟨⟨rfl, rfl, fun other member => (texts_update (away other member)).1⟩,
    fun other member => (texts_update (away other member)).2⟩ rfl good

/-- **A report changes the status, and nothing of the texts.** -/
theorem report_keeps {newStatus : JobStatus} {isoDate parameter : String} (good : Known state)
    (taken : Maestro.step state (.report frac newStatus isoDate parameter) = some next) :
    Keeps state next := by
  obtain ⟨task, alive, -, moves, told⟩ := step_report_some taken
  dsimp only at told
  -- Nothing but the status and the dates of the task is written.
  have same : let new := taskSetStatus newStatus isoDate task
      new.issues = task.issues ∧ new.cmdLine = task.cmdLine ∧ new.output = task.output := by
    cases newStatus <;> exact ⟨rfl, rfl, rfl⟩
  by_cases listed : frac ∈ state.job.tasks
  · rw [if_pos listed] at told
    have plain : newStatus ≠ .issued := by
      rintro rfl
      rcases moves with ⟨⟨⟩⟩ | ⟨⟨⟩⟩
    subst told
    have heard : Heard state.job _ := change_heard
      (State.statusOf ⟨state.job, Function.update state.task frac
        (some (taskSetStatus newStatus isoDate task))⟩) frac
      (some (statusParameter newStatus isoDate parameter)) plain
    exact heard_keeps ⟨⟨heard.tasks, heard.total, fun other _ => (texts_rewrite alive same other).1⟩,
      fun other _ => (texts_rewrite alive same other).2⟩ heard good
  · rw [if_neg listed] at told
    subst told
    exact quiet_keeps ⟨⟨rfl, rfl, fun other _ => (texts_rewrite alive same other).1⟩,
      fun other _ => (texts_rewrite alive same other).2⟩ rfl good

theorem modifyTask_twice (frac : ℕ) (first second : TaskView → TaskView) (view : JobView) :
    (modifyTask frac first view).bind (fun view => modifyTask frac second view) =
      modifyTask frac (fun task => second (first task)) view := by
  unfold modifyTask
  by_cases below : frac < view.tasks.length
  · rw [if_pos below, if_pos below, Option.bind_some, if_pos (by rwa [List.length_modify])]
    exact congrArg (fun tasks => some { view with tasks := tasks })
      (List.modify_modify_eq first second frac view.tasks)
  · rw [if_neg below, if_neg below]
    rfl

/-- A client that shows the tasks after one of them was written. -/
theorem tasks_written {change : TaskView → TaskView} (shows : Mirrors state view)
    (below : frac < state.job.total) (total : next.job.total = state.job.total)
    (here : shownTask next frac = change (shownTask state frac))
    (away : ∀ other, other ≠ frac → shownTask next other = shownTask state other) :
    modifyTask frac change view =
      some { view with tasks := (List.range next.job.total).map (shownTask next) } := by
  rw [modifyTask_eq change shows.tasks below, total]
  congr 2
  refine List.map_congr_left fun other _ => ?_
  by_cases same : other = frac
  · rw [if_pos same, same, here]
  · rw [if_neg same, away other same]

/-- **Output is told of the tasks that the job has.** -/
theorem output_keeps {output : String} {task : GebrmTask} (alive : state.task frac = some task)
    (good : Known state) : Keeps state (emitOutput frac output task state) := by
  let new : GebrmTask := { task with output := task.output ++ output }
  by_cases listed : frac ∈ state.job.tasks
  · by_cases blank : output = ""
    · subst blank
      have same : new.issues = task.issues ∧ new.cmdLine = task.cmdLine ∧ new.output = task.output :=
        ⟨rfl, rfl, String.append_empty⟩
      rw [emitOutput, if_neg fun both => both.2 rfl]
      exact quiet_keeps ⟨⟨rfl, rfl, fun other _ => (texts_rewrite alive same other).1⟩,
        fun other _ => (texts_rewrite alive same other).2⟩ rfl good
    · rw [emitOutput, if_pos ⟨listed, blank⟩]
      set next : State :=
        ⟨state.job.emit (.output frac output), Function.update state.task frac (some new)⟩ with nextIs
      have stays : Stays state next := by
        refine ⟨rfl, rfl, fun other _ => ?_⟩
        by_cases here : other = frac
        · subst here
          simp only [nextIs, State.issuesOf, Function.update_self, alive]
          exact ⟨rfl, rfl⟩
        · exact (texts_update here).1
      refine ⟨stays.known rfl good, ⟨_, rfl⟩, fun view shows => ?_⟩
      have wrote : shownTask next frac =
          { shownTask state frac with output := (shownTask state frac).output ++ output } := by
        rw [shownTask, shownTask, if_pos (show frac ∈ next.job.tasks from listed), if_pos listed]
        simp only [nextIs, State.cmdLineOf, State.outputOf, Function.update_self, alive]
        rfl
      have away (other : ℕ) (here : other ≠ frac) : shownTask next other = shownTask state other := by
        have texts := (@texts_update state frac (some new) next.job other here).2
        rw [shownTask, shownTask, texts.1, texts.2]
        rfl
      have written : gebrJobAppendOutput frac output view =
          some { view with tasks := (List.range next.job.total).map (shownTask next) } :=
        tasks_written shows.mirrors (good.there frac listed).1 rfl wrote away
      refine ⟨{ view with tasks := (List.range next.job.total).map (shownTask next) }, ?_,
        ⟨shows.mirrors.status, rfl⟩, stays.informed rfl rfl shows.informed⟩
      have emitted : next.job.emitted = state.job.emitted ++ [.output frac output] := rfl
      rw [since_eq emitted, List.flatMap_singleton, told, deliver, Run.run_cons, parseMessage,
        written]
      rfl
  · have away (other : ℕ) (member : other ∈ state.job.tasks) : other ≠ frac := fun same =>
      listed (same ▸ member)
    rw [emitOutput, if_neg fun both => listed both.1]
    exact quiet_keeps ⟨⟨rfl, rfl, fun other member => (texts_update (away other member)).1⟩,
      fun other member => (texts_update (away other member)).2⟩ rfl good

/-- While a task is to come, no issues have been told. -/
theorem Known.waiting (good : Known state) (below : frac < state.job.total)
    (fresh : frac ∉ state.job.tasks) : state.job.hasIssued = false := by
  refine Bool.eq_false_iff.2 fun issued => ?_
  have distinct : (frac :: state.job.tasks).Nodup := List.nodup_cons.2 ⟨fresh, good.distinct⟩
  have subset : frac :: state.job.tasks ⊆ List.range state.job.total :=
    List.cons_subset.2
      ⟨List.mem_range.2 below, fun other member => List.mem_range.2 (good.there other member).1⟩
  have bound := (List.subperm_of_subset distinct subset).length_le
  rw [List.length_cons, List.length_range, good.complete issued] at bound
  exact Nat.lt_irrefl _ bound

/-- The job with a new task, whose command line and output have been told. -/
def withTask (state : State) (frac : ℕ) (task : GebrmTask) : State :=
  ⟨(GebrmJob.emit { state.job with tasks := frac :: state.job.tasks }
    (.cmdLineReceived frac task.cmdLine)).emit (.output frac task.output), state.task⟩

/-- A new task, with its command line and its output. -/
theorem listed_keeps {task : GebrmTask} (alive : state.task frac = some task)
    (below : frac < state.job.total) (fresh : frac ∉ state.job.tasks) (good : Known state) :
    Keeps state (withTask state frac task) := by
  have waiting := good.waiting below fresh
  set next : State := withTask state frac task with nextIs
  have stillWaiting : next.job.hasIssued = false := waiting
  have emitted : next.job.emitted =
      state.job.emitted ++ [.cmdLineReceived frac task.cmdLine, .output frac task.output] :=
        List.append_assoc _ _ _
  refine ⟨⟨List.nodup_cons.2 ⟨fresh, good.distinct⟩, ?_, ?_, ?_⟩, ⟨_, emitted⟩, fun view shows => ?_⟩
  · intro other member
    rcases List.mem_cons.1 member with rfl | member
    · exact ⟨below, by rw [show next.task = state.task from rfl, alive]; rfl⟩
    · exact good.there other member
  · intro issued
    rw [stillWaiting] at issued
    cases issued
  · intro issued
    rw [stillWaiting] at issued
    cases issued
  have before : shownTask state frac = ⟨none, ""⟩ := if_neg fresh
  have after : shownTask next frac = ⟨some task.cmdLine, task.output⟩ := by
    rw [shownTask, if_pos (show frac ∈ next.job.tasks from List.mem_cons_self)]
    simp only [nextIs, withTask, State.cmdLineOf, State.outputOf, alive]
    rfl
  have away (other : ℕ) (here : other ≠ frac) : shownTask next other = shownTask state other := by
    rw [shownTask, shownTask]
    refine if_congr ?_ rfl rfl
    exact ⟨fun member => (List.mem_cons.1 member).resolve_left here, List.mem_cons_of_mem _⟩
  -- The two messages write one task.
  have written : modifyTask frac (fun view => ⟨some task.cmdLine, view.output ++ task.output⟩) view =
      some { view with tasks := (List.range next.job.total).map (shownTask next) } := by
    refine tasks_written shows.mirrors below rfl ?_ away
    rw [after, before]
    exact congrArg (TaskView.mk _) String.empty_append.symm
  refine ⟨{ view with tasks := (List.range next.job.total).map (shownTask next) }, ?_,
    ⟨shows.mirrors.status, rfl⟩, ?_⟩
  · rw [since_eq emitted, ← written]
    refine Eq.trans ?_ (modifyTask_twice frac (fun view => ⟨some task.cmdLine, view.output⟩)
      (fun view => ⟨view.cmdLine, view.output ++ task.output⟩) view)
    show (gebrJobSetCmdLine frac _ view).bind
      (fun view => (gebrJobAppendOutput frac _ view).bind some) = _
    simp only [Option.bind_fun_some]
    rfl
  · intro issued
    rw [stillWaiting] at issued
    cases issued

/-- The last task that was appended is the one whose issues are shown. -/
theorem issued_keeps {task : GebrmTask} {fracs : List ℕ} (listed : state.job.tasks = frac :: fracs)
    (alive : state.task frac = some task) (text : task.issues ≠ "")
    (complete : state.job.tasks.length = state.job.total) (good : Known state) :
    Keeps state ⟨{ state.job with
      hasIssued :=
  true, emitted := state.job.emitted ++ [.issued (some task.issues)] }, state.task⟩ := by
  set next : State := ⟨_, state.task⟩ with nextIs
  have shownIssues : gebrmJobGetIssues next = some task.issues := by
    rw [gebrmJobGetIssues, show next.job.tasks = frac :: fracs from listed, List.head?_cons,
      Option.map_some, State.issuesOf, show next.task frac = some task from alive]
    rfl
  have sameTasks : shownTask next = shownTask state := rfl
  refine ⟨⟨good.distinct, good.there, fun _ => complete, fun _ => ⟨_, shownIssues, text⟩⟩, ⟨_, rfl⟩,
    fun view shows => ?_⟩
  refine ⟨{ view with issues := some task.issues }, ?_, ⟨shows.mirrors.status, shows.mirrors.tasks⟩,
    fun _ => ?_⟩
  · rw [since_eq rfl]
    rfl
  · rw [shownIssues]

/-- **A task that is appended**: its command line and its output are told, then its issues, then its
status. -/
theorem append_keeps {isoDate : String} (good : Known state)
    (taken : Maestro.step state (.append frac isoDate) = some next) : Keeps state next := by
  obtain ⟨task, alive, below, fresh, rfl⟩ := step_append_some taken
  have first := listed_keeps alive below fresh good
  let issued : GebrmJob :=
    if task.issues ≠ "" then
      gebrmJobChangeTaskStatus state.statusOf frac .issued (some task.issues)
        (withTask state frac task).job
    else (withTask state frac task).job
  have second : Keeps (withTask state frac task) ⟨issued, state.task⟩ := by
    by_cases blank : task.issues = ""
    · have same : issued = (withTask state frac task).job := if_neg (not_not.2 blank)
      rw [same]
      exact quiet_keeps ⟨⟨rfl, rfl, fun _ _ => ⟨rfl, rfl⟩⟩, fun _ _ => ⟨rfl, rfl⟩⟩ rfl first.known
    · have same : issued = _ := if_pos blank
      rw [same]
      have told : Heard (withTask state frac task).job _ ∨ _ := issued_heard state.statusOf frac
        (some task.issues)
      rcases told with heard | ⟨complete, told⟩
      · exact heard_keeps ⟨⟨heard.tasks, heard.total, fun _ _ => ⟨rfl, rfl⟩⟩, fun _ _ => ⟨rfl, rfl⟩⟩
          heard first.known
      · rw [told]
        exact issued_keeps rfl alive blank complete first.known
  have heard := appended_heard state.statusOf isoDate frac task issued
  exact (first.trans second).trans
    (heard_keeps ⟨⟨heard.tasks, heard.total, fun _ _ => ⟨rfl, rfl⟩⟩, fun _ _ => ⟨rfl, rfl⟩⟩ heard
      second.known)

theorem kill_keeps (isoDate : String) (good : Known state) :
    Keeps state { state with job := gebrmJobKillImmediately isoDate state.job } :=
  heard_keeps ⟨⟨rfl, rfl, fun _ _ => ⟨rfl, rfl⟩⟩, fun _ _ => ⟨rfl, rfl⟩⟩
    (Heard.change state.job .canceled (some isoDate)) good

/-- **A job that is defined again** is shown as it was. -/
theorem define_keeps (shows : Shows state view) :
    parseMessage (some view) (jobDef state) = some view := by
  have servers : gebrJobSetServers state.job.total view = view := by
    rw [gebrJobSetServers]
    by_cases empty : view.tasks = []
    · have none : state.job.total = 0 := by
        rw [← List.length_range (n := state.job.total), ← List.length_map (shownTask state),
          ← shows.mirrors.tasks, empty]
        rfl
      rw [if_neg (not_not.2 empty), none, List.replicate_zero, ← empty]
    · exact if_pos empty
  rw [jobDef, parseMessage, translate_statusEnumToString, servers, ← shows.mirrors.status]

end Steps

section Runs

variable {system start : System} {event : Event} {next : State}

/-- What is kept: what is known of the tasks, and that each client shows the job. -/
structure Good (system : System) : Prop where
  known : Known system.state
  shows : ∀ view ∈ system.views, Shows system.state view

theorem mapM_keeps {α β : Type} {f : α → Option β} {P : β → Prop} {xs : List α}
    (each : ∀ x ∈ xs, ∃ y, f x = some y ∧ P y) : ∃ ys, xs.mapM f = some ys ∧ ∀ y ∈ ys, P y := by
  induction xs with
  | nil => exact ⟨[], rfl, fun y member => absurd member List.not_mem_nil⟩
  | cons x xs ih =>
    rw [List.forall_mem_cons] at each
    obtain ⟨y, first, here⟩ := each.1
    obtain ⟨ys, rest, later⟩ := ih each.2
    refine ⟨y :: ys, ?_, List.forall_mem_cons.2 ⟨here, later⟩⟩
    rw [List.mapM_cons, first, rest]
    rfl

/-- What the clients are told of an event, which keeps what they show. -/
theorem messages_keep (good : Known system.state) (taken : stateAfter system.state event = some next) :
    Known next ∧ ∀ view, Shows system.state view →
      ∃ view', deliver view (messages system.state next event) = some view' ∧ Shows next view' := by
  have keeps (kept : Keeps system.state next) : Known next ∧ ∀ view, Shows system.state view →
      ∃ view', deliver view (since system.state next) = some view' ∧ Shows next view' :=
        ⟨kept.known, kept.shown⟩
  cases event with
  | create frac issues cmdLine => exact keeps (create_keeps good taken)
  | append frac isoDate => exact keeps (append_keeps good taken)
  | report frac newStatus isoDate parameter => exact keeps (report_keeps good taken)
  | output frac output =>
    obtain ⟨task, alive, rfl⟩ := Option.map_eq_some_iff.1 taken
    exact keeps (output_keeps alive good)
  | killImmediately isoDate =>
    cases taken
    exact keeps (kill_keeps isoDate good)
  | define =>
    cases taken
    refine ⟨good, fun view shows => ⟨view, ?_, shows⟩⟩
    rw [messages, deliver, Run.run_cons, define_keeps shows]
    rfl
  | join =>
    cases taken
    exact ⟨good, fun view shows => ⟨view, rfl, shows⟩⟩

/-- **One event**: the clients take what the job takes, and show it. -/
theorem step_good (good : Good system) (taken : stateAfter system.state event = some next) :
    ∃ after, step system event = some after ∧ after.state = next ∧ Good after := by
  obtain ⟨known, each⟩ := messages_keep good.known taken
  obtain ⟨views, delivered, shows⟩ := mapM_keeps fun view member => each view (good.shows view member)
  have plain : (some ⟨next, views⟩ : Option System) = some ⟨next, views⟩ ∧ Good ⟨next, views⟩ :=
    ⟨rfl, known, shows⟩
  rw [step, taken, Option.bind_some, delivered, Option.bind_some]
  cases event with
  | join =>
    obtain ⟨view, joined, mirrors, informed⟩ := mirrors_join known
    refine ⟨⟨next, views ++ [view]⟩, ?_, rfl, known, ?_⟩
    · dsimp only
      rw [joined]
      rfl
    · exact List.forall_mem_append.2 ⟨shows, List.forall_mem_singleton.2 ⟨mirrors, informed⟩⟩
  | create frac issues cmdLine => exact ⟨_, rfl, rfl, known, shows⟩
  | append frac isoDate => exact ⟨_, rfl, rfl, known, shows⟩
  | report frac newStatus isoDate parameter => exact ⟨_, rfl, rfl, known, shows⟩
  | output frac output => exact ⟨_, rfl, rfl, known, shows⟩
  | killImmediately isoDate => exact ⟨_, rfl, rfl, known, shows⟩
  | define => exact ⟨_, rfl, rfl, known, shows⟩

/-- A job that has just been defined: the clients made of the message a new job, or filled one that
had no servers. -/
structure Fresh (system : System) : Prop where
  tasks : system.state.job.tasks = []
  issued : system.state.job.hasIssued = false
  defined : ∀ view ∈ system.views, parseMessage none (jobDef system.state) = some view ∨
    ∃ old : JobView, old.tasks = [] ∧ parseMessage (some old) (jobDef system.state) = some view

theorem Fresh.good (fresh : Fresh start) : Good start where
  known := by
    refine ⟨?_, ?_, ?_, ?_⟩
    · rw [fresh.tasks]
      exact List.nodup_nil
    · rw [fresh.tasks]
      exact fun frac member => absurd member List.not_mem_nil
    · rw [fresh.issued]
      exact fun issued => absurd issued Bool.false_ne_true
    · rw [fresh.issued]
      exact fun issued => absurd issued Bool.false_ne_true
  shows := by
    intro view member
    have unlisted : shownTask start.state = fun _ => ⟨none, ""⟩ := by
      funext frac
      rw [shownTask, fresh.tasks, if_neg List.not_mem_nil]
    have tasks : List.replicate start.state.job.total ⟨none, ""⟩ =
        (List.range start.state.job.total).map (shownTask start.state) := by
      rw [unlisted, List.map_const', List.length_range]
    have uninformed (view : JobView) : Informed start.state view :=
      fun issued => absurd (fresh.issued ▸ issued) Bool.false_ne_true
    rcases fresh.defined view member with new | ⟨old, empty, filled⟩
    · rw [jobDef, parseMessage, translate_statusEnumToString] at new
      cases new
      exact ⟨⟨rfl, tasks⟩, uninformed _⟩
    · rw [jobDef, parseMessage, translate_statusEnumToString, gebrJobSetServers,
        if_neg (not_not.2 empty)] at filled
      cases filled
      exact ⟨⟨rfl, tasks⟩, uninformed _⟩

theorem good_of_run {events : List Event} (fresh : Fresh start)
    (reaches : Run.run step start events = some system) : Good system := by
  refine Run.run_invariant (fun before event after good taken => ?_) fresh.good reaches
  obtain ⟨next, moved, -⟩ := Option.bind_eq_some_iff.1 taken
  obtain ⟨after', same, -, good'⟩ := step_good good moved
  rw [taken] at same
  exact Option.some.inj same ▸ good'

/-- A job of two tasks, that is defined while one client is there. -/
def twoTasks : System :=
  ⟨⟨⟨none, [], 2, .queued, false, []⟩, fun _ => none⟩, [⟨.queued, [⟨none, ""⟩, ⟨none, ""⟩], none⟩]⟩

/-- Its tasks come one after the other, and a second client between them. -/
def twoTasksRun : List Event :=
  [.create 1 "" "sleep", .append 1 "", .output 1 "slept", .join, .create 0 "no file" "cat",
    .append 0 "", .report 1 .finished "now" ""]

end Runs

end Gebr.Maestro.JobMirror
