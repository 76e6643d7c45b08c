/-
**The status of a job over whole runs.**

* `StepKept`: what one step does to the status and the signals of a job.
* `step_wellAggregated`: a step that spares a stopped job keeps the invariant and is so.
* `run_aggregated`: `Aggregated` for every run of such steps, from a job that was just made.
* `destroyed_task_revives_job`: the destruction of a task of a finished job makes it `INITIAL`.
-/

import Gebr.Maestro.JobAggregation

namespace Gebr.Maestro

open Gebr.Comm Gebr.Lib

section Step

/-- What one step does to the status and the signals of a job. -/
structure StepKept (state : State) (event : Event) (next : State) : Prop where
  emits : Emits state.job next.job
  stays : state.job.status.isStopped = true → next.job.status = state.job.status
  first : ∀ status, brought state event = some status → state.job.status.isBad = false →
    next.job.status = status
  rest : brought state event = none → state.job.status.isBad = false →
    next.job.status.isBad = false
  killed : state.job.status.isStopped = true → ∀ frac, Speaks state event frac →
    ∃ new, next.job.emitted = state.job.emitted ++ new ∧ .kil frac ∈ new

theorem Emits.refl (job : GebrmJob) : Emits job job :=
  ⟨[], fun _ member => absurd member List.not_mem_nil, Or.inl (List.append_nil _).symm⟩

theorem complete_congr {statusOf other : ℕ → JobStatus} {job : GebrmJob}
    (same : ∀ frac ∈ job.tasks, statusOf frac = other frac) :
    job.Complete statusOf ↔ job.Complete other := by
  unfold GebrmJob.Complete
  refine and_congr_right fun _ => forall₂_congr fun frac member => ?_
  rw [same frac member]

/-- A change to tasks that the job does not list leaves the invariant. -/
theorem WellAggregated.retask {state : State} (good : WellAggregated state) {frac : ℕ}
    {task : Option GebrmTask} (unlisted : frac ∉ state.job.tasks)
    (moved : ∀ new, task = some new →
      new.status = .initial ∨ new.status = .running ∨ new.status.isStopped = true) :
    WellAggregated { state with task := Function.update state.task frac task } := by
  have other : ∀ member ∈ state.job.tasks, member ≠ frac := fun member listed same =>
    unlisted (same ▸ listed)
  have same : ∀ member ∈ state.job.tasks, State.statusOf
      { state with task := Function.update state.task frac task } member =
        state.statusOf member := fun member listed => by
    rw [statusOf_update, if_neg (other member listed)]
  refine ⟨good.distinct, good.bounded, fun member listed => ?_, fun member new alive => ?_,
    good.finished_iff.trans (complete_congr same).symm, good.bad_iff.trans ?_⟩
  · show (Function.update state.task frac task member).isSome
    rw [Function.update_of_ne (other member listed)]
    exact good.alive member listed
  · by_cases here : member = frac
    · rw [here] at alive
      exact moved new ((Function.update_self frac task state.task).symm.trans alive)
    · exact good.moved member new ((Function.update_of_ne here task state.task).symm.trans alive)
  · refine exists_congr fun member => and_congr_right fun listed => ?_
    rw [same member listed]

/-- A step that is not about a listed task, and leaves the job alone. -/
theorem stepKept_same {state next : State} {event : Event} (job : next.job = state.job)
    (quiet : brought state event = none) (silent : ∀ frac, ¬ Speaks state event frac) :
    StepKept state event next where
  emits := job ▸ Emits.refl _
  stays := fun _ => job ▸ rfl
  first := fun _ some _ => absurd (quiet.symm.trans some) (Option.some_ne_none _).symm
  rest := fun _ good => job ▸ good
  killed := fun _ frac speaks => absurd speaks (silent frac)

section Append

variable {state : State} {frac : ℕ} {isoDate : String} {task : GebrmTask}

/-- The invariant with one more task listed, apart from the status. -/
theorem WellAggregated.listed (good : WellAggregated state) (alive : state.task frac = some task)
    (below : frac < state.job.total) (unlisted : frac ∉ state.job.tasks) {job : GebrmJob}
    (tasks : job.tasks = frac :: state.job.tasks) (total : job.total = state.job.total)
    (parts : (job.status = .finished ↔ job.Complete state.statusOf) ∧
      (job.status.isBad = true ↔ ∃ frac ∈ job.tasks, (state.statusOf frac).isBad = true)) :
    WellAggregated ⟨job, state.task⟩ := by
  refine ⟨?_, ?_, ?_, good.moved, parts.1, parts.2⟩
  · show job.tasks.Nodup
    rw [tasks]
    exact List.nodup_cons.2 ⟨unlisted, good.distinct⟩
  · show ∀ frac ∈ job.tasks, frac < job.total
    rw [tasks, total]
    exact List.forall_mem_cons.2 ⟨below, good.bounded⟩
  · show ∀ frac ∈ job.tasks, (state.task frac).isSome
    rw [tasks]
    exact List.forall_mem_cons.2 ⟨by rw [alive]; rfl, good.alive⟩

/-- A task is appended to a stopped job. A finished job has no room for it, so this one has
failed. -/
theorem append_stopped (good : WellAggregated state) (alive : state.task frac = some task)
    (below : frac < state.job.total) (unlisted : frac ∉ state.job.tasks)
    (spares : Spares state (.append frac isoDate)) (stopped : state.job.status.isStopped = true) :
    let next : State := ⟨gebrmJobAppendTask state.statusOf isoDate frac task state.job, state.task⟩
    WellAggregated next ∧ StepKept state (.append frac isoDate) next := by
  obtain ⟨tasks, total, status, quiet, still, emitted, kills⟩ :=
    announceTask_spec state.statusOf frac task state.job
  have unfinished : state.job.status ≠ .finished := fun finished =>
    unlisted (mem_of_complete good.distinct good.bounded (good.finished_iff.1 finished).1 below)
  have failed : state.job.status.isBad = true :=
    ((JobStatus.isStopped_iff _).1 stopped).resolve_left unfinished
  have notFine : state.job.status.isBad ≠ false := ne_false_of_eq_true failed
  have parts : ∀ job : GebrmJob, job.tasks = frac :: state.job.tasks →
      job.status = state.job.status →
      (job.status = .finished ↔ job.Complete state.statusOf) ∧
        (job.status.isBad = true ↔
          ∃ frac ∈ job.tasks, (state.statusOf frac).isBad = true) := by
    intro job jobTasks jobStatus
    obtain ⟨worst, member, bad⟩ := good.bad_iff.1 failed
    have remains : ∃ frac ∈ job.tasks, (state.statusOf frac).isBad = true :=
      ⟨worst, by rw [jobTasks]; exact List.mem_cons_of_mem _ member, bad⟩
    rw [jobStatus]
    exact ⟨iff_of_false unfinished (not_complete_of_bad remains), iff_of_true failed remains⟩
  dsimp only
  rcases appendTask_eq state.statusOf isoDate frac state.job
    (good.moved frac task alive) with ⟨initial, same⟩ | ⟨-, parameter, same⟩
  · rw [same]
    refine ⟨good.listed alive below unlisted tasks total (parts _ tasks status),
      ⟨quiet, still, Or.inl emitted⟩, fun _ => status, fun _ _ fine => absurd fine notFine,
      fun _ fine => absurd fine notFine, fun _ other speaks => ?_⟩
    obtain rfl : frac = other := speaks
    exact ⟨quiet, emitted, kills stopped (spares stopped task alive initial)⟩
  · have grown : (announceTask state.statusOf frac task state.job).emitted ++ [.kil frac] =
        state.job.emitted ++ (quiet ++ [.kil frac]) := by
      rw [emitted, List.append_assoc]
    rw [same, changeTaskStatus_stopped (status ▸ stopped)]
    refine ⟨good.listed alive below unlisted tasks total (parts _ tasks status),
      ⟨quiet ++ [.kil frac], fun emission member => ?_, Or.inl grown⟩, fun _ => status,
      fun _ _ fine => absurd fine notFine, fun _ fine => absurd fine notFine,
      fun _ other speaks => ?_⟩
    · rcases List.mem_append.1 member with early | late
      · exact still emission early
      · rw [List.mem_singleton.1 late]
        rfl
    · obtain rfl : frac = other := speaks
      exact ⟨quiet ++ [.kil frac], grown, List.mem_append_right _ (List.mem_singleton.2 rfl)⟩

/-- A task is appended to a job that is not stopped. -/
theorem append_live (good : WellAggregated state) (alive : state.task frac = some task)
    (below : frac < state.job.total) (unlisted : frac ∉ state.job.tasks)
    (live : state.job.status.isStopped = false) :
    let next : State := ⟨gebrmJobAppendTask state.statusOf isoDate frac task state.job, state.task⟩
    WellAggregated next ∧ StepKept state (.append frac isoDate) next := by
  obtain ⟨tasks, total, status, quiet, still, emitted, -⟩ :=
    announceTask_spec state.statusOf frac task state.job
  have own : state.statusOf frac = task.status := statusOf_some alive
  have bring : brought state (.append frac isoDate) =
      if task.status.isBad = true then some task.status else none := by
    rw [brought, own]
  have running : (announceTask state.statusOf frac task state.job).status.isStopped = false := by
    rw [status, live]
  have listed : frac ∈ (announceTask state.statusOf frac task state.job).tasks := by
    rw [tasks]
    exact List.mem_cons_self
  have others : ∀ other ∈ (announceTask state.statusOf frac task state.job).tasks,
      other ≠ frac → (state.statusOf other).isBad = false := by
    rw [tasks]
    intro other member apart
    exact (good.live live).1 other ((List.mem_cons.1 member).resolve_left apart)
  have notStopped : state.job.status.isStopped ≠ true := by
    rw [live]
    exact Bool.false_ne_true
  dsimp only
  rcases appendTask_eq state.statusOf isoDate frac state.job
    (good.moved frac task alive) with
    ⟨initial, same⟩ | ⟨begun, parameter, same⟩
  · have parts := status_parts listed others (Or.inr ⟨running, by rw [own, initial]; rfl,
      by rw [own, initial]; rintro ⟨⟨⟩, -⟩⟩)
    rw [same]
    refine ⟨good.listed alive below unlisted tasks total parts, ⟨quiet, still, Or.inl emitted⟩,
      fun _ => status, ?_, fun _ fine => status ▸ fine, fun ended => absurd ended notStopped⟩
    rw [bring, initial]
    exact fun _ some _ => absurd some (Option.some_ne_none _).symm
  · obtain ⟨parts, bad, better, emits⟩ := report_live parameter running listed others
       (own ▸ begun)
    obtain ⟨sameTasks, sameTotal⟩ := changeTaskStatus_frame state.statusOf frac task.status
      parameter (announceTask state.statusOf frac task state.job)
    rw [own] at parts bad better emits
    rw [same]
    refine ⟨good.listed alive below unlisted (sameTasks.trans tasks) (sameTotal.trans total) parts,
      emits.after_quiet still emitted status, fun ended => absurd ended notStopped, ?_, ?_,
      fun ended => absurd ended notStopped⟩
    · rw [bring]
      intro failure some _
      split at some
      · rename_i isBad
        exact (bad isBad).trans (Option.some.inj some)
      · cases some
    · rw [bring]
      intro none _
      split at none
      · cases none
      · rename_i notBad
        exact better (Bool.eq_false_iff.2 notBad)

end Append

section Report

variable {state : State} {frac : ℕ} {newStatus : JobStatus} {isoDate parameter : String}
  {task : GebrmTask}

/-- The invariant after a listed task moved, apart from the status of the job. -/
theorem WellAggregated.moved_task (good : WellAggregated state)
    (moves : newStatus = .running ∨ newStatus.isStopped = true) (job : GebrmJob)
    (tasks : job.tasks = state.job.tasks) (total : job.total = state.job.total)
    {told : State} (store : told = ⟨state.job,
      Function.update state.task frac (some (taskSetStatus newStatus isoDate task))⟩)
    (parts : (job.status = .finished ↔ job.Complete told.statusOf) ∧
      (job.status.isBad = true ↔ ∃ frac ∈ job.tasks, (told.statusOf frac).isBad = true)) :
    WellAggregated ⟨job, told.task⟩ := by
  subst store
  refine ⟨tasks ▸ good.distinct, ?_, ?_, fun other new alive => ?_, parts.1, parts.2⟩
  · show ∀ frac ∈ job.tasks, frac < job.total
    rw [tasks, total]
    exact good.bounded
  · show ∀ other ∈ job.tasks, (Function.update state.task frac _ other).isSome
    rw [tasks]
    intro other member
    by_cases here : other = frac
    · rw [here, Function.update_self]
      rfl
    · rw [Function.update_of_ne here]
      exact good.alive other member
  · by_cases here : other = frac
    · rw [here] at alive
      have same := Option.some.inj ((Function.update_self frac _ state.task).symm.trans alive)
      rw [← same, taskSetStatus_status]
      exact Or.inr moves
    · exact good.moved other new ((Function.update_of_ne here _ state.task).symm.trans alive)

/-- **A listed task reports.** -/
theorem report_listed (good : WellAggregated state) (alive : state.task frac = some task)
    (begun : task.status = .initial ∨ task.status = .running)
    (moves : newStatus = .running ∨ newStatus.isStopped = true) (listed : frac ∈ state.job.tasks) :
    let told : State :=
      ⟨state.job, Function.update state.task frac (some (taskSetStatus newStatus isoDate task))⟩
    let next : State := ⟨gebrmJobChangeTaskStatus told.statusOf frac newStatus
      (some (statusParameter newStatus isoDate parameter)) state.job, told.task⟩
    WellAggregated next ∧ StepKept state (.report frac newStatus isoDate parameter) next := by
  intro told next
  have own : told.statusOf frac = newStatus := by
    rw [statusOf_update, if_pos rfl]
    exact taskSetStatus_status newStatus isoDate task
  have others : ∀ other, other ≠ frac → told.statusOf other = state.statusOf other :=
    fun other apart => by rw [statusOf_update, if_neg apart]
  have before : (state.statusOf frac).isStopped = false := by
    rw [statusOf_some alive]
    rcases begun with same | same <;> rw [same] <;> rfl
  have bring : brought state (.report frac newStatus isoDate parameter) =
      if newStatus.isBad = true then some newStatus else none := by
    simp only [brought, listed, true_and]
  cases stopped : state.job.status.isStopped with
  | true =>
    -- The task had not ended, so the job has failed, and through another task.
    have unfinished : state.job.status ≠ .finished := by
      intro finished
      have ended := (good.finished_iff.1 finished).2 frac listed
      rw [ended] at before
      exact Bool.false_ne_true before.symm
    have failed : state.job.status.isBad = true :=
      ((JobStatus.isStopped_iff _).1 stopped).resolve_left unfinished
    have notFine : state.job.status.isBad ≠ false := ne_false_of_eq_true failed
    obtain ⟨worst, member, bad⟩ := good.bad_iff.1 failed
    have apart : worst ≠ frac := by
      rintro rfl
      exact absurd bad (Bool.eq_false_iff.1 ((JobStatus.live_iff _).1 before).2)
    have remains : ∃ other ∈ state.job.tasks, (told.statusOf other).isBad = true :=
      ⟨worst, member, by rw [others worst apart, bad]⟩
    have same : next = ⟨{ state.job with emitted := state.job.emitted ++ [.kil frac] },
        told.task⟩ := by
      show (⟨gebrmJobChangeTaskStatus _ _ _ _ _, _⟩ : State) = _
      rw [changeTaskStatus_stopped stopped]
    rw [same]
    have parts : (state.job.status = .finished ↔ GebrmJob.Complete told.statusOf
          { state.job with emitted := state.job.emitted ++ [.kil frac] }) ∧
        (state.job.status.isBad = true ↔
          ∃ frac ∈ state.job.tasks, (told.statusOf frac).isBad = true) :=
      ⟨iff_of_false unfinished (not_complete_of_bad remains), iff_of_true failed remains⟩
    have kept : WellAggregated
        ⟨{ state.job with emitted := state.job.emitted ++ [.kil frac] }, told.task⟩ :=
      good.moved_task moves { state.job with emitted := state.job.emitted ++ [.kil frac] } rfl rfl
        rfl parts
    refine ⟨kept, ⟨[.kil frac], fun emission member => ?_, Or.inl rfl⟩, fun _ => rfl,
      fun _ _ fine => absurd fine notFine, fun _ fine => absurd fine notFine,
      fun _ other speaks => ?_⟩
    · rw [List.mem_singleton.1 member]
      rfl
    · obtain ⟨rfl, -⟩ : frac = other ∧ _ := speaks
      exact ⟨[.kil frac], rfl, List.mem_singleton.2 rfl⟩
  | false =>
    have notStopped : state.job.status.isStopped ≠ true := by
      rw [stopped]
      exact Bool.false_ne_true
    obtain ⟨parts, bad, better, emits⟩ := report_live
      (some (statusParameter newStatus isoDate parameter)) stopped listed
      (fun other member apart => (others other apart).symm ▸ (good.live stopped).1 other member)
      (own.symm ▸ moves : told.statusOf frac = .running ∨ (told.statusOf frac).isStopped = true)
    rw [own] at parts bad better emits
    obtain ⟨sameTasks, sameTotal⟩ := changeTaskStatus_frame told.statusOf frac newStatus
      (some (statusParameter newStatus isoDate parameter)) state.job
    refine ⟨good.moved_task moves _ sameTasks sameTotal rfl parts, emits,
      fun ended => absurd ended notStopped, ?_, ?_, fun ended => absurd ended notStopped⟩
    · rw [bring]
      intro failure some _
      split at some
      · rename_i isBad
        exact (bad isBad).trans (Option.some.inj some)
      · cases some
    · rw [bring]
      intro none _
      split at none
      · cases none
      · rename_i notBad
        exact better (Bool.eq_false_iff.2 notBad)

end Report

section Destroy

variable {state : State} {frac : ℕ}

/-- **A listed task of a job that is not stopped is destroyed.** The job goes back to `INITIAL`; the
tasks that are left are too few to be complete, and none of them is bad. -/
theorem destroy_listed (good : WellAggregated state) (listed : frac ∈ state.job.tasks)
    (live : state.job.status.isStopped = false) :
    let next : State :=
      ⟨onTaskDestroy frac state.job, Function.update state.task frac none⟩
    WellAggregated next ∧ StepKept state (.destroy frac) next := by
  have shape : (onTaskDestroy frac state.job).tasks = state.job.tasks.erase frac ∧
      (onTaskDestroy frac state.job).total = state.job.total ∧
      (onTaskDestroy frac state.job).status = .initial ∧
      Emits state.job (onTaskDestroy frac state.job) := by
    unfold onTaskDestroy GebrmJob.emit
    dsimp only
    split_ifs
    · refine ⟨rfl, rfl, rfl, [.disconnect], fun emission member => ?_, Or.inl rfl⟩
      rw [List.mem_singleton.1 member]
      rfl
    · exact ⟨rfl, rfl, rfl, [], fun _ member => absurd member List.not_mem_nil,
        Or.inr ⟨live, some "", rfl⟩⟩
    · exact ⟨rfl, rfl, rfl, [], fun _ member => absurd member List.not_mem_nil,
        Or.inl (List.append_nil _).symm⟩
  obtain ⟨tasks, total, status, emits⟩ := shape
  have left : ∀ other ∈ state.job.tasks.erase frac, other ∈ state.job.tasks ∧ other ≠ frac :=
    fun other member =>
      ⟨List.mem_of_mem_erase member, ((good.distinct.mem_erase_iff).1 member).1⟩
  have same : ∀ other, other ≠ frac → State.statusOf
      ⟨onTaskDestroy frac state.job, Function.update state.task frac none⟩ other =
        state.statusOf other := fun other apart => by
    unfold State.statusOf
    dsimp only
    rw [Function.update_of_ne apart]
  have short : (state.job.tasks.erase frac).length < state.job.total := by
    have fewer := length_le_total good.distinct good.bounded
    have some := List.length_pos_of_mem listed
    rw [List.length_erase_of_mem listed]
    omega
  refine ⟨⟨?_, ?_, ?_, fun other new alive => ?_, ?_, ?_⟩, emits, fun ended => ?_,
    fun _ bad => absurd bad (Option.some_ne_none _).symm, fun _ _ => ?_, fun ended => ?_⟩
  · show (onTaskDestroy frac state.job).tasks.Nodup
    rw [tasks]
    exact good.distinct.erase frac
  · show ∀ other ∈ (onTaskDestroy frac state.job).tasks, other < (onTaskDestroy frac state.job).total
    rw [tasks, total]
    exact fun other member => good.bounded other (left other member).1
  · show ∀ other ∈ (onTaskDestroy frac state.job).tasks,
      (Function.update state.task frac none other).isSome
    rw [tasks]
    intro other member
    rw [Function.update_of_ne (left other member).2]
    exact good.alive other (left other member).1
  · by_cases here : other = frac
    · rw [here] at alive
      exact absurd ((Function.update_self frac none state.task).symm.trans alive)
        (Option.some_ne_none _).symm
    · exact good.moved other new ((Function.update_of_ne here none state.task).symm.trans alive)
  · show (onTaskDestroy frac state.job).status = .finished ↔ _
    rw [status]
    refine iff_of_false (by rintro ⟨⟩) fun complete => ?_
    have all := complete.1
    rw [tasks, total] at all
    omega
  · show (onTaskDestroy frac state.job).status.isBad = true ↔
      ∃ other ∈ (onTaskDestroy frac state.job).tasks, _
    rw [status, tasks]
    refine iff_of_false Bool.false_ne_true ?_
    rintro ⟨other, member, bad⟩
    rw [same other (left other member).2, (good.live live).1 other (left other member).1] at bad
    exact Bool.false_ne_true bad
  · exact absurd (live.symm.trans ended) Bool.false_ne_true
  · show (onTaskDestroy frac state.job).status.isBad = false
    rw [status]
    rfl
  · exact absurd (live.symm.trans ended) Bool.false_ne_true

end Destroy

/-- **Every step that spares a stopped job keeps the invariant**, and does to the status and the
signals what `StepKept` says. -/
theorem step_wellAggregated {state next : State} {event : Event} (good : WellAggregated state)
    (spares : Spares state event) (taken : step state event = some next) :
    WellAggregated next ∧ StepKept state event next := by
  cases event with
  | create frac issues cmdLine =>
    obtain ⟨missing, rfl⟩ := step_create_some taken
    have unlisted : frac ∉ state.job.tasks := fun listed => by
      have alive := good.alive frac listed
      rw [missing] at alive
      exact Bool.false_ne_true alive
    refine ⟨good.retask unlisted fun new same => ?_, stepKept_same rfl rfl fun _ speaks => speaks⟩
    rw [← Option.some.inj same]
    exact Or.inr (Or.inl rfl)
  | append frac isoDate =>
    obtain ⟨task, alive, below, unlisted, rfl⟩ := step_append_some taken
    cases stopped : state.job.status.isStopped with
    | true => exact append_stopped good alive below unlisted spares stopped
    | false => exact append_live good alive below unlisted stopped
  | report frac newStatus isoDate parameter =>
    obtain ⟨task, alive, begun, moves, told⟩ := step_report_some taken
    by_cases listed : frac ∈ state.job.tasks
    · simp only [if_pos listed] at told
      rw [told]
      exact report_listed good alive begun moves listed
    · simp only [if_neg listed] at told
      rw [told]
      refine ⟨good.retask listed fun new same => ?_, stepKept_same rfl ?_ fun other speaks =>
        listed (speaks.1 ▸ speaks.2)⟩
      · rw [← Option.some.inj same, taskSetStatus_status]
        exact Or.inr moves
      · simp only [brought, listed, false_and, if_false]
  | destroy frac =>
    obtain ⟨-, gone⟩ := step_destroy_some taken
    by_cases listed : frac ∈ state.job.tasks
    · simp only [if_pos listed] at gone
      rw [gone]
      exact destroy_listed good listed (spares listed)
    · simp only [if_neg listed] at gone
      rw [gone]
      exact ⟨good.retask listed fun new same => absurd same (Option.some_ne_none _).symm,
        stepKept_same rfl rfl fun _ speaks => speaks⟩

end Step

section Runs

theorem Fresh.wellAggregated {state : State} (fresh : Fresh state) : WellAggregated state := by
  have open_ : state.job.status ≠ .finished ∧ state.job.status.isBad = false := by
    rcases fresh.status with same | same <;> rw [same] <;> exact ⟨by rintro ⟨⟩, rfl⟩
  have empty : ∀ frac, frac ∉ state.job.tasks := fun frac => by
    rw [fresh.tasks]
    exact List.not_mem_nil
  refine ⟨fresh.tasks ▸ List.nodup_nil, fun frac listed => absurd listed (empty frac),
    fun frac listed => absurd listed (empty frac), fun frac task alive => ?_,
    iff_of_false open_.1 fun complete => ?_,
    iff_of_false (by rw [open_.2]; exact Bool.false_ne_true) ?_⟩
  · rcases fresh.task frac task alive with same | same
    · exact Or.inl same
    · exact Or.inr (Or.inl same)
  · have all := complete.1
    rw [fresh.tasks, List.length_nil] at all
    have some := fresh.total
    omega
  · rintro ⟨frac, listed, -⟩
    exact empty frac listed

/-- A status that is terminal stays to the end of the run. -/
theorem run_stays {state final : State} {events : List Event} (good : WellAggregated state)
    (spares : Run.Guarded step Spares state events)
    (reaches : Run.run step state events = some final)
    (stopped : state.job.status.isStopped = true) : final.job.status = state.job.status := by
  have keep : ∀ mid event next, WellAggregated mid ∧ mid.job.status = state.job.status →
      Spares mid event → step mid event = some next →
        WellAggregated next ∧ next.job.status = state.job.status := by
    rintro mid event next ⟨good, same⟩ spares taken
    obtain ⟨nextGood, kept⟩ := step_wellAggregated good spares taken
    exact ⟨nextGood, (kept.stays (same ▸ stopped)).trans same⟩
  exact (Run.guarded_invariant keep ⟨good, rfl⟩ spares reaches).2

/-- **The first failure decides**: from a job that has not failed, a run ends in the status of the
first failure brought to the job, if there is one. -/
theorem run_firstBad {state final : State} {events : List Event} (good : WellAggregated state)
    (spares : Run.Guarded step Spares state events)
    (reaches : Run.run step state events = some final)
    (fine : state.job.status.isBad = false) :
    firstBad state events =
      if final.job.status.isBad = true then some final.job.status else none := by
  induction events generalizing state with
  | nil =>
    obtain rfl := Option.some.inj reaches
    rw [fine]
    rfl
  | cons event events ih =>
    obtain ⟨next, taken, rest⟩ := Option.bind_eq_some_iff.1 reaches
    obtain ⟨nextGood, kept⟩ := step_wellAggregated good spares.1 taken
    unfold firstBad at ih ⊢
    rw [Run.trace_cons taken, List.filterMap_cons]
    cases failure : brought state event with
    | none => exact ih nextGood (spares.2 next taken) rest (kept.rest failure fine)
    | some status =>
      have now := kept.first status failure fine
      have bad : status.isBad = true := by
        cases event with
        | create => cases failure
        | destroy => cases failure
        | append frac isoDate =>
          simp only [brought] at failure
          split at failure
          · rename_i isBad
            rw [← Option.some.inj failure, isBad]
          · cases failure
        | report frac newStatus isoDate parameter =>
          simp only [brought] at failure
          split at failure
          · rename_i isBad
            rw [← Option.some.inj failure, isBad.2]
          · cases failure
      have ended : next.job.status.isStopped = true := by
        rw [now, JobStatus.isStopped_iff]
        exact Or.inr bad
      have same := run_stays nextGood (spares.2 next taken) rest ended
      rw [same, now, if_pos bad]
      rfl

/-- **The status of a job is that of its tasks, over every run that spares the tasks of a stopped
job.** -/
theorem run_aggregated {start final : State} (fresh : Fresh start) {events : List Event}
    (spares : Run.Guarded step Spares start events)
    (reaches : Run.run step start events = some final) : Aggregated start events final where
  finished_iff := (Run.guarded_invariant
    (fun _ _ _ good spares taken => (step_wellAggregated good spares taken).1)
    fresh.wellAggregated spares reaches).finished_iff
  first_bad := by
    refine run_firstBad fresh.wellAggregated spares reaches ?_
    rcases fresh.status with same | same <;> rw [same] <;> rfl
  stays := by
    rintro before after mid rfl first stopped
    obtain ⟨sparesFirst, sparesRest⟩ := Run.guarded_append spares first
    have good := Run.guarded_invariant
      (fun _ _ _ good spares taken => (step_wellAggregated good spares taken).1)
      fresh.wellAggregated sparesFirst first
    rw [Run.run_append, first] at reaches
    exact run_stays good sparesRest reaches stopped
  silent := by
    have ends : SignalsEnd start.job := by
      constructor
      · rw [fresh.emitted]
        exact List.Pairwise.nil
      · rw [fresh.emitted]
        exact fun _ member => absurd member List.not_mem_nil
    have keep : ∀ mid event next, WellAggregated mid ∧ SignalsEnd mid.job → Spares mid event →
        step mid event = some next → WellAggregated next ∧ SignalsEnd next.job := by
      rintro mid event next ⟨good, ends⟩ spares taken
      obtain ⟨nextGood, kept⟩ := step_wellAggregated good spares taken
      exact ⟨nextGood, ends.emits kept.emits kept.stays⟩
    exact (Run.guarded_invariant keep ⟨fresh.wellAggregated, ends⟩ spares reaches).2.silent
  killed := by
    intro s e t member stopped frac speaks
    have keep : ∀ state event next, WellAggregated state → Spares state event →
        step state event = some next → WellAggregated next ∧ StepKept state event next :=
      fun _ _ _ => step_wellAggregated
    exact (Run.trace_forall keep fresh.wellAggregated spares s e t member).killed stopped frac
      speaks

end Runs

section Pair

/-- A job with two tasks that have started. -/
def pair : State :=
  ⟨⟨none, [], 2, .initial, false, []⟩,
    fun frac => if frac < 2 then some ⟨.running, "", "cmd", "", some "t0", ""⟩ else none⟩

theorem pair_fresh : Fresh pair where
  tasks := rfl
  emitted := rfl
  total := by decide
  status := Or.inl rfl
  task := by
    intro frac task alive
    unfold pair at alive
    dsimp only at alive
    split at alive
    · rw [← Option.some.inj alive]
      exact Or.inr rfl
    · cases alive

/-- The first task fails before the second is appended. -/
def failingRun : List Event :=
  [.append 0 "t1", .report 0 .failed "t2" "", .append 1 "t3", .report 1 .finished "t4" ""]

theorem failingRun_spares : Run.Guarded step Spares pair failingRun := by
  refine ⟨fun stopped => absurd stopped Bool.false_ne_true, ?_⟩
  rintro _ ⟨⟩
  refine ⟨trivial, ?_⟩
  rintro _ ⟨⟩
  refine ⟨fun _ task alive initial => ?_, ?_⟩
  · cases alive
    cases initial
  · rintro _ ⟨⟩
    exact ⟨trivial, fun _ _ => trivial⟩

/-- The job of `failingRun` has failed, and has told the second task twice to die. -/
theorem run_aggregated_failing :
    ∃ final, Run.run step pair failingRun = some final ∧ Aggregated pair failingRun final :=
  ⟨_, rfl, run_aggregated pair_fresh failingRun_spares rfl⟩

/-- Both tasks finish, and then the first is destroyed. -/
def destroyingRun : List Event :=
  [.append 0 "t1", .append 1 "t2", .report 0 .finished "t3" "", .report 1 .finished "t4" "",
    .destroy 0]

/-- **The destruction of a task revives a finished job**: it is `INITIAL` again, and says so. -/
theorem destroyed_task_revives_job :
    Fresh pair ∧ ∃ final, Run.run step pair destroyingRun = some final ∧
      ¬ Aggregated pair destroyingRun final := by
  refine ⟨pair_fresh, _, rfl, fun aggregated => ?_⟩
  have stays := aggregated.stays (destroyingRun.take 4) [.destroy 0] _ rfl rfl rfl
  exact absurd stays (by decide)

end Pair

end Gebr.Maestro
