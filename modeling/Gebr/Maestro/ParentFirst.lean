/-
**A job that is queued behind another one is not started before it.**

A request may name a job as the parent of the new one. While the parent lives, the new job waits
among its children; it may be moved to another job when the parent is killed. Whatever happens, the
runner of the job is started only when its parent has been stopped.

* `Stopped`, `Waits`: what is known of the two jobs at any time; `past` is whether the parent was
  stopped before.
* `handler_waits`: the handler of a status keeps it, since it starts the children of a stopped job
  only.
* `step_waits`: so does every event.
* `HoldsNoMore`: only a request brings a job into the lists. `Bounded`: those in them have been
  made.
* `request_waits`: a new job is put among the children of its parent, unless that has been stopped.
* `child_waits` — **the parent has been stopped by the time the child is started**.
-/

import Gebr.Maestro.LiveJobs

namespace Gebr.Maestro.App

open Gebr.Comm Gebr.Lib
open Gebr.Maestro.Gebrm (OnlyStops onlyStops_setStatus onlyStops_setChildren onlyStops_setQueue
  onlyStops_onStatusChange onlyStops_killImmediately onlyStops_response onlyStops_kill)

section Waiting

/-- The job is in a terminal status. -/
def Stopped (app : GebrmApp) (id : ℕ) : Prop := (app.jobs id).status.isStopped = true

/-- The child waits for its parent, or that has been stopped. -/
structure Waits (past : Prop) (child parent : ℕ) (app : GebrmApp) : Prop where
  children : ∀ other, child ∈ (app.jobs other).children → other = parent ∨ past ∨ Stopped app parent
  started : child ∈ app.started → past ∨ Stopped app parent
  queued : child ∈ app.jobRunQueue → past ∨ Stopped app parent

/-- A job that is stopped stays so. -/
def Outlasts (app next : GebrmApp) : Prop := ∀ id, Stopped app id → Stopped next id

variable {past : Prop} {child parent id : ℕ} {app mid next : GebrmApp}

theorem Outlasts.refl (app : GebrmApp) : Outlasts app app := fun _ stopped => stopped

theorem Outlasts.trans (first : Outlasts app mid) (second : Outlasts mid next) : Outlasts app next :=
  fun id stopped => second id (first id stopped)

theorem Outlasts.of_jobs (same : next.jobs = app.jobs) : Outlasts app next := by
  intro id stopped
  rwa [Stopped, same]

/-- The lists may lose the child, when what was known of the parent stays known. -/
theorem Waits.shrink (waits : Waits past child parent app)
    (lasts : Stopped app parent → past ∨ Stopped next parent)
    (children : ∀ other, child ∈ (next.jobs other).children → child ∈ (app.jobs other).children)
    (started : child ∈ next.started → child ∈ app.started)
    (queued : child ∈ next.jobRunQueue → child ∈ app.jobRunQueue) : Waits past child parent next where
  children other member := (waits.children other (children other member)).imp_right fun known =>
    known.elim Or.inl lasts
  started member := (waits.started (started member)).elim Or.inl lasts
  queued member := (waits.queued (queued member)).elim Or.inl lasts

/-- The status of a job that is set to be stopped. -/
theorem outlasts_setStatus (status : JobStatus) (stopped : status.isStopped = true) (id : ℕ)
    (app : GebrmApp) : Outlasts app (gebrmJobSetStatus id status app) := by
  intro other before
  rw [Stopped, jobs_setStatus]
  split_ifs with same
  · exact stopped
  · exact before

theorem stopped_setStatus (status : JobStatus) (stopped : status.isStopped = true) (id : ℕ)
    (app : GebrmApp) : Stopped (gebrmJobSetStatus id status app) id := by
  rw [Stopped, jobs_setStatus, if_pos rfl]
  exact stopped

theorem stopped_setChildren {children : List ℕ} (other : ℕ) :
    Stopped (setChildren id children app) other ↔ Stopped app other := by
  rw [Stopped, Stopped, jobs_setChildren]
  split_ifs with same
  · rw [same]
  · rfl

theorem setChildren_waits {children : List ℕ} (waits : Waits past child parent app)
    (known : child ∈ children → id = parent ∨ past ∨ Stopped app parent) :
    Waits past child parent (setChildren id children app) := by
  have stays : past ∨ Stopped app parent → past ∨ Stopped (setChildren id children app) parent :=
    Or.imp_right (stopped_setChildren parent).2
  refine ⟨fun other member => ?_, fun member => stays (waits.started member), fun member =>
    stays (waits.queued member)⟩
  rw [children_setChildren] at member
  split_ifs at member with here
  · rw [here]
    exact (known member).imp_right stays
  · exact (waits.children other member).imp_right stays

theorem tellStatus_waits (id : ℕ) (old new : JobStatus) (parameter : Option String)
    (waits : Waits past child parent app) :
    Waits past child parent (tellStatus id old new parameter app) ∧
      Outlasts app (tellStatus id old new parameter app) := by
  obtain ⟨queue, announced, sent, same⟩ := tellStatus_frame id old new parameter app
  rw [same]
  exact ⟨⟨waits.children, waits.started, waits.queued⟩, Outlasts.of_jobs rfl⟩

/-- **The handler of a status** starts the children of a stopped job only. -/
theorem handler_waits (isoDate : String) (failing : List ℕ) (fuel : ℕ) {id : ℕ} {old new : JobStatus}
    {parameter : Option String} {app : GebrmApp} (waits : Waits past child parent app)
    (set : new.isStopped = true → Stopped app id) :
    Waits past child parent
      (gebrmAppJobControllerOnStatusChange isoDate failing fuel id old new parameter app) ∧
      Outlasts app (gebrmAppJobControllerOnStatusChange isoDate failing fuel id old new
      parameter app) := by
  induction fuel generalizing id old new parameter app with
  | zero => exact ⟨waits, Outlasts.refl app⟩
  | succ fuel ih =>
    unfold gebrmAppJobControllerOnStatusChange
    -- Each child is started, or killed, in turn.
    have loop : ∀ (children : List ℕ) (mid : GebrmApp), Waits past child parent mid →
        (child ∈ children → past ∨ Stopped mid parent) →
        let final := children.foldl
          (fun app child =>
            if child ∈ failing then
              gebrmAppJobControllerOnStatusChange isoDate failing fuel child
                (app.jobs child).status .canceled (some isoDate)
                (gebrmJobSetStatus child .canceled app)
            else gebrCommRunnerRunAsync child app) mid
        Waits past child parent final ∧ Outlasts mid final := by
      intro children
      induction children with
      | nil => exact fun mid waits _ => ⟨waits, Outlasts.refl mid⟩
      | cons first children ihList =>
        intro mid waits known
        dsimp only
        rw [List.foldl_cons]
        have one : Waits past child parent
            (if first ∈ failing then
              gebrmAppJobControllerOnStatusChange isoDate failing fuel first
                (mid.jobs first).status .canceled (some isoDate)
                  (gebrmJobSetStatus first .canceled mid)
            else gebrCommRunnerRunAsync first mid) ∧
            Outlasts mid (if first ∈ failing then
              gebrmAppJobControllerOnStatusChange isoDate failing fuel first
                (mid.jobs first).status .canceled (some isoDate)
                  (gebrmJobSetStatus first .canceled mid)
            else gebrCommRunnerRunAsync first mid) := by
          split_ifs with fails
          · have lasts := outlasts_setStatus .canceled rfl first mid
            have cancelled : Waits past child parent (gebrmJobSetStatus first .canceled mid) :=
              waits.shrink (fun stopped => Or.inr (lasts parent stopped))
                (fun other member => by rwa [children_setStatus] at member) (fun member => member)
                  (fun member => member)
            obtain ⟨after, outlasts⟩ := ih cancelled fun _ => stopped_setStatus .canceled rfl first mid
            exact ⟨after, lasts.trans outlasts⟩
          · refine ⟨⟨waits.children, fun member => ?_, waits.queued⟩, Outlasts.of_jobs rfl⟩
            rcases List.mem_append.1 member with before | new
            · exact waits.started before
            · rw [List.mem_singleton] at new
              exact known (new ▸ List.mem_cons_self)
        obtain ⟨rest, outlasts⟩ := ihList _ one.1 fun member =>
          (known (List.mem_cons_of_mem first member)).imp_right (one.2 parent)
        exact ⟨rest, one.2.trans outlasts⟩
    dsimp only
    split_ifs with stopped
    · have kids : child ∈ (app.jobs id).children → past ∨ Stopped app parent := by
        intro member
        rcases waits.children id member with rfl | known
        · exact Or.inr (set stopped)
        · exact known
      obtain ⟨after, outlasts⟩ := loop (app.jobs id).children app waits kids
      have cleared : Waits past child parent (setChildren id [] _) :=
        setChildren_waits after fun member => absurd member List.not_mem_nil
      obtain ⟨told, toldLasts⟩ := tellStatus_waits id old new parameter cleared
      refine ⟨told, (outlasts.trans fun other stopped => ?_).trans toldLasts⟩
      exact (stopped_setChildren other).2 stopped
    · exact tellStatus_waits id old new parameter waits

end Waiting

section Steps

variable {past : Prop} {child parent : ℕ} {app next : GebrmApp} {isoDate : String} {failing : List ℕ}

/-- What a step is taken from: the two jobs have been made, and `past` is known of a parent that is
stopped. -/
structure Waiting (past : Prop) (child parent : ℕ) (app : GebrmApp) :
    Prop extends Waits past child parent app where
  made : child < app.counter
  named : parent < app.counter
  settled : Stopped app parent → past

theorem killImmediately_waits (isoDate : String) (failing : List ℕ) (id : ℕ)
    (waits : Waits past child parent app) :
    Waits past child parent (gebrmJobKillImmediately isoDate failing id app) := by
  have lasts := outlasts_setStatus .canceled rfl id app
  have cancelled : Waits past child parent (gebrmJobSetStatus id .canceled app) :=
    waits.shrink (fun stopped => Or.inr (lasts parent stopped))
      (fun other member => by rwa [children_setStatus] at member) (fun member => member)
        (fun member => member)
  exact (handler_waits isoDate failing app.counter cancelled fun _ =>
    stopped_setStatus .canceled rfl id app).1

theorem run_waits (waiting : Waiting past child parent app) (parentId : Key) (servers : Bool)
    (mpiIssueMessage : String) :
    Waits past child parent
    (gebrmAppHandleRun isoDate failing parentId servers mpiIssueMessage app) := by
  obtain ⟨job, made, next, -, -, childless, madeIs, same, told⟩ :=
    gebrmAppHandleRun_cases isoDate failing parentId servers mpiIssueMessage app
  have other : app.counter ≠ child := (Nat.ne_of_lt waiting.made).symm
  have stays (stopped : Stopped app parent) : past ∨ Stopped made parent :=
    Or.inl (waiting.settled stopped)
  have before : Waits past child parent made := by
    rw [madeIs]
    exact waiting.toWaits.shrink (fun stopped => Or.inl (waiting.settled stopped))
      (fun id member => mem_children_of_update childless member) (fun member => member)
        (fun member => member)
  rw [same]
  rcases told with ⟨-, failed, failedIs, rfl⟩ | ⟨-, queued, started, queuedIs, begins, rfl⟩ |
    ⟨-, adopter, adopted, -, adoptedIs, told⟩
  · have lasts := outlasts_setStatus .failed rfl app.counter made
    have after : Waits past child parent failed := by
      rw [failedIs]
      exact before.shrink (fun stopped => Or.inr (lasts parent stopped))
        (fun id member => by rwa [children_setStatus] at member) (fun member => member)
          (fun member => member)
    exact ⟨after.children, after.started, after.queued⟩
  · have waits : Waits past child parent queued := by
      rw [queuedIs]
      exact ⟨before.children, before.started, before.queued⟩
    have after : Waits past child parent started := by
      rcases begins with ⟨-, -, rfl⟩ | ⟨-, -, rfl⟩ | ⟨-, rfl⟩
      · exact killImmediately_waits isoDate failing _ waits
      · refine ⟨waits.children, fun member => ?_, waits.queued⟩
        rcases List.mem_append.1 member with before | new
        · exact waits.started before
        · exact absurd (List.mem_singleton.1 new).symm other
      · exact waits
    refine ⟨after.children, after.started, fun member => ?_⟩
    rcases List.mem_append.1 member with before | new
    · exact after.queued before
    · exact absurd (List.mem_singleton.1 new).symm other
  · have after : Waits past child parent adopted := by
      rw [adoptedIs]
      have listed : Waits past child parent
          { made with jobDefQueue := insertAfter adopter app.counter app.jobDefQueue } :=
        ⟨before.children, before.started, before.queued⟩
      refine setChildren_waits listed fun member => ?_
      rcases List.mem_cons.1 member with new | old
      · exact absurd new.symm other
      · exact before.children adopter old
    rcases told with ⟨-, rfl⟩ | ⟨-, rfl⟩
    · exact after
    · exact ⟨after.children, after.started, after.queued⟩

/-- **A response starts the next root**, which is not waiting for the parent any more. -/
theorem response_waits (waits : Waits past child parent app) {id : ℕ}
    (taken : onExecutionResponse isoDate failing id app = some next) :
    Waits past child parent next := by
  have after : Waits past child parent (responded id app) :=
    ⟨waits.children, waits.started, fun member => waits.queued (List.mem_of_mem_tail member)⟩
  rcases onExecutionResponse_some taken with ⟨-, rfl⟩ | ⟨nextRun, rest, queue, ⟨-, rfl⟩ | ⟨-, rfl⟩⟩
  · exact after
  · refine ⟨after.children, fun member => ?_, after.queued⟩
    rcases List.mem_append.1 member with before | new
    · exact after.started before
    · refine waits.queued (List.mem_of_mem_tail ?_)
      rw [queue, List.mem_singleton.1 new]
      exact List.mem_cons_self
  · exact killImmediately_waits isoDate failing _ after

theorem setStatus_waits (waiting : Waiting past child parent app) (id : ℕ) (status : JobStatus) :
    Waits past child parent (gebrmJobSetStatus id status app) :=
  waiting.toWaits.shrink (fun stopped => Or.inl (waiting.settled stopped))
    (fun other member => by rwa [children_setStatus] at member) (fun member => member)
      (fun member => member)

theorem signal_waits (waiting : Waiting past child parent app) (id : ℕ) (emission : Emission) :
    Waits past child parent (onSignal isoDate failing id emission app) := by
  cases emission with
  | statusChange old new parameter =>
    refine (handler_waits isoDate failing app.counter (setStatus_waits waiting id new)
      fun stopped => ?_).1
    exact stopped_setStatus new stopped id app
  | issued parameter => exact ⟨waiting.children, waiting.started, waiting.queued⟩
  | cmdLineReceived frac cmdLine => exact ⟨waiting.children, waiting.started, waiting.queued⟩
  | output frac output => exact ⟨waiting.children, waiting.started, waiting.queued⟩
  | disconnect => exact setStatus_waits waiting id .initial
  | kil frac => exact waiting.toWaits

/-- **A job that is queued is killed**: its first child goes to its parent, and it is stopped
itself. -/
theorem killQueued_waits (id : ℕ) (waiting : Waiting past child parent app) :
    Waits past child parent (killQueued isoDate failing id app) := by
  -- Until the job is stopped, it counts as if it were.
  have weak : Waits (past ∨ id = parent) child parent app :=
    ⟨fun other member => (waiting.children other member).imp_right (Or.imp_left Or.inl),
      fun member => (waiting.started member).imp_left Or.inl, fun member =>
        (waiting.queued member).imp_left Or.inl⟩
  have own (member : child ∈ (app.jobs id).children) : past ∨ id = parent := by
    rcases waiting.children id member with same | known | stopped
    · exact Or.inr same
    · exact Or.inl known
    · exact Or.inl (waiting.settled stopped)
  have siblings {other : ℕ} (member : child ∈ (app.jobs other).children.erase id) :
      other = parent ∨ past ∨ id = parent := by
    rcases waiting.children other (List.mem_of_mem_erase member) with same | known | stopped
    · exact Or.inl same
    · exact Or.inr (Or.inl known)
    · exact Or.inr (Or.inl (waiting.settled stopped))
  have moved : ∃ fuel before, Waits (past ∨ id = parent) child parent before ∧
      killQueued isoDate failing id app =
        gebrmAppJobControllerOnStatusChange isoDate failing fuel id .queued .canceled (some isoDate)
          (gebrmJobSetStatus id .canceled before) := by
    unfold killQueued
    dsimp only
    cases kids : (app.jobs id).children with
    | nil =>
      refine ⟨_, _, ?_, rfl⟩
      refine setChildren_waits ?_ fun member => absurd member List.not_mem_nil
      cases gebrmAppJobControllerFind (app.jobs id).parentId app with
      | none => exact weak
      | some other => exact setChildren_waits weak fun member => (siblings member).imp_right Or.inl
    | cons first rest =>
      rw [kids] at own
      have renamed : Waits (past ∨ id = parent) child parent
          (gebrmJobSetQueue first (app.jobs id).parentId app) :=
        weak.shrink (fun stopped => Or.inl (Or.inl (waiting.settled stopped)))
          (fun other member => by rwa [children_setQueue] at member) (fun member => member)
            (fun member => member)
      have announced : Waits (past ∨ id = parent) child parent
          (sendJobDefToClients first (gebrmJobSetQueue first (app.jobs id).parentId app)) :=
        ⟨renamed.children, renamed.started, renamed.queued⟩
      refine ⟨_, _, ?_, rfl⟩
      refine setChildren_waits ?_ fun member =>
        Or.inr (Or.inl (own (List.mem_cons_of_mem first member)))
      cases gebrmAppJobControllerFind (app.jobs id).parentId app with
      | none => exact announced
      | some other =>
        refine setChildren_waits announced fun member => ?_
        rcases List.mem_cons.1 member with rfl | sibling
        · exact Or.inr (Or.inl (own List.mem_cons_self))
        · exact (siblings sibling).imp_right Or.inl
  obtain ⟨fuel, before, waits, same⟩ := moved
  have lasts := outlasts_setStatus .canceled rfl id before
  have cancelled : Waits (past ∨ id = parent) child parent (gebrmJobSetStatus id .canceled before) :=
    waits.shrink (fun stopped => Or.inr (lasts parent stopped))
      (fun other member => by rwa [children_setStatus] at member) (fun member => member)
        (fun member => member)
  have own_stopped := stopped_setStatus .canceled rfl id before
  have kept : Waits (past ∨ id = parent) child parent (killQueued isoDate failing id app) ∧
      Outlasts (gebrmJobSetStatus id .canceled before) (killQueued isoDate failing id app) := by
    rw [same]
    exact handler_waits isoDate failing fuel cancelled fun _ => own_stopped
  obtain ⟨after, outlasts⟩ := kept
  have strong {P : Prop} (known : (past ∨ id = parent) ∨ P) (stopped : id = parent → P) : past ∨
      P := by
    rcases known with (known | here) | known
    · exact Or.inl known
    · exact Or.inr (stopped here)
    · exact Or.inr known
  have killed (here : id = parent) : Stopped (killQueued isoDate failing id app) parent := by
    rw [← here]
    exact outlasts id own_stopped
  refine ⟨fun other member => ?_, fun member => strong (after.started member) killed,
    fun member => strong (after.queued member) killed⟩
  exact (after.children other member).imp_right fun known => strong known killed

/-- **Every event keeps the child waiting.** -/
theorem step_waits {input : Input} (waiting : Waiting past child parent app)
    (taken : step app input = some next) : Waits past child parent next := by
  unfold step at taken
  cases event : input.event with
  | run parentId servers mpiIssueMessage =>
    rw [event] at taken
    cases taken
    exact run_waits waiting parentId servers mpiIssueMessage
  | executionResponse id =>
    rw [event] at taken
    dsimp only at taken
    split_ifs at taken
    exact response_waits waiting.toWaits taken
  | signal id emission =>
    rw [event] at taken
    dsimp only at taken
    split_ifs at taken
    cases taken
    exact signal_waits waiting id emission
  | kill id =>
    rw [event] at taken
    cases taken
    unfold onKill
    split
    · exact waiting.toWaits
    · split_ifs
      · exact killQueued_waits _ waiting
      · exact waiting.toWaits
  | close id =>
    rw [event] at taken
    cases taken
    unfold onClose
    split
    · exact waiting.toWaits
    · rename_i job _
      have same (other : ℕ) : (app.modifyJob job fun job => { job with listed := false }).jobs other =
          Function.update app.jobs job { app.jobs job with listed := false } other := rfl
      refine waiting.toWaits.shrink (fun stopped => Or.inl (waiting.settled stopped))
        (fun other member => ?_) (fun member => member) (fun member => member)
      exact (children_unlisted job other app) ▸ member

end Steps

section Held

variable {app mid next : GebrmApp} {isoDate : String} {failing : List ℕ}

/-- Some list holds the job. -/
def Held (app : GebrmApp) (id : ℕ) : Prop :=
  (∃ other, id ∈ (app.jobs other).children) ∨ id ∈ app.started ∨ id ∈ app.jobRunQueue

/-- No job is made, and no list holds a job that none has held. -/
def HoldsNoMore (app next : GebrmApp) : Prop :=
  next.counter = app.counter ∧ ∀ id, Held next id → Held app id

theorem HoldsNoMore.refl (app : GebrmApp) : HoldsNoMore app app := ⟨rfl, fun _ held => held⟩

theorem HoldsNoMore.trans (first : HoldsNoMore app mid) (second : HoldsNoMore mid next) :
    HoldsNoMore app next :=
  ⟨second.1.trans first.1, fun id held => first.2 id (second.2 id held)⟩

theorem HoldsNoMore.of_lists (counter : next.counter = app.counter)
    (children : ∀ id other, id ∈ (next.jobs other).children → Held app id)
    (started : next.started = app.started) (queued : next.jobRunQueue ⊆ app.jobRunQueue) :
    HoldsNoMore app next := by
  refine ⟨counter, fun id held => ?_⟩
  rcases held with ⟨other, member⟩ | member | member
  · exact children id other member
  · exact Or.inr (Or.inl (started ▸ member))
  · exact Or.inr (Or.inr (queued member))

theorem holdsNoMore_setStatus (id : ℕ) (status : JobStatus) (app : GebrmApp) :
    HoldsNoMore app (gebrmJobSetStatus id status app) := by
  refine .of_lists rfl (fun child other member => ?_) rfl (List.Subset.refl _)
  rw [children_setStatus] at member
  exact Or.inl ⟨other, member⟩

theorem holdsNoMore_setQueue (id : ℕ) (parentId : Key) (app : GebrmApp) :
    HoldsNoMore app (gebrmJobSetQueue id parentId app) := by
  refine .of_lists rfl (fun child other member => ?_) rfl (List.Subset.refl _)
  rw [children_setQueue] at member
  exact Or.inl ⟨other, member⟩

theorem HoldsNoMore.setChildren (good : HoldsNoMore app mid) (id : ℕ) {children : List ℕ}
    (held : ∀ child ∈ children, Held app child) :
    HoldsNoMore app (App.setChildren id children mid) := by
  refine ⟨good.1, fun child held' => ?_⟩
  rcases held' with ⟨other, member⟩ | rest
  · rw [children_setChildren] at member
    split_ifs at member
    · exact held child member
    · exact good.2 child (Or.inl ⟨other, member⟩)
  · exact good.2 child (Or.inr rest)

theorem HoldsNoMore.start (good : HoldsNoMore app mid) {id : ℕ} (held : Held app id) :
    HoldsNoMore app (gebrCommRunnerRunAsync id mid) := by
  refine ⟨good.1, fun other held' => ?_⟩
  rcases held' with child | started | queued
  · exact good.2 other (Or.inl child)
  · rcases List.mem_append.1 started with before | new
    · exact good.2 other (Or.inr (Or.inl before))
    · rw [List.mem_singleton.1 new]
      exact held
  · exact good.2 other (Or.inr (Or.inr queued))

/-- **The handler moves children** from their list to those that are started. -/
theorem holdsNoMore_onStatusChange (isoDate : String) (failing : List ℕ) (fuel id : ℕ)
    (old new : JobStatus) (parameter : Option String) (app : GebrmApp) :
    HoldsNoMore app (gebrmAppJobControllerOnStatusChange isoDate failing fuel id old new
    parameter app) := by
  cases stopped : new.isStopped with
  | false =>
    obtain ⟨queue, announced, sent, same⟩ := onStatusChange_live isoDate failing stopped fuel id old
      parameter app
    rw [same]
    exact .refl app
  | true =>
    have quiet : ¬ (old = .initial ∧ new = .running) := by
      rintro ⟨-, rfl⟩
      cases stopped
    have kept := @onStatusChange_keep isoDate failing (HoldsNoMore app) (Held app) (fun _ => True)
      (fun mid id good child member => good.2 child (Or.inl ⟨id, member⟩)) (fun _ _ _ => trivial)
      (fun mid child good held _ => good.start held)
      (fun mid child good _ => good.trans (holdsNoMore_setStatus child .canceled mid))
      (fun mid id good => good.setChildren id fun child member => absurd member List.not_mem_nil)
      (fun _ _ _ _ good _ => good) fuel
    exact kept quiet (.refl app) trivial

theorem holdsNoMore_killImmediately (id : ℕ) (app : GebrmApp) :
    HoldsNoMore app (gebrmJobKillImmediately isoDate failing id app) :=
  (holdsNoMore_setStatus id .canceled app).trans
    (holdsNoMore_onStatusChange isoDate failing _ id _ _ _ _)

theorem holdsNoMore_response {id : ℕ}
    (taken : onExecutionResponse isoDate failing id app = some next) : HoldsNoMore app next := by
  have answered : HoldsNoMore app (responded id app) :=
    .of_lists rfl (fun child other member => Or.inl ⟨other, member⟩) rfl fun _ => List.mem_of_mem_tail
  rcases onExecutionResponse_some taken with ⟨-, rfl⟩ | ⟨nextRun, rest, queue, ⟨-, rfl⟩ | ⟨-, rfl⟩⟩
  · exact answered
  · refine answered.start (Or.inr (Or.inr (List.mem_of_mem_tail ?_)))
    rw [queue]
    exact List.mem_cons_self
  · exact answered.trans (holdsNoMore_killImmediately nextRun _)

theorem holdsNoMore_killQueued (id : ℕ) (app : GebrmApp) :
    HoldsNoMore app (killQueued isoDate failing id app) := by
  have siblings (child : ℕ)
      (member : child ∈
          ((gebrmAppJobControllerFind (app.jobs id).parentId app).elim [] fun parent =>
              (app.jobs parent).children).erase id) : Held app child :=
    Or.inl (exists_children_of_siblings member)
  unfold killQueued
  dsimp only
  refine HoldsNoMore.trans ?_ ((holdsNoMore_setStatus id .canceled _).trans
    (holdsNoMore_onStatusChange isoDate failing _ id _ _ _ _))
  have place : ∀ (others own : List ℕ) (mid : GebrmApp), HoldsNoMore app mid →
      (∀ child ∈ others, Held app child) → (∀ child ∈ own, Held app child) →
      HoldsNoMore app (setChildren id own
        ((gebrmAppJobControllerFind (app.jobs id).parentId app).elim mid fun parent =>
            setChildren parent others mid)) := by
    intro others own mid good known ownKnown
    cases gebrmAppJobControllerFind (app.jobs id).parentId app with
    | none => exact good.setChildren id ownKnown
    | some parent => exact (good.setChildren parent known).setChildren id ownKnown
  cases kids : (app.jobs id).children with
  | nil => exact place _ [] app (.refl app) siblings fun child member => absurd member List.not_mem_nil
  | cons first rest =>
    have own (child : ℕ) (member : child ∈ first :: rest) : Held app child :=
      Or.inl ⟨id, kids ▸ member⟩
    refine place _ rest _ (holdsNoMore_setQueue first (app.jobs id).parentId app)
      (fun child member => ?_) fun child member => own child (List.mem_cons_of_mem first member)
    rcases List.mem_cons.1 member with rfl | sibling
    · exact own child List.mem_cons_self
    · exact siblings child sibling

/-- **A new job** is the only one that is held anew. -/
theorem held_handleRun (isoDate : String) (failing : List ℕ) (parentId : Key) (servers : Bool)
    (mpiIssueMessage : String) (app : GebrmApp) :
    (gebrmAppHandleRun isoDate failing parentId servers mpiIssueMessage app).counter =
      app.counter + 1 ∧ ∀ id, Held
        (gebrmAppHandleRun isoDate failing parentId servers mpiIssueMessage app) id → Held app id ∨
        id = app.counter := by
  obtain ⟨job, made, next, -, -, childless, madeIs, same, told⟩ :=
    gebrmAppHandleRun_cases isoDate failing parentId servers mpiIssueMessage app
  have before (id : ℕ) (held : Held made id) : Held app id := by
    subst madeIs
    exact held.imp_left fun ⟨other, member⟩ => ⟨other, mem_children_of_update childless member⟩
  have counter : made.counter = app.counter + 1 := by rw [madeIs]
  rw [same]
  rcases told with ⟨-, failed, rfl, rfl⟩ | ⟨-, queued, started, rfl, begins, rfl⟩ |
    ⟨-, adopter, adopted, -, rfl, told⟩
  · have less := holdsNoMore_setStatus app.counter .failed made
    exact ⟨less.1.trans counter, fun id held => Or.inl (before id (less.2 id held))⟩
  · have known : started.counter = app.counter + 1 ∧ ∀ id, Held started id → Held app id ∨ id =
        app.counter := by
      rcases begins with ⟨-, -, rfl⟩ | ⟨-, -, rfl⟩ | ⟨-, rfl⟩
      · have less : HoldsNoMore made (gebrmJobKillImmediately isoDate failing app.counter
            { made with jobDefQueue := app.counter :: app.jobDefQueue }) :=
          holdsNoMore_killImmediately app.counter
            { made with jobDefQueue := app.counter :: app.jobDefQueue }
        exact ⟨less.1.trans counter, fun id held => Or.inl (before id (less.2 id held))⟩
      · refine ⟨counter, fun id held => ?_⟩
        rcases held with child | started | queued
        · exact Or.inl (before id (Or.inl child))
        · rcases List.mem_append.1 started with old | new
          · exact Or.inl (before id (Or.inr (Or.inl old)))
          · exact Or.inr (List.mem_singleton.1 new)
        · exact Or.inl (before id (Or.inr (Or.inr queued)))
      · exact ⟨counter, fun id held => Or.inl (before id held)⟩
    refine ⟨known.1, fun id held => ?_⟩
    rcases held with child | begun | queued
    · exact known.2 id (Or.inl child)
    · exact known.2 id (Or.inr (Or.inl begun))
    · rcases List.mem_append.1 queued with old | new
      · exact known.2 id (Or.inr (Or.inr old))
      · exact Or.inr (List.mem_singleton.1 new)
  · have listed (id : ℕ)
        (held : Held (setChildren adopter (app.counter :: (made.jobs adopter).children)
          { made with jobDefQueue := insertAfter adopter app.counter app.jobDefQueue }) id) :
        Held app id ∨ id = app.counter := by
      rcases held with ⟨other, member⟩ | rest
      · rw [children_setChildren] at member
        split_ifs at member
        · rcases List.mem_cons.1 member with new | old
          · exact Or.inr new
          · exact Or.inl (before id (Or.inl ⟨adopter, old⟩))
        · exact Or.inl (before id (Or.inl ⟨other, member⟩))
      · exact Or.inl (before id (Or.inr rest))
    rcases told with ⟨-, rfl⟩ | ⟨-, rfl⟩
    · exact ⟨counter, listed⟩
    · exact ⟨counter, listed⟩

end Held

section Runs

variable {app mid next : GebrmApp} {isoDate : String} {failing : List ℕ}

/-- The jobs that any list holds have been made, and no job is requeued or issued. -/
structure Bounded (app : GebrmApp) : Prop where
  held : ∀ id, Held app id → id < app.counter
  status : ∀ id, (app.jobs id).status ≠ .requeued ∧ (app.jobs id).status ≠ .issued

theorem bounded_new (connections : List ℕ) : Bounded (gebrmAppNew connections) where
  held id held := by
    rcases held with ⟨other, member⟩ | member | member <;> exact absurd member List.not_mem_nil
  status _ := ⟨JobStatus.noConfusion, JobStatus.noConfusion⟩

theorem usual_of_stopped {status : JobStatus} (stopped : status.isStopped = true) :
    status ≠ .requeued ∧ status ≠ .issued := by
  revert stopped
  cases status <;> decide

theorem Bounded.less (bounded : Bounded app) (less : HoldsNoMore app next)
    (stops : OnlyStops app next) : Bounded next where
  held id held := less.1 ▸ bounded.held id (less.2 id held)
  status id := by
    rcases stops.status id with same | stopped
    · rw [same]
      exact bounded.status id
    · exact usual_of_stopped stopped

theorem Bounded.setStatus (bounded : Bounded app) (id : ℕ) {status : JobStatus}
    (usual : status ≠ .requeued ∧ status ≠ .issued) : Bounded (gebrmJobSetStatus id status app) where
  held other held := bounded.held other ((holdsNoMore_setStatus id status app).2 other held)
  status other := by
    rw [jobs_setStatus]
    split_ifs
    · exact usual
    · exact bounded.status other

/-- The table with the new job of a request. -/
def withNewJob (parentId : Key) (app : GebrmApp) : GebrmApp :=
  let job : AppJob := ⟨parentId, if parentId ≠ .other "" then .queued else .initial, true, []⟩
  { app with jobs := Function.update app.jobs app.counter job, counter := app.counter + 1 }

/-- A request makes a job, and may stop jobs. -/
theorem onlyStops_handleRun (parentId : Key) (servers : Bool) (mpiIssueMessage : String) (app : GebrmApp) :
    OnlyStops (withNewJob parentId app)
      (gebrmAppHandleRun isoDate failing parentId servers mpiIssueMessage app) := by
  unfold gebrmAppHandleRun withNewJob
  dsimp only
  generalize AppJob.mk parentId (if parentId ≠ .other "" then .queued else .initial) true [] = job
  have frame : ∀ {made mid next : GebrmApp}, OnlyStops made mid → next.counter = mid.counter →
      next.jobs = mid.jobs → OnlyStops made next := fun good counter jobs =>
    good.trans (.of_jobs counter fun _ => by rw [jobs]; exact ⟨rfl, rfl⟩)
  have pushed : ∀ queue, OnlyStops
      { app with jobs := Function.update app.jobs app.counter job, counter := app.counter + 1 }
      { app with jobs := Function.update app.jobs app.counter job, counter := app.counter + 1, jobDefQueue := queue } :=
    fun _ => .of_jobs rfl fun _ => ⟨rfl, rfl⟩
  by_cases none : servers = false
  · rw [if_pos none]
    exact frame (@onlyStops_setStatus app.counter .failed rfl _) rfl rfl
  · rw [if_neg none]
    split
    · split_ifs
      · exact frame ((pushed (app.counter :: app.jobDefQueue)).trans (onlyStops_killImmediately app.counter _)) rfl rfl
      · exact frame (.refl _) rfl rfl
      · exact frame (.refl _) rfl rfl
    · rename_i parent _
      have adopted := (pushed (insertAfter parent app.counter app.jobDefQueue)).trans
        (onlyStops_setChildren parent (app.counter :: (Function.update app.jobs app.counter job parent).children) _)
      split_ifs
      · exact frame adopted rfl rfl
      · exact adopted

/-- **Every event keeps the bounds.** -/
theorem step_bounded {input : Input} (bounded : Bounded app) (taken : step app input = some next) :
    Bounded next := by
  unfold step at taken
  cases event : input.event with
  | run parentId servers mpiIssueMessage =>
    rw [event] at taken
    cases taken
    obtain ⟨counter, held⟩ := held_handleRun input.isoDate input.failing parentId servers
      mpiIssueMessage app
    refine ⟨fun id here => ?_, fun id => ?_⟩
    · rw [counter]
      rcases held id here with before | new
      · exact Nat.lt_succ_of_lt (bounded.held id before)
      · exact new ▸ Nat.lt_succ_self app.counter
    · rcases (onlyStops_handleRun parentId servers mpiIssueMessage app).status id with same | stopped
      · rw [same]
        by_cases new : id = app.counter
        · have own : ((withNewJob parentId app).jobs id).status = .queued ∨
              ((withNewJob parentId app).jobs id).status = .initial := by
            rw [new, withNewJob]
            dsimp only
            rw [Function.update_self]
            dsimp only
            split_ifs
            · exact Or.inl rfl
            · exact Or.inr rfl
          rcases own with own | own <;> rw [own] <;>
            exact ⟨JobStatus.noConfusion, JobStatus.noConfusion⟩
        · have old : (withNewJob parentId app).jobs id = app.jobs id :=
            Function.update_of_ne new _ app.jobs
          rw [old]
          exact bounded.status id
      · exact usual_of_stopped stopped
  | executionResponse id =>
    rw [event] at taken
    dsimp only at taken
    split_ifs at taken
    exact bounded.less (holdsNoMore_response taken) (onlyStops_response taken)
  | signal id emission =>
    rw [event] at taken
    dsimp only at taken
    split_ifs at taken with emits
    cases taken
    cases emission with
    | statusChange old new parameter =>
      have usual : new ≠ .requeued ∧ new ≠ .issued := by
        obtain ⟨-, -, ⟨-, rfl | stopped⟩ | ⟨-, rfl⟩⟩ := emits
        · exact ⟨JobStatus.noConfusion, JobStatus.noConfusion⟩
        · exact usual_of_stopped stopped
        · exact ⟨JobStatus.noConfusion, JobStatus.noConfusion⟩
      exact (bounded.setStatus id usual).less (holdsNoMore_onStatusChange _ _ _ id old new parameter _)
        (onlyStops_onStatusChange _ _ _ id old new parameter _)
    | issued parameter => exact ⟨bounded.held, bounded.status⟩
    | cmdLineReceived frac cmdLine => exact ⟨bounded.held, bounded.status⟩
    | output frac output => exact ⟨bounded.held, bounded.status⟩
    | disconnect => exact bounded.setStatus id ⟨JobStatus.noConfusion, JobStatus.noConfusion⟩
    | kil frac => exact bounded
  | kill id =>
    rw [event] at taken
    cases taken
    refine bounded.less ?_ (onlyStops_kill id app)
    unfold onKill
    split
    · exact .refl app
    · split_ifs
      · exact holdsNoMore_killQueued _ app
      · exact .refl app
  | close id =>
    rw [event] at taken
    cases taken
    unfold onClose
    split
    · exact bounded
    · rename_i job _
      have same (other : ℕ) :
          (Function.update app.jobs job { app.jobs job with listed := false } other).status =
              (app.jobs other).status := by
        rw [Function.update_apply]
        split_ifs with here
        · rw [here]
        · rfl
      refine ⟨fun other held => bounded.held other ?_, fun other => ?_⟩
      · rcases held with ⟨parent, member⟩ | rest
        · exact Or.inl ⟨parent, children_unlisted job parent app ▸ member⟩
        · exact Or.inr rest
      · have usual := bounded.status other
        rw [← same] at usual
        exact usual

/-- No event unmakes a job. -/
theorem step_counter {input : Input} (taken : step app input = some next) :
    app.counter ≤ next.counter := by
  unfold step at taken
  cases event : input.event with
  | run parentId servers mpiIssueMessage =>
    rw [event] at taken
    cases taken
    rw [(held_handleRun input.isoDate input.failing parentId servers mpiIssueMessage app).1]
    exact Nat.le_succ app.counter
  | executionResponse id =>
    rw [event] at taken
    dsimp only at taken
    split_ifs at taken
    exact Nat.le_of_eq (holdsNoMore_response taken).1.symm
  | signal id emission =>
    rw [event] at taken
    dsimp only at taken
    split_ifs at taken
    cases taken
    cases emission with
    | statusChange old new parameter =>
      exact Nat.le_of_eq (holdsNoMore_onStatusChange _ _ app.counter id old new parameter
        (gebrmJobSetStatus id new app)).1.symm
    | _ => exact Nat.le_refl _
  | kill id =>
    rw [event] at taken
    cases taken
    exact Nat.le_of_eq (onlyStops_kill id app).counter.symm
  | close id =>
    rw [event] at taken
    cases taken
    unfold onClose
    split <;> exact Nat.le_refl _

/-- A request whose parent is alive puts the new job among its children. -/
theorem handleRun_child {parentId : Key} {parent : ℕ} (mpiIssueMessage : String)
    (found : liveParent parentId (withNewJob parentId app) = some parent) :
    ∃ adopted, adopted = setChildren parent
        (app.counter :: ((withNewJob parentId app).jobs parent).children)
      { withNewJob parentId app with jobDefQueue := insertAfter parent app.counter app.jobDefQueue
        } ∧ gebrmAppHandleRun isoDate failing parentId true mpiIssueMessage app =
        if adopted.jobDefQueue = [] then sendJobDefToClients app.counter adopted else adopted := by
  refine ⟨_, rfl, ?_⟩
  unfold gebrmAppHandleRun
  dsimp only
  rw [if_neg (by decide)]
  split
  · rename_i none
    exact absurd (none.symm.trans found) (Option.some_ne_none parent).symm
  · rename_i other live
    obtain rfl : other = parent := Option.some.inj (live.symm.trans found)
    rfl

/-- **A new job that names a parent** waits for it, or the parent has been stopped. -/
theorem request_waits {parentId : Key} {parent : ℕ} (bounded : Bounded app)
    (found : gebrmAppJobControllerFind parentId app = some parent) (servers : Bool) (mpiIssueMessage : String) :
    Waits (Stopped app parent) app.counter parent
      (gebrmAppHandleRun isoDate failing parentId servers mpiIssueMessage app) := by
  by_cases stopped : Stopped app parent
  · exact ⟨fun _ _ => Or.inr (Or.inl stopped), fun _ => Or.inl stopped, fun _ => Or.inl stopped⟩
  have fresh : ¬ Held app app.counter := fun held => Nat.lt_irrefl _ (bounded.held _ held)
  obtain ⟨-, made⟩ := find_some found
  have other : parent ≠ app.counter := Nat.ne_of_lt made
  have same : (withNewJob parentId app).jobs parent = app.jobs parent := Function.update_of_ne other _ app.jobs
  have unheld (id : ℕ) : app.counter ∉ ((withNewJob parentId app).jobs id).children :=
    fun member => fresh (Or.inl ⟨id, mem_children_of_update rfl member⟩)
  cases servers with
  | false =>
    have children (id : ℕ) : app.counter ∉
        ((gebrmJobSetStatus app.counter .failed (withNewJob parentId app)).jobs id).children := by
      rw [children_setStatus]
      exact unheld id
    exact ⟨fun id member => absurd member (children id), fun member => absurd (Or.inr (Or.inl member)) fresh,
      fun member => absurd (Or.inr (Or.inr member)) fresh⟩
  | true =>
    -- The parent is in the table still, and its status is none that lets the job run at once.
    have live : liveParent parentId (withNewJob parentId app) = some parent := by
      have still : gebrmAppJobControllerFind parentId (withNewJob parentId app) = some parent := by
        obtain ⟨rfl, -⟩ := find_some found
        have listed := Gebr.Maestro.Gebrm.find_listed found
        exact if_pos ⟨Nat.lt_succ_of_lt made, by rw [same, listed]⟩
      unfold liveParent
      rw [still]
      dsimp only
      rw [same, if_neg]
      rintro ⟨queued, running, initial⟩
      have terminal : ∀ status : JobStatus, status ≠ .queued → status ≠ .running → status ≠ .initial →
          status ≠ .requeued ∧ status ≠ .issued → status.isStopped = true := by
        intro status
        cases status <;> decide
      exact stopped (terminal _ queued running initial (bounded.status parent))
    obtain ⟨adopted, rfl, result⟩ := @handleRun_child app isoDate failing parentId parent mpiIssueMessage live
    have waits : Waits (Stopped app parent) app.counter parent
        (setChildren parent (app.counter :: ((withNewJob parentId app).jobs parent).children)
          { withNewJob parentId app with jobDefQueue := insertAfter parent app.counter app.jobDefQueue }) := by
      refine ⟨fun id member => ?_, fun member => absurd (Or.inr (Or.inl member)) fresh,
        fun member => absurd (Or.inr (Or.inr member)) fresh⟩
      rw [children_setChildren] at member
      split_ifs at member with here
      · exact Or.inl here
      · exact absurd member (unheld id)
    rw [result]
    split_ifs
    · exact ⟨waits.children, waits.started, waits.queued⟩
    · exact waits

/-- Some stage of the run has the job stopped. -/
def StoppedIn (connections : List ℕ) (inputs : List Input) (id : ℕ) : Prop :=
  ∃ upTo, upTo <+: inputs ∧ ∃ stage, Run.run step (gebrmAppNew connections) upTo = some stage ∧
    Stopped stage id

/-- **The rest of a run keeps the child waiting.** -/
theorem run_waits_on {connections : List ℕ} {done later : List Input} {child parent : ℕ}
    (reached : Run.run step (gebrmAppNew connections) done = some mid)
    (waits : Waits (StoppedIn connections (done ++ later) parent) child parent mid)
    (made : child < mid.counter) (named : parent < mid.counter)
    (reaches : Run.run step mid later = some next) :
    Waits (StoppedIn connections (done ++ later) parent) child parent next := by
  induction later generalizing done mid with
  | nil =>
    obtain rfl := Option.some.inj reaches
    exact waits
  | cons input later ih =>
    obtain ⟨stage, taken, rest⟩ := Option.bind_eq_some_iff.1 reaches
    have settled (stopped : Stopped mid parent) : StoppedIn connections
        (done ++ input :: later) parent :=
      ⟨done, List.prefix_append done _, mid, reached, stopped⟩
    have after := step_waits ⟨waits, made, named, settled⟩ taken
    have further : Run.run step (gebrmAppNew connections) (done ++ [input]) = some stage := by
      rw [Run.run_append, reached, Option.bind_some, Run.run_cons, taken]
      rfl
    have grows := step_counter taken
    have split : done ++ input :: later = done ++ [input] ++ later :=
      (List.append_cons done input later)
    rw [split] at after ⊢
    exact ih further after (Nat.lt_of_lt_of_le made grows) (Nat.lt_of_lt_of_le named grows) rest

/-- **A job that names a job of the table as its parent is started only after that has been
stopped**, whatever happens before the request and after it. -/
theorem child_waits {connections : List ℕ} {before after : List Input} {parentId : Key}
    {servers : Bool} {mpiIssueMessage isoDate : String} {failing : List ℕ} {parent : ℕ}
    {mid final : GebrmApp} (reached : Run.run step (gebrmAppNew connections) before = some mid)
    (found : gebrmAppJobControllerFind parentId mid = some parent)
    (reaches : Run.run step mid
    (⟨.run parentId servers mpiIssueMessage, isoDate, failing⟩ :: after) = some final) (started :
    mid.counter ∈ final.started) : ∃ upTo, upTo <+: before ++
      ⟨.run parentId servers mpiIssueMessage, isoDate, failing⟩ :: after ∧ ∃ stage, Run.run step
        (gebrmAppNew connections) upTo = some stage ∧ (stage.jobs parent).status.isStopped = true := by
  set request : Input := ⟨.run parentId servers mpiIssueMessage, isoDate, failing⟩ with requestIs
  have bounded : Bounded mid :=
    Run.run_invariant (fun _ _ _ good taken => step_bounded good taken)
      (bounded_new connections) reached
  rw [Run.run_cons] at reaches
  have taken : step mid request =
      some (gebrmAppHandleRun isoDate failing parentId servers mpiIssueMessage mid) := by
    rw [requestIs]
    rfl
  rw [taken, Option.bind_some] at reaches
  have first : Run.run step (gebrmAppNew connections) (before ++ [request]) =
      some (gebrmAppHandleRun isoDate failing parentId servers mpiIssueMessage mid) := by
    rw [Run.run_append, reached, Option.bind_some, Run.run_cons, taken]
    rfl
  have split : before ++ request :: after = before ++ [request] ++ after :=
    List.append_cons before request after
  rw [split]
  have past (stopped : Stopped mid parent) : StoppedIn connections (before ++ [request] ++ after)
      parent :=
    ⟨before, split ▸ List.prefix_append before _, mid, reached, stopped⟩
  have waits := @request_waits mid isoDate failing parentId parent bounded found servers
    mpiIssueMessage
  have counter := (held_handleRun isoDate failing parentId servers mpiIssueMessage mid).1
  obtain ⟨-, named⟩ := find_some found
  have known : Waits (StoppedIn connections (before ++ [request] ++ after) parent) mid.counter parent
      (gebrmAppHandleRun isoDate failing parentId servers mpiIssueMessage mid) :=
    ⟨fun other member => (waits.children other member).imp_right (Or.imp_left past),
      fun member => (waits.started member).imp_left past, fun member =>
        (waits.queued member).imp_left past⟩
  have kept := run_waits_on first known (counter ▸ Nat.lt_succ_self _)
    (counter ▸ Nat.lt_succ_of_lt named) reaches
  rcases kept.started started with stopped | stopped
  · exact stopped
  · refine ⟨before ++ [request] ++ after, List.prefix_refl _, final, ?_, stopped⟩
    rw [Run.run_append, first]
    exact reaches

/-- The parent runs and finishes. -/
def parentEnds : List Input :=
  [⟨.signal 0 (.statusChange .initial .running (some "t2")), "t2", []⟩,
    ⟨.signal 0 (.statusChange .running .finished (some "t3")), "t3", []⟩]

/-- **A child is started when its parent finishes.** -/
theorem child_waits_finish :
    ∃ upTo, upTo <+: [⟨.run (.other "") true "", "t0", []⟩] ++
      ⟨.run (.num 0) true "", "t1", []⟩ :: parentEnds ∧ ∃ stage, Run.run step
      (gebrmAppNew [0]) upTo = some stage ∧ (stage.jobs 0).status.isStopped = true :=
  @child_waits [0] _ parentEnds (.num 0) true "" "t1" [] 0 _ _ rfl rfl rfl (by decide)

end Runs

end Gebr.Maestro.App
