/-
**Waiting jobs over whole runs of the maestro.**

* `PlacedBut.push`, `PlacedBut.adopt`: the two places that a new job can get.
* `step_placed`: a step that scatters no children keeps the invariant, and moves the children of a
  job that is killed.
* `run_onePlace`: in a run of such steps each waiting job is in exactly one place.
* `kill_loses_child`: without a live parent, the child of a killed job waits in no place.
-/

import Gebr.Maestro.Children

namespace Gebr.Maestro.App

open Gebr.Comm Gebr.Lib

section Step

variable {exempt : ℕ → Prop} {app next : GebrmApp} {isoDate : String} {failing : List ℕ}

theorem Placed.newJob (placed : Placed app) {job : AppJob} (childless : job.children = [])
    (apart : job.parentId ≠ .num app.counter) :
    PlacedBut (fun id => id = app.counter)
      { app with jobs := Function.update app.jobs app.counter job, counter := app.counter + 1 } := by
  have children : ∀ id, (Function.update app.jobs app.counter job id).children =
      (app.jobs id).children := by
    intro id
    rw [Function.update_apply]
    split_ifs with same
    · rw [childless, same, (placed.fresh app.counter (Nat.le_refl _)).1]
    · rfl
  have old : ∀ id, id ≠ app.counter → Function.update app.jobs app.counter job id = app.jobs id :=
    fun id other => Function.update_of_ne other job app.jobs
  refine ⟨fun id child member => ?_, fun id child member => ?_, fun id => ?_, fun id stopped => ?_,
    fun id => ?_, placed.queue, fun root member => ?_, fun id member => ?_, fun id beyond => ?_,
    fun id waits exposed => ?_⟩
  · obtain ⟨younger, below⟩ := placed.ordered id child (children id ▸ member)
    exact ⟨younger, Nat.lt_succ_of_lt below⟩
  · have member' : child ∈ (app.jobs id).children := children id ▸ member
    have below := (placed.ordered id child member').2
    show (Function.update app.jobs app.counter job child).parentId = .num id ∧ _
    rw [old child (by omega)]
    exact placed.named id child member'
  · show (Function.update app.jobs app.counter job id).children.Nodup
    rw [children]
    exact placed.distinct id
  · show (Function.update app.jobs app.counter job id).children = []
    by_cases new : id = app.counter
    · rw [new, Function.update_self, childless]
    · rw [children]
      exact placed.stopped id (old id new ▸ stopped)
  · show (Function.update app.jobs app.counter job id).parentId ≠ .num id
    by_cases new : id = app.counter
    · rw [new, Function.update_self]
      exact apart
    · rw [old id new]
      exact placed.apart id
  · exact Nat.lt_succ_of_lt (placed.bounded root member)
  · exact Nat.lt_succ_of_lt (placed.started id member)
  · have beyond' : app.counter + 1 ≤ id := beyond
    show (Function.update app.jobs app.counter job id).children = [] ∧
      (Function.update app.jobs app.counter job id).status ≠ .queued
    rw [old id (by omega)]
    exact placed.fresh id (by omega)
  · have known : app.Waiting id := ⟨old id exposed ▸ waits.1, waits.2⟩
    rcases placed.waiting id known not_false with ⟨parent, member⟩ | queued
    · exact Or.inl ⟨parent, (children parent).symm ▸ member⟩
    · exact Or.inr queued

theorem PlacedBut.push {root : ℕ} (placed : PlacedBut (fun id => id = root) app)
    (below : root < app.counter) (unqueued : root ∉ app.jobRunQueue)
    (unlisted : ∀ id, root ∉ (app.jobs id).children) (roots : List ℕ) :
    PlacedBut (fun _ => False)
      { app with jobRunQueue := app.jobRunQueue ++ [root], roots := roots } where
  ordered := placed.ordered
  named := by
    intro id child member
    obtain ⟨name, apart⟩ := placed.named id child member
    refine ⟨name, fun queued => ?_⟩
    rcases List.mem_append.1 queued with old | new
    · exact apart old
    · rw [List.mem_singleton.1 new] at member
      exact unlisted id member
  distinct := placed.distinct
  stopped := placed.stopped
  apart := placed.apart
  queue := by
    refine List.nodup_append.2 ⟨placed.queue, List.nodup_singleton _, ?_⟩
    intro early one late two same
    rw [same, List.mem_singleton.1 two] at one
    exact unqueued one
  bounded := by
    intro other member
    rcases List.mem_append.1 member with old | new
    · exact placed.bounded other old
    · rw [List.mem_singleton.1 new]
      exact below
  started := placed.started
  fresh := placed.fresh
  waiting := by
    intro id waits _
    by_cases new : id = root
    · rw [new]
      exact Or.inr (List.mem_append_right _ (List.mem_singleton.2 rfl))
    · rcases placed.waiting id waits new with listed | queued
      · exact Or.inl listed
      · exact Or.inr (List.mem_append_left _ queued)

/-- A list of children has no bearing on who waits. -/
theorem waiting_setChildren (id other : ℕ) (children : List ℕ) (app : GebrmApp) :
    (setChildren id children app).Waiting other ↔ app.Waiting other := by
  unfold GebrmApp.Waiting
  rw [jobs_setChildren]
  split_ifs with same
  · rw [same]
    rfl
  · rfl

theorem PlacedBut.adopt {parent child : ℕ}
    (placed : PlacedBut (fun id => exempt id ∨ id = child) app)
    (live : (app.jobs parent).status.isStopped = false) (younger : parent < child)
    (below : child < app.counter) (name : (app.jobs child).parentId = .num parent)
    (unqueued : child ∉ app.jobRunQueue) (unlisted : child ∉ (app.jobs parent).children) :
    PlacedBut exempt (setChildren parent (child :: (app.jobs parent).children) app) := by
  have status : ∀ id, ((setChildren parent (child :: (app.jobs parent).children) app).jobs
      id).status = (app.jobs id).status := by
    intro id
    rw [jobs_setChildren]
    split_ifs with same
    · rw [same]
    · rfl
  have named : ∀ id, ((setChildren parent (child :: (app.jobs parent).children) app).jobs
      id).parentId = (app.jobs id).parentId := by
    intro id
    rw [jobs_setChildren]
    split_ifs with same
    · rw [same]
    · rfl
  refine ⟨fun id member listed => ?_, fun id member listed => ?_, fun id => ?_, fun id stopped => ?_,
    fun id => ?_, placed.queue, placed.bounded, placed.started, fun id beyond => ?_,
    fun id waits exposed => ?_⟩
  · rw [children_setChildren] at listed
    split at listed
    · rename_i here
      rcases List.mem_cons.1 listed with new | old
      · rw [here, new]
        exact ⟨younger, below⟩
      · rw [here]
        exact placed.ordered parent member old
    · exact placed.ordered id member listed
  · rw [named]
    rw [children_setChildren] at listed
    split at listed
    · rename_i here
      rcases List.mem_cons.1 listed with new | old
      · rw [here, new]
        exact ⟨name, unqueued⟩
      · rw [here]
        exact placed.named parent member old
    · exact placed.named id member listed
  · rw [children_setChildren]
    split
    · exact List.nodup_cons.2 ⟨unlisted, placed.distinct parent⟩
    · exact placed.distinct id
  · rw [status] at stopped
    rw [children_setChildren]
    split
    · rename_i here
      rw [here, live] at stopped
      cases stopped
    · exact placed.stopped id stopped
  · rw [named]
    exact placed.apart id
  · have beyond' : app.counter ≤ id := beyond
    rw [status, children_setChildren, if_neg (by omega)]
    exact placed.fresh id beyond'
  · have waits' : app.Waiting id := ⟨status id ▸ waits.1, waits.2⟩
    by_cases new : id = child
    · refine Or.inl ⟨parent, ?_⟩
      rw [children_setChildren, if_pos rfl, new]
      exact List.mem_cons_self
    · rcases placed.waiting id waits' (not_or.2 ⟨exposed, new⟩) with ⟨other, listed⟩ | queued
      · refine Or.inl ⟨other, ?_⟩
        rw [children_setChildren]
        split
        · rename_i here
          exact List.mem_cons_of_mem _ (here ▸ listed)
        · exact listed
      · exact Or.inr queued

/-- **A request.** The new job is started, or waits in the run queue or with its parent. -/
theorem run_placed (placed : Placed app) (parentId : Key) (servers : Bool)
    (mpiIssueMessage : String) (apart : parentId ≠ .num app.counter) :
    Placed (gebrmAppHandleRun isoDate failing parentId servers mpiIssueMessage app) := by
  obtain ⟨job, made, next, name, -, childless, created, taken, outcome⟩ :=
    gebrmAppHandleRun_cases isoDate failing parentId servers mpiIssueMessage app
  rw [taken]
  have base : PlacedBut (fun id => id = app.counter) made :=
    created ▸ placed.newJob childless (name.symm ▸ apart)
  have unqueued : app.counter ∉ app.jobRunQueue := fun member =>
    Nat.lt_irrefl _ (placed.bounded _ member)
  have unlisted : ∀ id, app.counter ∉ (made.jobs id).children := by
    subst created
    exact fun id member =>
      Nat.lt_irrefl _ (placed.ordered id _ (mem_children_of_update childless member)).2
  have head : ∀ root ∈ app.jobRunQueue.head?, ¬ made.Waiting root := by
    subst created
    intro root first waits
    have older := placed.bounded root (List.mem_of_mem_head? first)
    have same : Function.update app.jobs app.counter job root = app.jobs root :=
      Function.update_of_ne (Nat.ne_of_lt older) job app.jobs
    exact placed.head root first ⟨same ▸ waits.1, waits.2⟩
  have counter : made.counter = app.counter + 1 := by rw [created]
  have queue : made.jobRunQueue = app.jobRunQueue := by rw [created]
  have new : made.jobs app.counter = job := by rw [created]; exact Function.update_self ..
  have below : app.counter < made.counter := by omega
  rcases outcome with ⟨-, failed, rfl, rfl⟩ | ⟨-, queued, started, rfl, begun, rfl⟩ |
    ⟨-, parent, adopted, found, rfl, outcome⟩
  · -- The job has failed at once.
    have empty : ((gebrmJobSetStatus app.counter .failed made).jobs app.counter).children = [] := by
      rw [children_setStatus, new]
      exact childless
    have failed : ¬ (gebrmJobSetStatus app.counter .failed made).Waiting app.counter := by
      rintro ⟨status, -⟩
      rw [jobs_setStatus, if_pos rfl] at status
      cases status
    have calm : Calm made (gebrmJobSetStatus app.counter .failed made) :=
      (Calm.refl _).setStatus JobStatus.noConfusion fun _ => empty
    have kept : Placed (gebrmJobSetStatus app.counter .failed made) :=
      { (base.calm calm).weaken fun id waits same => failed (same ▸ waits) with
        head := fun root first waits => head root (queue ▸ first) (calm.waiting waits) }
    exact kept.calm ((Calm.refl _).frame _ _ _)
  · -- A root.
    have pushed : ∀ after : GebrmApp, Calm made after →
        (app.jobRunQueue = [] → ¬ after.Waiting app.counter) →
        Placed { after with jobRunQueue := after.jobRunQueue ++ [app.counter],
                            roots := after.roots ++ [app.counter] } := by
      intro after calm idle
      have same : after.jobRunQueue = app.jobRunQueue := calm.queue.trans queue
      have place := (base.calm calm).push (calm.counter ▸ below) (same ▸ unqueued)
        (fun id member => unlisted id (calm.subset id _ member)) (after.roots ++ [app.counter])
      refine { place with head := fun root first waits => ?_ }
      have first' : root ∈ (app.jobRunQueue ++ [app.counter]).head? := same ▸ first
      by_cases empty : app.jobRunQueue = []
      · rw [empty] at first'
        obtain rfl : app.counter = root := Option.some.inj first'
        exact idle empty waits
      · rw [List.head?_append_of_ne_nil _ empty] at first'
        exact head root first' (calm.waiting waits)
    have listed := (Calm.refl made).frame (app.counter :: app.jobDefQueue) made.announced made.sent
    rcases begun with ⟨-, -, rfl⟩ | ⟨-, -, rfl⟩ | ⟨busy, rfl⟩
    · obtain ⟨calm, idle⟩ := killImmediately_calm (listed.ordered base.ordered) below
      exact pushed _ (listed.trans calm) fun _ => idle
    · exact pushed _ (listed.trans (calm_start below)) fun _ => not_waiting_start _ _
    · exact pushed _ listed fun alone => absurd alone busy
  · -- A child.
    obtain ⟨listed, live⟩ := liveParent_some found
    obtain ⟨named, older⟩ := find_some listed
    have older' : parent < app.counter := by
      have other : parent ≠ app.counter := fun same => apart (same ▸ named)
      omega
    have queued := (Calm.refl made).frame (insertAfter parent app.counter app.jobDefQueue)
      made.announced made.sent
    have alone : PlacedBut (fun id => False ∨ id = app.counter) made :=
      base.weaken fun id _ same => Or.inr same
    have adopted := (alone.calm queued).adopt live older' below
      ((congrArg AppJob.parentId new).trans (name.trans named)) (queue ▸ unqueued) (unlisted parent)
    have kept : Placed _ :=
      ⟨adopted, fun root first waits =>
        head root (queue ▸ first) ((waiting_setChildren ..).1 waits)⟩
    rcases outcome with ⟨-, rfl⟩ | ⟨-, rfl⟩
    · exact kept
    · exact kept.calm ((Calm.refl _).frame _ _ _)

/-- **A response.** The head leaves the run queue; the next runner is started, or its job killed. -/
theorem response_placed (placed : Placed app) {id : ℕ}
    (taken : onExecutionResponse isoDate failing id app = some next) : Placed next := by
  have popped : PlacedBut (fun _ => False) (responded id app) := by
    refine ⟨placed.ordered, fun parent child member => ?_, placed.distinct, placed.stopped,
      placed.apart, placed.queue.tail, fun root member => ?_, placed.started, placed.fresh,
      fun other waits _ => ?_⟩
    · obtain ⟨name, unqueued⟩ := placed.named parent child member
      exact ⟨name, fun queued => unqueued (List.mem_of_mem_tail queued)⟩
    · exact placed.bounded root (List.mem_of_mem_tail member)
    · rcases placed.waiting other waits not_false with listed | queued
      · exact Or.inl listed
      · refine Or.inr ?_
        show other ∈ app.jobRunQueue.tail
        cases queue : app.jobRunQueue with
        | nil =>
          rw [queue] at queued
          exact absurd queued List.not_mem_nil
        | cons first rest =>
          rw [queue] at queued
          rcases List.mem_cons.1 queued with new | old
          · exact absurd waits (placed.head other (by rw [queue, new]; rfl))
          · exact old
  rcases onExecutionResponse_some taken with ⟨empty, rfl⟩ | ⟨nextRun, rest, queue, outcome⟩
  · refine ⟨popped, ?_⟩
    show ∀ root ∈ app.jobRunQueue.tail.head?, _
    rw [empty]
    exact fun _ member => absurd member (Option.not_mem_none _)
  · have below : nextRun < app.counter :=
      placed.bounded nextRun (List.mem_of_mem_tail (by rw [queue]; exact List.mem_cons_self))
    have finish : ∀ after, Calm (responded id app) after → ¬ after.Waiting nextRun →
        Placed after := by
      refine fun after calm idle => ⟨popped.calm calm, fun root first => ?_⟩
      rw [calm.queue] at first
      have first' : root ∈ app.jobRunQueue.tail.head? := first
      rw [queue] at first'
      obtain rfl : nextRun = root := Option.some.inj first'
      exact idle
    rcases outcome with ⟨-, rfl⟩ | ⟨-, rfl⟩
    · exact finish _ (calm_start below) (not_waiting_start _ _)
    · obtain ⟨calm, idle⟩ := killImmediately_calm popped.ordered below
      exact finish _ calm idle

/-- **A signal of a job.** -/
theorem signal_placed (placed : Placed app) {id : ℕ} {emission : Emission}
    (emits : Emits app id emission) : Placed (onSignal isoDate failing id emission app) := by
  cases emission with
  | statusChange old new parameter =>
    obtain ⟨begun, -, moves⟩ := emits
    have left : new ≠ .queued := by
      rintro rfl
      rcases moves with ⟨-, running | stopped⟩ | ⟨-, initial⟩
      · cases running
      · cases stopped
      · cases initial
    exact placed.calm (statusChange_calm isoDate failing placed.ordered (placed.started id begun)
      left old parameter).1
  | issued parameter => exact placed.calm ((Calm.refl _).frame _ _ _)
  | cmdLineReceived frac cmdLine => exact placed.calm ((Calm.refl _).frame _ _ _)
  | output frac output => exact placed.calm ((Calm.refl _).frame _ _ _)
  | disconnect =>
    exact placed.calm ((Calm.refl _).setStatus JobStatus.noConfusion fun stopped => by cases stopped)
  | kil frac => exact placed

/-- **A job is closed**: it leaves the table, and nothing else. -/
theorem close_placed (placed : Placed app) (id : Key) : Placed (onClose id app) := by
  unfold onClose
  split
  · exact placed
  · rename_i job _
    have same : ∀ other,
        (Function.update app.jobs job { app.jobs job with listed := false } other).status =
            (app.jobs other).status ∧
          (Function.update app.jobs job { app.jobs job with listed := false } other).parentId =
            (app.jobs other).parentId ∧
          (Function.update app.jobs job { app.jobs job with listed := false } other).children =
            (app.jobs other).children := by
      intro other
      rw [Function.update_apply]
      split_ifs with here
      · rw [here]
        exact ⟨rfl, rfl, rfl⟩
      · exact ⟨rfl, rfl, rfl⟩
    exact placed.calm ⟨rfl, rfl, fun other => (same other).2.1, fun _ member => member,
      fun _ member => Or.inl member, fun other => Or.inl (same other).1,
      fun other => Or.inl (same other).2.2⟩

end Step

section Kill

variable {exempt : ℕ → Prop} {app next : GebrmApp} {isoDate : String} {failing : List ℕ}

/-- A list loses some of its members. They need not wait any more. -/
theorem PlacedBut.shrink (placed : PlacedBut exempt app) (id : ℕ) {children : List ℕ}
    (fewer : children.Sublist (app.jobs id).children) :
    PlacedBut (fun other => exempt other ∨ other ∈ (app.jobs id).children ∧ other ∉ children)
      (setChildren id children app) := by
  have subset : ∀ other, ((setChildren id children app).jobs other).children.Sublist
      (app.jobs other).children := by
    intro other
    rw [children_setChildren]
    split_ifs with same
    · rw [same]
      exact fewer
    · exact List.Sublist.refl _
  have rest : ∀ other, ((setChildren id children app).jobs other).status =
        (app.jobs other).status ∧
      ((setChildren id children app).jobs other).parentId = (app.jobs other).parentId := by
    intro other
    rw [jobs_setChildren]
    split_ifs with same
    · rw [same]
      exact ⟨rfl, rfl⟩
    · exact ⟨rfl, rfl⟩
  refine ⟨fun other child member => placed.ordered other child ((subset other).subset member),
    fun other child member => ?_, fun other => (subset other).nodup (placed.distinct other),
    fun other stopped => ?_, fun other => ?_, placed.queue, placed.bounded, placed.started,
    fun other beyond => ?_, fun other waits exposed => ?_⟩
  · rw [(rest child).2]
    exact placed.named other child ((subset other).subset member)
  · have empty := placed.stopped other ((rest other).1 ▸ stopped)
    exact List.sublist_nil.1 (empty ▸ subset other)
  · rw [(rest other).2]
    exact placed.apart other
  · obtain ⟨empty, idle⟩ := placed.fresh other beyond
    exact ⟨List.sublist_nil.1 (empty ▸ subset other), (rest other).1.symm ▸ idle⟩
  · rw [not_or] at exposed
    rcases placed.waiting other ((waiting_setChildren ..).1 waits) exposed.1 with
      ⟨parent, member⟩ | queued
    · refine Or.inl ⟨parent, ?_⟩
      rw [children_setChildren]
      split_ifs with here
      · by_contra lost
        exact exposed.2 ⟨here ▸ member, lost⟩
      · exact member
    · exact Or.inr queued

/-- A job that is in no list gets another parent id. -/
theorem PlacedBut.rename (placed : PlacedBut exempt app) (child : ℕ) (parentId : Key)
    (apart : parentId ≠ .num child) (unlisted : ∀ id, child ∉ (app.jobs id).children) :
    PlacedBut exempt (gebrmJobSetQueue child parentId app) := by
  have status : ∀ id, ((gebrmJobSetQueue child parentId app).jobs id).status =
      (app.jobs id).status := by
    intro id
    rw [jobs_setQueue]
    split_ifs with same
    · rw [same]
    · rfl
  refine ⟨fun id other member => ?_, fun id other member => ?_, fun id => ?_, fun id stopped => ?_,
    fun id => ?_, placed.queue, placed.bounded, placed.started, fun id beyond => ?_,
    fun id waits exposed => ?_⟩
  · rw [children_setQueue] at member
    exact placed.ordered id other member
  · rw [children_setQueue] at member
    have different : other ≠ child := fun same => unlisted id (same ▸ member)
    rw [jobs_setQueue, if_neg different]
    exact placed.named id other member
  · rw [children_setQueue]
    exact placed.distinct id
  · rw [children_setQueue]
    exact placed.stopped id (status id ▸ stopped)
  · rw [jobs_setQueue]
    split_ifs with same
    · rw [same]
      exact apart
    · exact placed.apart id
  · rw [children_setQueue, status]
    exact placed.fresh id beyond
  · have waits' : app.Waiting id := ⟨status id ▸ waits.1, waits.2⟩
    rcases placed.waiting id waits' exposed with ⟨parent, member⟩ | queued
    · refine Or.inl ⟨parent, ?_⟩
      rw [children_setQueue]
      exact member
    · exact Or.inr queued

/-- The killed job stops, wherever it has been taken out. -/
theorem unqueue_placed {id : ℕ} (placed : PlacedBut (fun other => other = id) app)
    (below : id < app.counter) (head : ∀ root ∈ app.jobRunQueue.head?, ¬ app.Waiting root ∨ root = id)
    (old : JobStatus) (parameter : Option String) :
    Placed (gebrmAppJobControllerOnStatusChange isoDate failing app.counter id old .canceled
      parameter (gebrmJobSetStatus id .canceled app)) := by
  have left : JobStatus.canceled ≠ .queued := JobStatus.noConfusion
  obtain ⟨calm, idle⟩ :=
    statusChange_calm isoDate failing placed.ordered below left old parameter
  refine ⟨(placed.calm calm).weaken fun other waits same => idle (same ▸ waits),
    fun root first waits => ?_⟩
  rcases head root (calm.queue ▸ first) with before | same
  · exact before (calm.waiting waits)
  · exact idle (same ▸ waits)

/-- **A queued job without children is killed.** -/
theorem killQueued_childless (placed : Placed app) {job : ℕ} (below : job < app.counter)
    (childless : (app.jobs job).children = []) :
    Placed (killQueued isoDate failing job app) := by
  unfold killQueued
  rw [childless]
  dsimp only
  cases gebrmAppJobControllerFind (app.jobs job).parentId app with
  | none =>
    have kept := placed.calm (calm_clear job fun child member => by
      rw [childless] at member
      exact absurd member List.not_mem_nil)
    exact unqueue_placed (kept.weaken fun _ _ impossible => impossible.elim) below
      (fun root first => Or.inl (kept.head root first)) _ _
  | some parent =>
    have taken := placed.shrink parent (List.erase_sublist (a := job))
    have empty : ((setChildren parent ((app.jobs parent).children.erase job) app).jobs
        job).children = [] := by
      rw [children_setChildren]
      split_ifs with same
      · rw [← same, childless]
        rfl
      · exact childless
    have kept := taken.calm (calm_clear job fun child member => by
      rw [empty] at member
      exact absurd member List.not_mem_nil)
    refine unqueue_placed (kept.weaken fun other _ lost => ?_) below (fun root first =>
      Or.inl fun waits => ?_) _ _
    · rcases lost with impossible | ⟨listed, erased⟩
      · exact impossible.elim
      · by_contra apart
        exact erased ((List.mem_erase_of_ne apart).2 listed)
    · refine placed.head root first ?_
      exact (waiting_setChildren ..).1 ((waiting_setChildren ..).1 waits)

/-- **A queued job with one child is killed**, and the child goes to its live parent. -/
theorem killQueued_single (placed : Placed app) {job child parent : ℕ} (below : job < app.counter)
    (single : (app.jobs job).children = [child])
    (found : liveParent (app.jobs job).parentId app = some parent) (older : parent < child) :
    Placed (killQueued isoDate failing job app) ∧
      KillMoves app job (killQueued isoDate failing job app) := by
  obtain ⟨listed, live⟩ := liveParent_some found
  obtain ⟨named, -⟩ := find_some listed
  have member : child ∈ (app.jobs job).children := by
    rw [single]
    exact List.mem_singleton.2 rfl
  obtain ⟨name, unqueued⟩ := placed.named job child member
  obtain ⟨younger, bound⟩ := placed.ordered job child member
  have apart : parent ≠ job := fun same => placed.apart job (same ▸ named)
  have unlisted : child ∉ (app.jobs parent).children := fun listed' =>
    apart (Key.num.inj ((placed.named parent child listed').1.symm.trans name))
  -- The job leaves the list of its parent, and the child its own; then the child moves.
  let erased := setChildren parent ((app.jobs parent).children.erase job) app
  let cleared := setChildren job [] erased
  let renamed := gebrmJobSetQueue child (.num parent) cleared
  let moved := setChildren parent (child :: (renamed.jobs parent).children) renamed
  have own : (erased.jobs job).children = [child] := by
    show ((setChildren parent _ app).jobs job).children = [child]
    rw [children_setChildren, if_neg (Ne.symm apart)]
    exact single
  have siblings : (renamed.jobs parent).children = (app.jobs parent).children.erase job := by
    show ((gebrmJobSetQueue child _ (setChildren job [] erased)).jobs parent).children = _
    rw [children_setQueue, children_setChildren, if_neg apart, children_setChildren, if_pos rfl]
  have alone : ∀ id, child ∉ (cleared.jobs id).children := by
    intro id listed'
    have before : child ∈ (app.jobs id).children ∧ id ≠ job := by
      have listed'' : child ∈ ((setChildren job [] erased).jobs id).children := listed'
      rw [children_setChildren] at listed''
      split at listed''
      · exact absurd listed'' List.not_mem_nil
      · rename_i other
        rw [children_setChildren] at listed''
        split at listed''
        · rename_i here
          exact ⟨here ▸ List.mem_of_mem_erase listed'', other⟩
        · exact ⟨listed'', other⟩
    exact before.2 (Key.num.inj ((placed.named id child before.1).1.symm.trans name))
  have clearedPlaced : PlacedBut (fun other => other = job ∨ other = child) cleared := by
    refine ((placed.shrink parent (List.erase_sublist (a := job))).shrink job
      (List.nil_sublist _)).weaken fun other _ lost => ?_
    rcases lost with (impossible | ⟨listed', gone⟩) | ⟨listed', -⟩
    · exact impossible.elim
    · by_contra apart'
      rw [not_or] at apart'
      exact gone ((List.mem_erase_of_ne apart'.1).2 listed')
    · exact Or.inr (List.mem_singleton.1 (own ▸ listed'))
  have differ : parent ≠ child := Nat.ne_of_lt older
  have renamedPlaced := clearedPlaced.rename child (.num parent)
    (fun same => differ (Key.num.inj same)) alone
  have status : (renamed.jobs parent).status = (app.jobs parent).status := by
    show ((gebrmJobSetQueue child _ (setChildren job [] erased)).jobs parent).status = _
    rw [jobs_setQueue, if_neg differ, jobs_setChildren, if_neg apart, jobs_setChildren, if_pos rfl]
  have renamedName : (renamed.jobs child).parentId = .num parent := by
    show ((gebrmJobSetQueue child _ _).jobs child).parentId = _
    rw [jobs_setQueue, if_pos rfl]
  have movedPlaced : PlacedBut (fun other => other = job) moved := by
    refine renamedPlaced.adopt (status ▸ live) older bound renamedName unqueued ?_
    rw [siblings]
    exact fun listed' => unlisted (List.mem_of_mem_erase listed')
  let mid := setChildren job [] (setChildren parent (child :: (app.jobs parent).children.erase job)
    (sendJobDefToClients child (gebrmJobSetQueue child (app.jobs job).parentId app)))
  have jobs : mid.jobs = moved.jobs := by
    funext other
    show (setChildren job [] (setChildren parent _ (gebrmJobSetQueue child _ app))).jobs other =
      (setChildren parent (child :: (renamed.jobs parent).children)
        (gebrmJobSetQueue child _ (setChildren job [] (setChildren parent _ app)))).jobs other
    rw [siblings, named]
    have young : child ≠ job := Nat.ne_of_gt younger
    by_cases here : other = job
    · simp [here, Ne.symm apart, Ne.symm young]
    · by_cases there : other = parent
      · simp [there, apart, differ]
      · simp [here, there, young, Ne.symm differ]
  have midPlaced : PlacedBut (fun other => other = job) mid :=
    movedPlaced.calm ⟨rfl, rfl, fun _ => by rw [jobs], fun _ kept => kept, fun _ kept => Or.inl kept,
      fun _ => Or.inl (by rw [jobs]), fun _ => Or.inl (by rw [jobs])⟩
  have killed : killQueued isoDate failing job app =
      gebrmAppJobControllerOnStatusChange isoDate failing mid.counter job .queued .canceled
        (some isoDate) (gebrmJobSetStatus job .canceled mid) := by
    unfold killQueued
    rw [single]
    dsimp only
    rw [listed]
    rfl
  have statuses : ∀ other, (mid.jobs other).status = (app.jobs other).status := by
    intro other
    show ((setChildren job [] (setChildren parent _ (gebrmJobSetQueue child _ app))).jobs
      other).status = _
    simp only [jobs_setChildren, jobs_setQueue]
    split_ifs <;> simp_all
  have midFamily : (mid.jobs parent).children = child :: (app.jobs parent).children.erase job := by
    show ((setChildren job [] (setChildren parent _ _)).jobs parent).children = _
    rw [children_setChildren, if_neg apart, children_setChildren, if_pos rfl]
  have midName : (mid.jobs child).parentId = (app.jobs job).parentId := by
    show ((setChildren job [] (setChildren parent _ (gebrmJobSetQueue child _ app))).jobs
      child).parentId = _
    rw [jobs_setChildren, if_neg (Nat.ne_of_gt younger), jobs_setChildren, if_neg (Ne.symm differ),
      jobs_setQueue, if_pos rfl]
  have childless : ((gebrmJobSetStatus job .canceled mid).jobs job).children = [] := by
    rw [children_setStatus]
    show ((setChildren job [] _).jobs job).children = []
    rw [children_setChildren, if_pos rfl]
  rw [killed]
  refine ⟨unqueue_placed midPlaced below (fun root first => Or.inl fun waits => ?_) _ _, ?_⟩
  · exact placed.head root first ⟨statuses root ▸ waits.1, waits.2⟩
  · obtain ⟨after, queue, announced, sent, same, outcome⟩ := onStatusChange_childless isoDate failing
      (Nat.lt_of_le_of_lt (Nat.zero_le job) below) job .queued .canceled (some isoDate) childless
    have family : (after.jobs parent).children = child :: (app.jobs parent).children.erase job ∧
        (after.jobs child).parentId = (app.jobs job).parentId := by
      rcases outcome with rfl | rfl
      · rw [children_setStatus, jobs_setStatus, if_neg (Nat.ne_of_gt younger)]
        exact ⟨midFamily, midName⟩
      · refine ⟨?_, ?_⟩
        · rw [children_setChildren, if_neg apart, children_setStatus]
          exact midFamily
        · rw [jobs_setChildren, if_neg (Nat.ne_of_gt younger), jobs_setStatus,
            if_neg (Nat.ne_of_gt younger)]
          exact midName
    intro other listed'
    obtain rfl : other = child := List.mem_singleton.1 (single ▸ listed')
    have counter : mid.counter = app.counter := rfl
    rw [found, counter, same]
    refine ⟨?_, family.2⟩
    show (after.jobs parent).children.count other = 1
    rw [family.1, List.count_cons_self, List.count_eq_zero.2 fun again =>
      unlisted (List.mem_of_mem_erase again)]

/-- **A kill.** -/
theorem kill_placed (isoDate : String) (failing : List ℕ) (placed : Placed app) {id : Key}
    (moves : ∀ job, gebrmAppJobControllerFind id app = some job → (app.jobs job).status = .queued →
      (app.jobs job).children = [] ∨ ∃ child parent, (app.jobs job).children = [child] ∧
        liveParent (app.jobs job).parentId app = some parent ∧ parent < child) :
    Placed (onKill isoDate failing id app) ∧
      ∀ job, gebrmAppJobControllerFind id app = some job → (app.jobs job).status = .queued →
        KillMoves app job (onKill isoDate failing id app) := by
  unfold onKill
  cases found : gebrmAppJobControllerFind id app with
  | none => exact ⟨placed, fun _ impossible => nomatch impossible⟩
  | some job =>
    have below := (find_some found).2
    dsimp only
    by_cases queued : (app.jobs job).status = .queued
    · rw [if_pos queued]
      have step : Placed (killQueued isoDate failing job app) ∧
          KillMoves app job (killQueued isoDate failing job app) := by
        rcases moves job found queued with childless | ⟨child, parent, single, live, older⟩
        · refine ⟨killQueued_childless placed below childless, fun child member => ?_⟩
          rw [childless] at member
          exact absurd member List.not_mem_nil
        · exact killQueued_single placed below single live older
      refine ⟨step.1, fun other same _ => ?_⟩
      obtain rfl := Option.some.inj same
      exact step.2
    · rw [if_neg queued]
      refine ⟨placed, fun other same queued' => ?_⟩
      obtain rfl := Option.some.inj same
      exact absurd queued' queued

end Kill

section Runs

/-- What a kill of a queued job is to do in a step. -/
def StepMoves (app : GebrmApp) (input : Input) (next : GebrmApp) : Prop :=
  ∀ id job, input.event = .kill id → gebrmAppJobControllerFind id app = some job →
    (app.jobs job).status = .queued → KillMoves app job next

/-- **A step that scatters no children keeps the invariant, and moves the children.** -/
theorem step_placed {app next : GebrmApp} {input : Input} (placed : Placed app)
    (moves : KillsMove app input) (taken : step app input = some next) :
    Placed next ∧ StepMoves app input next := by
  obtain ⟨event, isoDate, failing⟩ := input
  cases event with
  | run parentId servers mpiIssueMessage =>
    obtain rfl := Option.some.inj taken
    exact ⟨run_placed placed parentId servers mpiIssueMessage moves, fun _ _ kill => nomatch kill⟩
  | executionResponse id =>
    simp only [step] at taken
    split at taken
    · exact ⟨response_placed placed taken, fun _ _ kill => nomatch kill⟩
    · cases taken
  | signal id emission =>
    simp only [step] at taken
    split at taken
    · rename_i emits
      obtain rfl := Option.some.inj taken
      exact ⟨signal_placed placed emits, fun _ _ kill => nomatch kill⟩
    · cases taken
  | kill id =>
    obtain rfl := Option.some.inj taken
    obtain ⟨kept, moved⟩ := kill_placed isoDate failing placed moves
    refine ⟨kept, fun id' job same found queued => ?_⟩
    obtain rfl := Event.kill.inj same
    exact moved job found queued
  | close id =>
    obtain rfl := Option.some.inj taken
    exact ⟨close_placed placed id, fun _ _ kill => nomatch kill⟩

/-- **Each waiting job is in one place.** In every run whose steps scatter no children, at any time
each waiting job is in the list of exactly one live job or in the run queue, and each kill of a
queued job moves the children of the job. -/
theorem run_onePlace {connections : List ℕ} {inputs : List Input} {final : GebrmApp}
    (moves : Run.Guarded step KillsMove (gebrmAppNew connections) inputs)
    (reaches : Run.run step (gebrmAppNew connections) inputs = some final) :
    (∀ id, final.Waiting id → final.OnePlace id) ∧
      ∀ app input next, (app, input, next) ∈ Run.trace step (gebrmAppNew connections) inputs →
        StepMoves app input next := by
  have keep : ∀ app input next, Placed app → KillsMove app input → step app input = some next →
      Placed next ∧ StepMoves app input next := fun _ _ _ => step_placed
  have start := placed_new connections
  refine ⟨fun id waits => ?_, Run.trace_forall keep start moves⟩
  have placed : Placed final := Run.guarded_invariant (fun app input next good moves taken =>
    (keep app input next good moves taken).1) start moves reaches
  exact placed.onePlace waits

/-- A job, its child and its grandchild; the child is killed. -/
def family : List Input :=
  [⟨.run (.other "") true "", "t0", []⟩, ⟨.run (.num 0) true "", "t1", []⟩,
    ⟨.run (.num 1) true "", "t2", []⟩, ⟨.kill (.num 1), "t3", []⟩]

theorem family_moves : Run.Guarded step KillsMove (gebrmAppNew [0]) family := by
  refine ⟨Key.noConfusion, ?_⟩
  rintro _ ⟨⟩
  refine ⟨(by decide : Key.num 0 ≠ .num 1), ?_⟩
  rintro _ ⟨⟩
  refine ⟨(by decide : Key.num 1 ≠ .num 2), ?_⟩
  rintro _ ⟨⟩
  refine ⟨fun job found _ => ?_, fun _ _ => trivial⟩
  obtain rfl : 1 = job := Option.some.inj found
  exact Or.inr ⟨2, 0, rfl, rfl, by decide⟩

/-- The grandchild waits with the first job. -/
theorem run_onePlace_family :
    ∃ final, Run.run step (gebrmAppNew [0]) family = some final ∧
      (∀ id, final.Waiting id → final.OnePlace id) ∧
      ∀ app input next, (app, input, next) ∈ Run.trace step (gebrmAppNew [0]) family →
        StepMoves app input next :=
  ⟨_, rfl, run_onePlace family_moves rfl⟩

/-- A job that is started; one that names a parent nobody knows, and waits behind it; and the child
of that one. -/
def orphans : List Input :=
  [⟨.run (.other "") true "", "t0", []⟩, ⟨.run (.other "gone") true "", "t1", []⟩,
    ⟨.run (.num 1) true "", "t2", []⟩]

/-- **The child of a job without a live parent is lost** when the job is killed: it is still queued,
and it is in no place. -/
theorem kill_loses_child :
    ∃ app next, Run.run step (gebrmAppNew [0]) orphans = some app ∧
      step app ⟨.kill (.num 1), "t3", []⟩ = some next ∧
      (next.jobs 2).status = .queued ∧ next.started = [0] ∧ next.jobRunQueue = [0, 1] ∧
      (∀ parent, (next.jobs parent).children = []) ∧
      ¬ StepMoves app ⟨.kill (.num 1), "t3", []⟩ next := by
  refine ⟨_, _, rfl, rfl, rfl, rfl, rfl, fun parent => ?_, fun moves => ?_⟩
  · rcases parent with _ | _ | _ | parent <;> rfl
  · have moved : [0, 1].count 2 = 1 := moves (.num 1) 1 rfl rfl rfl 2 (by decide)
    exact absurd moved (by decide)

end Runs

end Gebr.Maestro.App
