/-
**The run queue of the maestro neither stalls nor starts a root twice.**

* `HeadStarted`: the invariant. Only the head of `job_run_queue` has been started, and its response
  is awaited; children are not roots.
* `step_headStarted`: a step in which no root fails to start keeps it.
* `run_queueMoves`: every state of a run of such steps has a queue that moves.
* `failed_root_stalls_queue`: a root that fails to start stays at the head, and the next one is
  never started.
-/

import Gebr.Maestro.App

namespace Gebr.Maestro.App

open Gebr.Comm Gebr.Lib

section Property

/-- **What the run queue is to be at any time**: no root is started twice, and the head has been
started and will respond. -/
structure QueueMoves (app : GebrmApp) : Prop where
  once : ∀ root ∈ app.roots, app.started.count root ≤ 1
  head : ∀ root ∈ app.jobRunQueue.head?, root ∈ app.started ∧ root ∈ app.awaiting

/-- **No root fails to start**: neither the one that a request would put at the head of an empty
queue, nor the one that a response starts. -/
def RootsStart (app : GebrmApp) (input : Input) : Prop :=
  match input.event with
  | .run _ _ _ => app.jobRunQueue = [] → app.counter ∉ input.failing
  | .executionResponse _ => ∀ next ∈ app.jobRunQueue.tail.head?, next ∉ input.failing
  | .signal _ _ => True
  | .kill _ => True
  | .close _ => True

end Property

section Invariant

/-- What is known of the children and of the roots. -/
structure RootsApart (app : GebrmApp) : Prop where
  children : ∀ id, ∀ child ∈ (app.jobs id).children, child < app.counter ∧ child ∉ app.roots
  roots : ∀ root ∈ app.roots, root < app.counter
  started : ∀ id ∈ app.started, id < app.counter
  queued : ∀ root ∈ app.jobRunQueue, root ∈ app.roots
  distinct : app.jobRunQueue.Nodup
  waiting : ∀ root ∈ app.jobRunQueue.tail, root ∉ app.started

/-- **The invariant.** -/
structure HeadStarted (app : GebrmApp) : Prop extends RootsApart app, QueueMoves app

variable {app next : GebrmApp}

theorem headStarted_new (connections : List ℕ) : HeadStarted (gebrmAppNew connections) where
  children := fun _ _ member => absurd member List.not_mem_nil
  roots := fun _ member => absurd member List.not_mem_nil
  started := fun _ member => absurd member List.not_mem_nil
  queued := fun _ member => absurd member List.not_mem_nil
  distinct := List.nodup_nil
  waiting := fun _ member => absurd member List.not_mem_nil
  once := fun _ member => absurd member List.not_mem_nil
  head := fun _ member => absurd member (Option.not_mem_none _)

theorem HeadStarted.start (good : HeadStarted app) {child : ℕ} (below : child < app.counter)
    (apart : child ∉ app.roots) : HeadStarted (gebrCommRunnerRunAsync child app) where
  children := good.children
  roots := good.roots
  queued := good.queued
  distinct := good.distinct
  started := by
    intro id member
    rcases List.mem_append.1 member with before | new
    · exact good.started id before
    · rw [List.mem_singleton.1 new]
      exact below
  waiting := by
    intro root waits member
    rcases List.mem_append.1 member with before | new
    · exact good.waiting root waits before
    · rw [← List.mem_singleton.1 new] at apart
      exact apart (good.queued root (List.mem_of_mem_tail waits))
  once := by
    intro root member
    have other : child ≠ root := fun same => apart (same ▸ member)
    show (app.started ++ [child]).count root ≤ 1
    rw [List.count_append, List.count_singleton, if_neg (by simpa using other)]
    exact good.once root member
  head := by
    intro root first
    obtain ⟨begun, waits⟩ := good.head root first
    exact ⟨List.mem_append_left _ begun, List.mem_append_left _ waits⟩

/-- The invariant reads the children of the jobs, the counter and the queues of runners. -/
theorem HeadStarted.of_same (good : HeadStarted app)
    (children : ∀ id, ∀ child ∈ (next.jobs id).children, child < app.counter ∧ child ∉ app.roots)
    (counter : app.counter ≤ next.counter) (roots : next.roots = app.roots)
    (queue : next.jobRunQueue = app.jobRunQueue) (started : next.started = app.started)
    (awaiting : next.awaiting = app.awaiting) : HeadStarted next where
  children := by
    intro id child member
    obtain ⟨below, apart⟩ := children id child member
    exact ⟨Nat.lt_of_lt_of_le below counter, roots ▸ apart⟩
  roots := by
    intro root member
    exact Nat.lt_of_lt_of_le (good.roots root (roots ▸ member)) counter
  started := by
    intro id member
    exact Nat.lt_of_lt_of_le (good.started id (started ▸ member)) counter
  queued := queue ▸ roots ▸ good.queued
  distinct := queue ▸ good.distinct
  waiting := queue ▸ started ▸ good.waiting
  once := roots ▸ started ▸ good.once
  head := queue ▸ started ▸ awaiting ▸ good.head

theorem HeadStarted.setChildren (good : HeadStarted app) (id : ℕ) {children : List ℕ}
    (known : ∀ child ∈ children, child < app.counter ∧ child ∉ app.roots) :
    HeadStarted (setChildren id children app) := by
  refine good.of_same (fun other child member => ?_) (Nat.le_refl _) rfl rfl rfl rfl
  rw [children_setChildren] at member
  split at member
  · exact known child member
  · exact good.children other child member

theorem HeadStarted.setStatus (good : HeadStarted app) (id : ℕ) (status : JobStatus) :
    HeadStarted (gebrmJobSetStatus id status app) := by
  refine good.of_same (fun other child member => ?_) (Nat.le_refl _) rfl rfl rfl rfl
  rw [children_setStatus] at member
  exact good.children other child member

/-- **The handler keeps the invariant**: it starts children only. -/
theorem HeadStarted.onStatusChange (good : HeadStarted app) (isoDate : String)
    (failing : List ℕ) (fuel id : ℕ) (old new : JobStatus) (parameter : Option String) :
    HeadStarted
      (gebrmAppJobControllerOnStatusChange isoDate failing fuel id old new parameter app) := by
  cases stopped : new.isStopped with
  | false =>
    obtain ⟨queue, announced, sent, same⟩ :=
      onStatusChange_live isoDate failing stopped fuel id old parameter app
    rw [same]
    exact good.of_same good.children (Nat.le_refl _) rfl rfl rfl rfl
  | true =>
    have quiet : ¬ (old = .initial ∧ new = .running) := by
      rintro ⟨-, rfl⟩
      cases stopped
    let inv : GebrmApp → Prop := fun mid =>
      HeadStarted mid ∧ mid.counter = app.counter ∧ mid.roots = app.roots
    have kept : inv
        (gebrmAppJobControllerOnStatusChange isoDate failing fuel id old new parameter app) := by
      refine onStatusChange_keep (Q := fun child => child < app.counter ∧ child ∉ app.roots)
        (S := fun _ => True) ?_ (fun _ _ _ => trivial) ?_ ?_ ?_ ?_ fuel quiet ⟨good, rfl, rfl⟩ trivial
      · rintro mid parent ⟨midGood, counter, roots⟩ child member
        exact counter ▸ roots ▸ midGood.children parent child member
      · rintro mid child ⟨midGood, counter, roots⟩ ⟨below, apart⟩ -
        exact ⟨midGood.start (counter ▸ below) (roots ▸ apart), counter, roots⟩
      · rintro mid child ⟨midGood, counter, roots⟩ -
        exact ⟨midGood.setStatus child .canceled, counter, roots⟩
      · rintro mid parent ⟨midGood, counter, roots⟩
        exact ⟨midGood.setChildren parent fun _ member => absurd member List.not_mem_nil, counter,
          roots⟩
      · rintro mid told status parameter ⟨midGood, counter, roots⟩ -
        exact ⟨midGood.of_same midGood.children (Nat.le_refl _) rfl rfl rfl rfl, counter, roots⟩
    exact kept.1

end Invariant

section Step

variable {app next : GebrmApp} {isoDate : String} {failing : List ℕ}

/-- A runner at the head of the queue is started. The others behind it are not. -/
theorem headStarted_push (apart : RootsApart app) (once : ∀ root ∈ app.roots,
    app.started.count root ≤ 1) {root : ℕ} {rest : List ℕ} (queue : app.jobRunQueue = root :: rest)
    (fresh : root ∉ app.started) (waiting : ∀ other ∈ rest, other ∉ app.started) :
    HeadStarted (gebrCommRunnerRunAsync root app) where
  children := apart.children
  roots := apart.roots
  queued := apart.queued
  distinct := apart.distinct
  started := by
    intro id member
    rcases List.mem_append.1 member with before | new
    · exact apart.started id before
    · rw [List.mem_singleton.1 new]
      exact apart.roots root (apart.queued root (queue ▸ List.mem_cons_self))
  waiting := by
    show ∀ other ∈ app.jobRunQueue.tail, other ∉ app.started ++ [root]
    have distinct := apart.distinct
    rw [queue, List.nodup_cons] at distinct
    rw [queue]
    intro other waits member
    rcases List.mem_append.1 member with before | new
    · exact waiting other waits before
    · rw [List.mem_singleton.1 new] at waits
      exact distinct.1 waits
  once := by
    intro other member
    show (app.started ++ [root]).count other ≤ 1
    rw [List.count_append, List.count_singleton]
    by_cases same : root = other
    · rw [← same, List.count_eq_zero.2 fresh]
      simp
    · rw [if_neg (by simpa using same)]
      exact once other member
  head := by
    show ∀ other ∈ app.jobRunQueue.head?, other ∈ app.started ++ [root] ∧
      other ∈ app.awaiting ++ [root]
    rw [queue]
    intro other first
    obtain rfl : root = other := Option.some.inj first
    exact ⟨List.mem_append_right _ (List.mem_singleton.2 rfl),
      List.mem_append_right _ (List.mem_singleton.2 rfl)⟩

theorem HeadStarted.newJob (good : HeadStarted app) (job : AppJob) (childless : job.children = []) :
    HeadStarted
      { app with jobs := Function.update app.jobs app.counter job, counter := app.counter + 1 } := by
  refine good.of_same (fun id child member => ?_) (Nat.le_succ _) rfl rfl rfl rfl
  exact good.children id child (mem_children_of_update childless member)

theorem HeadStarted.push (good : HeadStarted app) (root : ℕ) (below : root < app.counter)
    (unknown : ∀ id, root ∉ (app.jobs id).children) (fresh : root ∉ app.roots)
    (unstarted : root ∉ app.started) (defQueue : List ℕ) :
    let pushed : GebrmApp :=
      { app with jobDefQueue := defQueue, jobRunQueue := app.jobRunQueue ++ [root],
                 roots := app.roots ++ [root] }
    RootsApart pushed ∧ ∀ other ∈ pushed.roots, pushed.started.count other ≤ 1 := by
  refine ⟨⟨fun id child member => ?_, fun other member => ?_, good.started, fun other member => ?_,
    ?_, fun other waits => ?_⟩, fun other member => ?_⟩
  · obtain ⟨before, apart⟩ := good.children id child member
    refine ⟨before, fun listed => ?_⟩
    rcases List.mem_append.1 listed with old | new
    · exact apart old
    · rw [List.mem_singleton.1 new] at member
      exact unknown id member
  · rcases List.mem_append.1 member with old | new
    · exact good.roots other old
    · rw [List.mem_singleton.1 new]
      exact below
  · rcases List.mem_append.1 member with old | new
    · exact List.mem_append_left _ (good.queued other old)
    · exact List.mem_append_right _ new
  · refine List.nodup_append.2 ⟨good.distinct, List.pairwise_singleton _ _, ?_⟩
    intro early one late two same
    rw [same, List.mem_singleton.1 two] at one
    exact fresh (good.queued root one)
  · have waits' : other ∈ (app.jobRunQueue ++ [root]).tail := waits
    cases queue : app.jobRunQueue with
    | nil =>
      rw [queue] at waits'
      exact absurd waits' List.not_mem_nil
    | cons first rest =>
      rw [queue, List.cons_append, List.tail_cons] at waits'
      rcases List.mem_append.1 waits' with old | new
      · exact good.waiting other (by rw [queue]; exact old)
      · rw [List.mem_singleton.1 new]
        exact unstarted
  · rcases List.mem_append.1 member with old | new
    · exact good.once other old
    · rw [List.mem_singleton.1 new, List.count_eq_zero.2 unstarted]
      exact Nat.zero_le _

/-- **A request.** A new job is pushed to the run queue, or to the children of its parent. -/
theorem run_headStarted (good : HeadStarted app) (parentId : Key) (servers : Bool)
    (mpiIssueMessage : String) (starts : app.jobRunQueue = [] → app.counter ∉ failing) :
    HeadStarted (gebrmAppHandleRun isoDate failing parentId servers mpiIssueMessage app) := by
  obtain ⟨job, made, next, -, -, childless, rfl, taken, outcome⟩ :=
    gebrmAppHandleRun_cases isoDate failing parentId servers mpiIssueMessage app
  rw [taken]
  have base := good.newJob job childless
  have known : ∀ id child, child ∈ (Function.update app.jobs app.counter job id).children →
      child < app.counter ∧ child ∉ app.roots := fun id child member =>
    good.children id child (mem_children_of_update childless member)
  have fresh : app.counter ∉ app.roots := fun member => Nat.lt_irrefl _ (good.roots _ member)
  have unstarted : app.counter ∉ app.started := fun member =>
    Nat.lt_irrefl _ (good.started _ member)
  rcases outcome with ⟨-, failed, rfl, rfl⟩ | ⟨-, queued, started, rfl, begun, rfl⟩ |
    ⟨-, parent, adopted, -, rfl, outcome⟩
  · -- The job has failed at once.
    have failed := base.setStatus app.counter .failed
    exact failed.of_same failed.children (Nat.le_refl _) rfl rfl rfl rfl
  · -- A root.
    obtain ⟨apart, once⟩ := base.push app.counter (Nat.lt_succ_self _)
      (fun id member => Nat.lt_irrefl _ (known id _ member).1) fresh unstarted
      (app.counter :: app.jobDefQueue)
    rcases begun with ⟨empty, fails, -⟩ | ⟨empty, -, rfl⟩ | ⟨busy, rfl⟩
    · exact absurd fails (starts empty)
    · have alone : app.jobRunQueue ++ [app.counter] = [app.counter] := by
        rw [empty, List.nil_append]
      exact headStarted_push apart once alone unstarted
        fun _ member => absurd member List.not_mem_nil
    · refine ⟨apart, once, fun root first => good.head root ?_⟩
      have first' : root ∈ (app.jobRunQueue ++ [app.counter]).head? := first
      rw [List.head?_append_of_ne_nil _ busy] at first'
      exact first'
  · -- A child.
    let grown : GebrmApp :=
      { app with jobs := Function.update app.jobs app.counter job, counter := app.counter + 1,
                 jobDefQueue := insertAfter parent app.counter app.jobDefQueue }
    have grownGood : HeadStarted grown :=
      base.of_same base.children (Nat.le_refl _) rfl rfl rfl rfl
    have listed := grownGood.setChildren parent (List.forall_mem_cons.2
      ⟨⟨Nat.lt_succ_self app.counter, fresh⟩, grownGood.children parent⟩)
    rcases outcome with ⟨-, rfl⟩ | ⟨-, rfl⟩
    · exact listed
    · exact listed.of_same listed.children (Nat.le_refl _) rfl rfl rfl rfl

/-- **A response.** The head leaves the queue, and the next runner is started. -/
theorem response_headStarted (good : HeadStarted app) {id : ℕ}
    (starts : ∀ next ∈ app.jobRunQueue.tail.head?, next ∉ failing)
    (taken : onExecutionResponse isoDate failing id app = some next) : HeadStarted next := by
  have apart : RootsApart (responded id app) := by
    refine ⟨good.children, good.roots, good.started, fun root member => ?_, good.distinct.tail,
      fun root member => ?_⟩
    · exact good.queued root (List.mem_of_mem_tail member)
    · exact good.waiting root (List.mem_of_mem_tail member)
  rcases onExecutionResponse_some taken with ⟨empty, rfl⟩ | ⟨nextRun, rest, queue, outcome⟩
  · refine ⟨apart, good.once, ?_⟩
    show ∀ root ∈ app.jobRunQueue.tail.head?, _
    rw [empty]
    exact fun _ member => absurd member (Option.not_mem_none _)
  · have begins : nextRun ∉ failing := starts nextRun (by rw [queue]; rfl)
    have waits : ∀ root ∈ nextRun :: rest, root ∉ app.started := queue ▸ good.waiting
    rw [List.forall_mem_cons] at waits
    rcases outcome with ⟨-, rfl⟩ | ⟨fails, -⟩
    · exact headStarted_push apart good.once queue waits.1 waits.2
    · exact absurd fails begins

/-- **A kill.** The first child moves; the handler does the rest. -/
theorem killQueued_headStarted (good : HeadStarted app) (id : ℕ) :
    HeadStarted (killQueued isoDate failing id app) := by
  unfold killQueued
  dsimp only
  refine HeadStarted.onStatusChange (HeadStarted.setStatus ?_ id .canceled) _ _ _ _ _ _ _
  -- The lists of the parent and of the job are made of children.
  have parentKnown : ∀ child ∈ ((gebrmAppJobControllerFind (app.jobs id).parentId app).elim []
      fun parent => (app.jobs parent).children).erase id, child < app.counter ∧ child ∉ app.roots := by
    intro child member
    obtain ⟨parent, listed⟩ := exists_children_of_siblings member
    exact good.children parent child listed
  have place : ∀ (mid : GebrmApp) (children own : List ℕ), HeadStarted mid →
      (∀ child ∈ children, child < mid.counter ∧ child ∉ mid.roots) →
      (∀ child ∈ own, child < mid.counter ∧ child ∉ mid.roots) →
      HeadStarted (setChildren id own
        ((gebrmAppJobControllerFind (app.jobs id).parentId app).elim mid
          fun parent => setChildren parent children mid)) := by
    intro mid children own midGood known ownKnown
    cases gebrmAppJobControllerFind (app.jobs id).parentId app with
    | none => exact midGood.setChildren id ownKnown
    | some parent => exact (midGood.setChildren parent known).setChildren id ownKnown
  split
  · exact place app _ [] good parentKnown fun _ member => absurd member List.not_mem_nil
  · rename_i child rest children
    have known : ∀ other ∈ child :: rest, other < app.counter ∧ other ∉ app.roots :=
      children ▸ good.children id
    rw [List.forall_mem_cons] at known
    have moved : HeadStarted (sendJobDefToClients child
        (gebrmJobSetQueue child (app.jobs id).parentId app)) := by
      refine good.of_same (fun other member listed => ?_) (Nat.le_refl _) rfl rfl rfl rfl
      have listed' : member ∈ ((gebrmJobSetQueue child (app.jobs id).parentId app).jobs
        other).children := listed
      rw [children_setQueue] at listed'
      exact good.children other member listed'
    exact place _ _ _ moved (List.forall_mem_cons.2 ⟨known.1, parentKnown⟩) known.2

/-- **A step in which no root fails to start keeps the invariant.** -/
theorem step_headStarted {input : Input} (good : HeadStarted app) (starts : RootsStart app input)
    (taken : step app input = some next) : HeadStarted next := by
  obtain ⟨event, isoDate, failing⟩ := input
  cases event with
  | run parentId servers mpiIssueMessage =>
    obtain rfl := Option.some.inj taken
    exact run_headStarted good parentId servers mpiIssueMessage starts
  | executionResponse id =>
    simp only [step] at taken
    split at taken
    · exact response_headStarted good starts taken
    · cases taken
  | signal id emission =>
    simp only [step] at taken
    split at taken
    · obtain rfl := Option.some.inj taken
      cases emission with
      | statusChange old new parameter =>
        exact (good.setStatus id new).onStatusChange isoDate failing _ id old new parameter
      | issued parameter => exact good.of_same good.children (Nat.le_refl _) rfl rfl rfl rfl
      | cmdLineReceived frac cmdLine =>
        exact good.of_same good.children (Nat.le_refl _) rfl rfl rfl rfl
      | output frac output => exact good.of_same good.children (Nat.le_refl _) rfl rfl rfl rfl
      | disconnect => exact good.setStatus id .initial
      | kil frac => exact good
    · cases taken
  | kill id =>
    obtain rfl := Option.some.inj taken
    show HeadStarted (onKill isoDate failing id app)
    unfold onKill
    split
    · exact good
    · split
      · exact killQueued_headStarted good _
      · exact good
  | close id =>
    obtain rfl := Option.some.inj taken
    show HeadStarted (onClose id app)
    unfold onClose
    split
    · exact good
    · rename_i job _
      refine good.of_same (fun other child member => ?_) (Nat.le_refl _) rfl rfl rfl rfl
      have kept : child ∈ (app.jobs other).children := children_unlisted job other app ▸ member
      exact good.children other child kept

end Step

section Runs

/-- **The run queue moves.** In every run in which no root fails to start, at any time each root has
been started at most once, and the head of the queue has been started and will respond. -/
theorem run_queueMoves {connections : List ℕ} {inputs : List Input} {final : GebrmApp}
    (starts : Run.Guarded step RootsStart (gebrmAppNew connections) inputs)
    (reaches : Run.run step (gebrmAppNew connections) inputs = some final) : QueueMoves final := by
  have keep : ∀ app input next, HeadStarted app → RootsStart app input →
      step app input = some next → HeadStarted next := fun _ _ _ => step_headStarted
  exact (Run.guarded_invariant keep (headStarted_new connections) starts reaches).toQueueMoves

/-- Two roots; the first one responds, and the second one is started. -/
def twoRoots : List Input :=
  [⟨.run (.other "") true "", "t0", []⟩, ⟨.run (.other "") true "", "t1", []⟩,
    ⟨.executionResponse 0, "t2", []⟩]

theorem twoRoots_start : Run.Guarded step RootsStart (gebrmAppNew [0]) twoRoots := by
  refine ⟨fun _ => List.not_mem_nil, ?_⟩
  rintro _ ⟨⟩
  refine ⟨fun _ => List.not_mem_nil, ?_⟩
  rintro _ ⟨⟩
  exact ⟨fun _ _ => List.not_mem_nil, fun _ _ => trivial⟩

theorem run_queueMoves_twoRoots :
    ∃ final, Run.run step (gebrmAppNew [0]) twoRoots = some final ∧ final.jobRunQueue = [1] ∧
      QueueMoves final :=
  ⟨_, rfl, rfl, run_queueMoves twoRoots_start rfl⟩

/-- The runner of the first root cannot be started. -/
def failingRoot : List Input :=
  [⟨.run (.other "") true "", "t0", [0]⟩, ⟨.run (.other "") true "", "t1", []⟩]

/-- **A root that fails to start stays at the head**: the next root waits behind it, and no response
is awaited that would start it. -/
theorem failed_root_stalls_queue :
    ∃ final, Run.run step (gebrmAppNew [0]) failingRoot = some final ∧
      final.jobRunQueue = [0, 1] ∧ final.started = [] ∧ final.awaiting = [] ∧
      ¬ QueueMoves final := by
  refine ⟨_, rfl, rfl, rfl, rfl, fun moves => ?_⟩
  exact absurd (moves.head 0 rfl).1 List.not_mem_nil

end Runs

end Gebr.Maestro.App
