/-
**Every waiting job is in one place, from which it will be started.**

A job waits while it is `QUEUED` and its runner has not been started: in the children list of a live
job, or in the run queue.

* `Calm`: what the handler does to the jobs. It starts or cancels children, and empties their lists.
* `onStatusChange_calm`: the handler is calm, and leaves no child of its job waiting.
* `Placed`: the invariant. A child names the job whose list it is in, and is younger than it.
* `Placed.onePlace`, `Placed.calm`: it gives each waiting job its place, and what is calm keeps it.
-/

import Gebr.Maestro.App
import Mathlib.Data.List.Nodup

namespace Gebr.Maestro.App

open Gebr.Comm Gebr.Lib

section Property

/-- The job is queued, and its runner has not been started. -/
def GebrmApp.Waiting (app : GebrmApp) (id : ℕ) : Prop :=
  (app.jobs id).status = .queued ∧ id ∉ app.started

/-- **The place of a job**: the children list of exactly one live job other than itself, or the run
queue, once. -/
def GebrmApp.OnePlace (app : GebrmApp) (id : ℕ) : Prop :=
  (∃ parent, parent ≠ id ∧ (app.jobs parent).status.isStopped = false ∧
    (app.jobs parent).children.count id = 1 ∧ id ∉ app.jobRunQueue ∧
    ∀ other, other ≠ parent → id ∉ (app.jobs other).children) ∨
  (app.jobRunQueue.count id = 1 ∧ ∀ other, id ∉ (app.jobs other).children)

/-- **The children of a killed job** are with its parent, or in the run queue when there is no live
parent, once each. -/
def KillMoves (app : GebrmApp) (id : ℕ) (next : GebrmApp) : Prop :=
  ∀ child ∈ (app.jobs id).children,
    match liveParent (app.jobs id).parentId app with
    | some parent => (next.jobs parent).children.count child = 1 ∧
        (next.jobs child).parentId = (app.jobs id).parentId
    | none => next.jobRunQueue.count child = 1

/-- **The steps that scatter no children**: no job names itself as its parent, and a queued job that
is killed has no children, or has one, and a live parent that is older than the child. -/
def KillsMove (app : GebrmApp) (input : Input) : Prop :=
  match input.event with
  | .run parentId _ _ => parentId ≠ .num app.counter
  | .executionResponse _ => True
  | .signal _ _ => True
  | .kill id => ∀ job, gebrmAppJobControllerFind id app = some job →
    (app.jobs job).status = .queued →
    (app.jobs job).children = [] ∨
      ∃ child parent, (app.jobs job).children = [child] ∧
        liveParent (app.jobs job).parentId app = some parent ∧ parent < child
  | .close _ => True

end Property

section Calm

/-- A child is younger than the job whose list it is in. -/
def GebrmApp.Ordered (app : GebrmApp) : Prop :=
  ∀ id, ∀ child ∈ (app.jobs id).children, id < child ∧ child < app.counter

/-- **What the handler does to the jobs**, at most: a status that changes is no longer `QUEUED`, and
a list that changes is emptied, once none of its members waits. -/
structure Calm (before after : GebrmApp) : Prop where
  counter : after.counter = before.counter
  queue : after.jobRunQueue = before.jobRunQueue
  parent : ∀ id, (after.jobs id).parentId = (before.jobs id).parentId
  started : ∀ id ∈ before.started, id ∈ after.started
  below : ∀ id ∈ after.started, id ∈ before.started ∨ id < before.counter
  status : ∀ id, (after.jobs id).status = (before.jobs id).status ∨
    (after.jobs id).status ≠ .queued ∧
      ((after.jobs id).status.isStopped = true → (after.jobs id).children = [])
  children : ∀ id, (after.jobs id).children = (before.jobs id).children ∨
    (after.jobs id).children = [] ∧ ∀ child ∈ (before.jobs id).children, ¬ after.Waiting child

variable {before mid after app : GebrmApp}

theorem Calm.refl (app : GebrmApp) : Calm app app :=
  ⟨rfl, rfl, fun _ => rfl, fun _ member => member, fun _ member => Or.inl member,
    fun _ => Or.inl rfl, fun _ => Or.inl rfl⟩

/-- A job that does not wait does not wait afterwards. -/
theorem Calm.waiting (calm : Calm before after) {id : ℕ} (waits : after.Waiting id) :
    before.Waiting id := by
  refine ⟨?_, fun member => waits.2 (calm.started id member)⟩
  rcases calm.status id with same | ⟨changed, -⟩
  · exact same ▸ waits.1
  · exact absurd waits.1 changed

theorem Calm.subset (calm : Calm before after) (id : ℕ) :
    ∀ child ∈ (after.jobs id).children, child ∈ (before.jobs id).children := by
  intro child member
  rcases calm.children id with same | ⟨empty, -⟩
  · exact same ▸ member
  · rw [empty] at member
    exact absurd member List.not_mem_nil

theorem Calm.ordered (calm : Calm before after) (ordered : before.Ordered) : after.Ordered := by
  intro id child member
  rw [calm.counter]
  exact ordered id child (calm.subset id child member)

theorem Calm.trans (first : Calm before mid) (second : Calm mid after) : Calm before after where
  counter := second.counter.trans first.counter
  queue := second.queue.trans first.queue
  parent := fun id => (second.parent id).trans (first.parent id)
  started := fun id member => second.started id (first.started id member)
  below := by
    intro id member
    rcases second.below id member with early | bound
    · exact first.below id early
    · exact Or.inr (first.counter ▸ bound)
  status := by
    intro id
    rcases second.status id with same | changed
    · rcases first.status id with same' | ⟨left, empty⟩
      · exact Or.inl (same.trans same')
      · rw [same]
        refine Or.inr ⟨left, fun stopped => ?_⟩
        have empty' := empty stopped
        rcases second.children id with kept | ⟨gone, -⟩
        · exact kept.trans empty'
        · exact gone
    · exact Or.inr changed
  children := by
    intro id
    rcases second.children id with same | ⟨gone, idle⟩
    · rcases first.children id with same' | ⟨gone', idle'⟩
      · exact Or.inl (same.trans same')
      · exact Or.inr ⟨same.trans gone', fun child member waits =>
          idle' child member (second.waiting waits)⟩
    · refine Or.inr ⟨gone, fun child member waits => ?_⟩
      rcases first.children id with same' | ⟨-, idle'⟩
      · exact idle child (same' ▸ member) waits
      · exact idle' child member (second.waiting waits)

/-- The queue of definitions and the messages are no matter. -/
theorem Calm.frame (calm : Calm before after) (queue announced : List ℕ)
    (sent : List (ℕ × Message)) :
    Calm before { after with jobDefQueue := queue, announced := announced, sent := sent } :=
  ⟨calm.counter, calm.queue, calm.parent, calm.started, calm.below, calm.status, calm.children⟩

theorem calm_start {child : ℕ} (below : child < app.counter) :
    Calm app (gebrCommRunnerRunAsync child app) where
  counter := rfl
  queue := rfl
  parent := fun _ => rfl
  started := fun _ member => List.mem_append_left _ member
  below := by
    intro id member
    rcases List.mem_append.1 member with early | new
    · exact Or.inl early
    · rw [List.mem_singleton.1 new]
      exact Or.inr below
  status := fun _ => Or.inl rfl
  children := fun _ => Or.inl rfl

theorem not_waiting_start (child : ℕ) (app : GebrmApp) :
    ¬ (gebrCommRunnerRunAsync child app).Waiting child := fun waits =>
  waits.2 (List.mem_append_right _ (List.mem_singleton.2 rfl))

theorem calm_clear (id : ℕ) (idle : ∀ child ∈ (app.jobs id).children, ¬ app.Waiting child) :
    Calm app (setChildren id [] app) where
  counter := rfl
  queue := rfl
  parent := by
    intro other
    rw [jobs_setChildren]
    split_ifs with same
    · rw [same]
    · rfl
  started := fun _ member => member
  below := fun _ member => Or.inl member
  status := by
    intro other
    rw [jobs_setChildren]
    split_ifs with same
    · exact Or.inl (by rw [same])
    · exact Or.inl rfl
  children := by
    intro other
    rw [children_setChildren]
    split_ifs with same
    · refine Or.inr ⟨rfl, fun child member waits => idle child (same ▸ member) ⟨?_, waits.2⟩⟩
      have status := waits.1
      rw [jobs_setChildren] at status
      split at status
      · rename_i same'
        rw [same']
        exact status
      · exact status
    · exact Or.inl rfl

theorem Calm.setStatus {id : ℕ} {status : JobStatus} (left : status ≠ .queued)
    (calm : Calm (gebrmJobSetStatus id status app) after)
    (empty : status.isStopped = true → (after.jobs id).children = []) : Calm app after where
  counter := calm.counter
  queue := calm.queue
  started := calm.started
  below := calm.below
  parent := by
    intro other
    rw [calm.parent, jobs_setStatus]
    split_ifs with same
    · rw [same]
    · rfl
  status := by
    intro other
    rcases calm.status other with same | changed
    · rw [jobs_setStatus] at same
      split at same
      · rename_i here
        rw [here]
        have now : (after.jobs id).status = status := here ▸ same
        exact Or.inr ⟨fun queued => left (now.symm.trans queued), fun stopped =>
          empty (now ▸ stopped)⟩
      · exact Or.inl same
    · exact Or.inr changed
  children := by
    intro other
    have kept := calm.children other
    rw [children_setStatus] at kept
    exact kept

end Calm

section Handler

variable {isoDate : String} {failing : List ℕ}

/-- **The handler is calm**, and leaves no child of its job waiting, nor in the list. A child that
is killed calls it again, and is younger: this is what bounds the depth. -/
theorem onStatusChange_calm (isoDate : String) (failing : List ℕ) (fuel : ℕ) {id : ℕ}
    (old : JobStatus) {new : JobStatus} (parameter : Option String) {app : GebrmApp}
    (ordered : app.Ordered) (below : id < app.counter) (enough : app.counter - id ≤ fuel)
    (stopped : new.isStopped = true) :
    let after := gebrmAppJobControllerOnStatusChange isoDate failing fuel id old new parameter app
    Calm app after ∧ (after.jobs id).children = [] ∧
      ∀ child ∈ (app.jobs id).children, ¬ after.Waiting child := by
  induction fuel generalizing id old new parameter app with
  | zero => omega
  | succ fuel ih =>
    let one : GebrmApp → ℕ → GebrmApp := fun app child =>
      if child ∈ failing then
        gebrmAppJobControllerOnStatusChange isoDate failing fuel child (app.jobs child).status
          .canceled (some isoDate) (gebrmJobSetStatus child .canceled app)
      else gebrCommRunnerRunAsync child app
    have single : ∀ (mid : GebrmApp) (child : ℕ), mid.Ordered → mid.counter = app.counter →
        id < child → child < app.counter →
        Calm mid (one mid child) ∧ ¬ (one mid child).Waiting child := by
      intro mid child midOrdered counter younger bound
      by_cases fails : child ∈ failing
      · have killed : one mid child = gebrmAppJobControllerOnStatusChange isoDate failing fuel child
            (mid.jobs child).status .canceled (some isoDate)
            (gebrmJobSetStatus child .canceled mid) := if_pos fails
        have relisted : (gebrmJobSetStatus child .canceled mid).Ordered := by
          intro other grandchild member
          rw [children_setStatus] at member
          exact midOrdered other grandchild member
        obtain ⟨calm, empty, -⟩ := ih (mid.jobs child).status (some isoDate) relisted
          (counter.symm ▸ bound) (show mid.counter - child ≤ fuel by omega)
          (by rfl : JobStatus.canceled.isStopped = true)
        rw [killed]
        have whole := calm.setStatus JobStatus.noConfusion fun _ => empty
        refine ⟨whole, fun waits => ?_⟩
        have status := (calm.waiting waits).1
        rw [jobs_setStatus, if_pos rfl] at status
        cases status
      · have begun : one mid child = gebrCommRunnerRunAsync child mid := if_neg fails
        rw [begun]
        exact ⟨calm_start (counter.symm ▸ bound), not_waiting_start child mid⟩
    have loop : ∀ (children : List ℕ) (mid : GebrmApp), mid.Ordered → mid.counter = app.counter →
        (∀ child ∈ children, id < child ∧ child < app.counter) →
        Calm mid (children.foldl one mid) ∧
          ∀ child ∈ children, ¬ (children.foldl one mid).Waiting child := by
      intro children
      induction children with
      | nil => exact fun mid _ _ _ => ⟨Calm.refl mid, fun _ member => absurd member List.not_mem_nil⟩
      | cons child children ihList =>
        intro mid midOrdered counter known
        rw [List.forall_mem_cons] at known
        obtain ⟨calm, idle⟩ := single mid child midOrdered counter known.1.1 known.1.2
        obtain ⟨calm', idle'⟩ := ihList (one mid child) (calm.ordered midOrdered)
          (calm.counter.trans counter) known.2
        rw [List.foldl_cons]
        exact ⟨calm.trans calm', List.forall_mem_cons.2 ⟨fun waits => idle (calm'.waiting waits),
          idle'⟩⟩
    obtain ⟨calm, idle⟩ := loop (app.jobs id).children app ordered rfl (ordered id)
    have cleared := calm_clear id fun child member => idle child (calm.subset id child member)
    have whole := calm.trans cleared
    obtain ⟨queue, announced, sent, same⟩ := tellStatus_frame id old new parameter
      (setChildren id [] ((app.jobs id).children.foldl one app))
    have told : gebrmAppJobControllerOnStatusChange isoDate failing (fuel + 1) id old new parameter
        app = tellStatus id old new parameter
          (setChildren id [] ((app.jobs id).children.foldl one app)) := by
      rw [gebrmAppJobControllerOnStatusChange, if_pos stopped]
    dsimp only
    rw [told, same]
    refine ⟨whole.frame queue announced sent, ?_, fun child member waits => ?_⟩
    · show ((setChildren id [] _).jobs id).children = []
      rw [children_setChildren, if_pos rfl]
    · exact idle child member (cleared.waiting waits)

/-- **A job changes its status**, to one that is not `QUEUED`. -/
theorem statusChange_calm (isoDate : String) (failing : List ℕ) {app : GebrmApp}
    (ordered : app.Ordered) {id : ℕ} (below : id < app.counter) {new : JobStatus}
    (left : new ≠ .queued) (old : JobStatus) (parameter : Option String) :
    let after := gebrmAppJobControllerOnStatusChange isoDate failing app.counter id old new
      parameter (gebrmJobSetStatus id new app)
    Calm app after ∧ ¬ after.Waiting id := by
  have idle : ¬ (gebrmJobSetStatus id new app).Waiting id := by
    rintro ⟨status, -⟩
    rw [jobs_setStatus, if_pos rfl] at status
    exact left status
  dsimp only
  cases stopped : new.isStopped with
  | false =>
    obtain ⟨queue, announced, sent, same⟩ := onStatusChange_live isoDate failing stopped app.counter
      id old parameter (gebrmJobSetStatus id new app)
    rw [same]
    refine ⟨Calm.frame ?_ queue announced sent, idle⟩
    refine (Calm.refl _).setStatus left fun stopped' => ?_
    rw [stopped] at stopped'
    cases stopped'
  | true =>
    have relisted : (gebrmJobSetStatus id new app).Ordered := by
      intro other child member
      rw [children_setStatus] at member
      exact ordered other child member
    obtain ⟨calm, empty, -⟩ := onStatusChange_calm isoDate failing app.counter old parameter relisted
      below (Nat.sub_le _ _) stopped
    exact ⟨calm.setStatus left fun _ => empty, fun waits => idle (calm.waiting waits)⟩

/-- A job is killed, and does not wait any more. -/
theorem killImmediately_calm {app : GebrmApp} (ordered : app.Ordered) {id : ℕ}
    (below : id < app.counter) :
    Calm app (gebrmJobKillImmediately isoDate failing id app) ∧
      ¬ (gebrmJobKillImmediately isoDate failing id app).Waiting id :=
  statusChange_calm isoDate failing ordered below JobStatus.noConfusion _ _

/-- A job without children stops, and the clients are told. -/
theorem onStatusChange_childless (isoDate : String) (failing : List ℕ) {fuel : ℕ} (some : 0 < fuel)
    (id : ℕ) (old new : JobStatus) (parameter : Option String) {app : GebrmApp}
    (childless : (app.jobs id).children = []) :
    ∃ after queue announced sent,
      gebrmAppJobControllerOnStatusChange isoDate failing fuel id old new parameter app =
        { after with jobDefQueue := queue, announced := announced, sent := sent } ∧
      (after = app ∨ after = setChildren id [] app) := by
  obtain ⟨fuel, rfl⟩ : ∃ less, fuel = less + 1 := ⟨fuel - 1, by omega⟩
  unfold gebrmAppJobControllerOnStatusChange
  rw [childless, List.foldl_nil]
  split
  · obtain ⟨queue, announced, sent, same⟩ := tellStatus_frame id old new parameter
      (setChildren id [] app)
    exact ⟨_, queue, announced, sent, same, Or.inr rfl⟩
  · obtain ⟨queue, announced, sent, same⟩ := tellStatus_frame id old new parameter app
    exact ⟨_, queue, announced, sent, same, Or.inl rfl⟩

end Handler

section Invariant

/-- **The invariant**, without the head of the run queue, and but for some jobs that may wait in no
place. -/
structure PlacedBut (exempt : ℕ → Prop) (app : GebrmApp) : Prop where
  ordered : app.Ordered
  named : ∀ id, ∀ child ∈ (app.jobs id).children,
    (app.jobs child).parentId = .num id ∧ child ∉ app.jobRunQueue
  distinct : ∀ id, (app.jobs id).children.Nodup
  stopped : ∀ id, (app.jobs id).status.isStopped = true → (app.jobs id).children = []
  apart : ∀ id, (app.jobs id).parentId ≠ .num id
  queue : app.jobRunQueue.Nodup
  bounded : ∀ root ∈ app.jobRunQueue, root < app.counter
  started : ∀ id ∈ app.started, id < app.counter
  fresh : ∀ id, app.counter ≤ id → (app.jobs id).children = [] ∧ (app.jobs id).status ≠ .queued
  waiting : ∀ id, app.Waiting id → ¬ exempt id →
    (∃ parent, id ∈ (app.jobs parent).children) ∨ id ∈ app.jobRunQueue

/-- **The invariant.** The head of the run queue does not wait. -/
structure Placed (app : GebrmApp) : Prop extends PlacedBut (fun _ => False) app where
  head : ∀ root ∈ app.jobRunQueue.head?, ¬ app.Waiting root

variable {exempt other : ℕ → Prop} {app after next : GebrmApp}

theorem placed_new (connections : List ℕ) : Placed (gebrmAppNew connections) where
  ordered := fun _ _ member => absurd member List.not_mem_nil
  named := fun _ _ member => absurd member List.not_mem_nil
  distinct := fun _ => List.nodup_nil
  stopped := fun _ _ => rfl
  apart := fun _ => Key.noConfusion
  queue := List.nodup_nil
  bounded := fun _ member => absurd member List.not_mem_nil
  started := fun _ member => absurd member List.not_mem_nil
  fresh := fun _ _ => ⟨rfl, JobStatus.noConfusion⟩
  waiting := fun _ waits => JobStatus.noConfusion waits.1
  head := fun _ member => absurd member (Option.not_mem_none _)

/-- **The invariant gives each waiting job its place.** -/
theorem Placed.onePlace (placed : Placed app) {id : ℕ} (waits : app.Waiting id) :
    app.OnePlace id := by
  rcases placed.waiting id waits not_false with ⟨parent, member⟩ | queued
  · obtain ⟨name, unqueued⟩ := placed.named parent id member
    have younger := (placed.ordered parent id member).1
    refine Or.inl ⟨parent, by omega, Bool.eq_false_iff.2 fun stopped => ?_,
      List.count_eq_one_of_mem (placed.distinct parent) member, unqueued, fun another apart listed =>
        ?_⟩
    · rw [placed.stopped parent stopped] at member
      exact absurd member List.not_mem_nil
    · exact apart (Key.num.inj ((placed.named another id listed).1.symm.trans name))
  · exact Or.inr ⟨List.count_eq_one_of_mem placed.queue queued, fun another listed =>
      (placed.named another id listed).2 queued⟩

/-- Jobs that do not wait need no exemption. -/
theorem PlacedBut.weaken (placed : PlacedBut exempt app)
    (covers : ∀ id, app.Waiting id → exempt id → other id) : PlacedBut other app :=
  { placed with
    waiting := fun id waits exposed =>
      placed.waiting id waits fun exempted => exposed (covers id waits exempted) }

/-- **What is calm keeps the invariant.** -/
theorem PlacedBut.calm (placed : PlacedBut exempt app) (calm : Calm app after) :
    PlacedBut exempt after where
  ordered := calm.ordered placed.ordered
  named := by
    intro id child member
    rw [calm.parent, calm.queue]
    exact placed.named id child (calm.subset id child member)
  distinct := by
    intro id
    rcases calm.children id with same | ⟨empty, -⟩
    · rw [same]
      exact placed.distinct id
    · rw [empty]
      exact List.nodup_nil
  stopped := by
    intro id stopped
    rcases calm.status id with same | ⟨-, empty⟩
    · have before := placed.stopped id (same ▸ stopped)
      rcases calm.children id with kept | ⟨gone, -⟩
      · exact kept.trans before
      · exact gone
    · exact empty stopped
  apart := by
    intro id
    rw [calm.parent]
    exact placed.apart id
  queue := calm.queue ▸ placed.queue
  bounded := calm.queue ▸ calm.counter ▸ placed.bounded
  started := by
    intro id member
    rw [calm.counter]
    exact (calm.below id member).elim (placed.started id) fun bound => bound
  fresh := by
    intro id beyond
    rw [calm.counter] at beyond
    obtain ⟨empty, idle⟩ := placed.fresh id beyond
    refine ⟨(calm.children id).elim (fun same => same.trans empty) fun gone => gone.1, ?_⟩
    exact (calm.status id).elim (fun same => same ▸ idle) fun changed => changed.1
  waiting := by
    intro id waits exposed
    rw [calm.queue]
    rcases placed.waiting id (calm.waiting waits) exposed with ⟨parent, member⟩ | queued
    · rcases calm.children parent with same | ⟨-, idle⟩
      · exact Or.inl ⟨parent, same ▸ member⟩
      · exact absurd waits (idle id member)
    · exact Or.inr queued

theorem Placed.calm (placed : Placed app) (calm : Calm app after) : Placed after where
  toPlacedBut := placed.toPlacedBut.calm calm
  head := by
    intro root first waits
    exact placed.head root (calm.queue ▸ first) (calm.waiting waits)

end Invariant

end Gebr.Maestro.App
