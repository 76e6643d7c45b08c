/-
**Jobs are announced before they are spoken of.**

* `AnnouncedFirst`: each client has the definition of a job before any other message about it, and
  `job_def_queue` holds the jobs that have not been announced.
* `Announcing`: the invariant, with what is known of the ids in the other lists.
* `Announcing.onStatusChange`: the handler keeps it, when the job is announced and no runner fails
  whose job is not.
-/

import Gebr.Lib.DefinedFirst
import Gebr.Maestro.App
import Mathlib.Data.List.Nodup

namespace Gebr.Maestro.App

open Gebr.Comm Gebr.Lib

section Property

/-- The job that a message names. -/
def Message.jobId : Message → ℕ
  | .job id _ _ => id
  | .sta id _ _ => id
  | .iss id _ => id
  | .cmd id _ _ => id
  | .out id _ _ => id
  | .jcl id => id

/-- The message is the definition of a job. -/
def Message.isJob : Message → Bool
  | .job _ _ _ => true
  | _ => false

/-- The entry gives a client the definition of a job. -/
def Defines (entry : ℕ × Message) (key : ℕ × ℕ) : Prop :=
  entry.2.isJob = true ∧ (entry.1, entry.2.jobId) = key

/-- The entry speaks to a client of a job. -/
def Mentions (entry : ℕ × Message) (key : ℕ × ℕ) : Prop :=
  entry.2.isJob = false ∧ (entry.1, entry.2.jobId) = key

/-- **What the clients are to be sent, and what `job_def_queue` is to hold.** -/
structure AnnouncedFirst (app : GebrmApp) : Prop where
  first : DefinedFirst Defines Mentions app.sent
  told : ∀ id ∈ app.announced, ∀ client ∈ app.connections, Defined Defines app.sent (client, id)
  distinct : app.jobDefQueue.Nodup
  queue_iff : ∀ id, id ∈ app.jobDefQueue ↔ id < app.counter ∧ id ∉ app.announced

/-- **What a response is to do**: if a job leaves `job_def_queue`, it is the one whose definition is
sent. -/
def ResponseAnnounces (app : GebrmApp) (input : Input) (next : GebrmApp) : Prop :=
  ∀ id, input.event = .executionResponse id →
    (∀ popped ∈ app.jobDefQueue.head?, popped = id) ∧ id ∈ next.announced

/-- **The steps that take the jobs in turn.** No runner fails to start while its job is not
announced; a child comes when its parent is not announced either, or when all jobs are; a response
is that of the head of `job_def_queue`, if there is one; and no signal, `/kill` or `/close` names a
job that is not announced, nor does a `/kill` move one. -/
def InTurn (app : GebrmApp) (input : Input) : Prop :=
  (∀ id ∈ app.jobDefQueue, id ∉ input.failing) ∧
  match input.event with
  | .run parentId servers _ =>
    (app.jobRunQueue = [] → app.counter ∉ input.failing) ∧
    (servers = true → app.jobDefQueue ≠ [] →
      parentId ≠ .num app.counter ∧
      ∀ parent, liveParent parentId app = some parent → parent ∈ app.jobDefQueue)
  | .executionResponse id => ∀ popped ∈ app.jobDefQueue.head?, popped = id
  | .signal id _ => id ∉ app.jobDefQueue
  | .kill id => ∀ job, gebrmAppJobControllerFind id app = some job →
    (app.jobs job).status = .queued →
      job ∉ app.jobDefQueue ∧ ∀ child ∈ (app.jobs job).children.head?, child ∉ app.jobDefQueue
  | .close id => ∀ job, gebrmAppJobControllerFind id app = some job → job ∉ app.jobDefQueue

end Property

section Invariant

/-- **The invariant.** -/
structure Announcing (app : GebrmApp) : Prop extends AnnouncedFirst app where
  known : ∀ id ∈ app.announced, id < app.counter
  children : ∀ id, ∀ child ∈ (app.jobs id).children, child < app.counter
  queued : ∀ root ∈ app.jobRunQueue, root < app.counter
  awaiting : ∀ id ∈ app.awaiting, id < app.counter
  started : ∀ id ∈ app.started, id < app.counter

variable {app next : GebrmApp} {isoDate : String} {failing : List ℕ}

theorem announcing_new (connections : List ℕ) : Announcing (gebrmAppNew connections) where
  first := definedFirst_nil
  told := fun _ member => absurd member List.not_mem_nil
  distinct := List.nodup_nil
  queue_iff := fun _ => iff_of_false List.not_mem_nil fun known => Nat.not_lt_zero _ known.1
  known := fun _ member => absurd member List.not_mem_nil
  children := fun _ _ member => absurd member List.not_mem_nil
  queued := fun _ member => absurd member List.not_mem_nil
  awaiting := fun _ member => absurd member List.not_mem_nil
  started := fun _ member => absurd member List.not_mem_nil

/-- A job that is not in `job_def_queue` has been announced. -/
theorem Announcing.announced (good : Announcing app) {id : ℕ} (below : id < app.counter)
    (out : id ∉ app.jobDefQueue) : id ∈ app.announced := by
  by_contra unknown
  exact out ((good.queue_iff id).2 ⟨below, unknown⟩)

/-- The invariant has no interest in the jobs themselves, but for their children. -/
theorem Announcing.of_same (good : Announcing app) (jobs : ℕ → AppJob)
    (children : ∀ id, ∀ child ∈ (jobs id).children, child < app.counter) (runQueue : List ℕ)
    (queued : ∀ root ∈ runQueue, root < app.counter) (roots started awaiting : List ℕ)
    (startedBelow : ∀ id ∈ started, id < app.counter)
    (awaitingBelow : ∀ id ∈ awaiting, id < app.counter) :
    Announcing { app with jobs := jobs, jobRunQueue := runQueue, roots := roots, started := started,
                          awaiting := awaiting } :=
  ⟨⟨good.first, good.told, good.distinct, good.queue_iff⟩, good.known, children, queued,
    awaitingBelow, startedBelow⟩

theorem Announcing.start (good : Announcing app) {id : ℕ} (below : id < app.counter) :
    Announcing (gebrCommRunnerRunAsync id app) := by
  have more : ∀ list : List ℕ, (∀ other ∈ list, other < app.counter) →
      ∀ other ∈ list ++ [id], other < app.counter := by
    intro list bound other member
    rcases List.mem_append.1 member with old | new
    · exact bound other old
    · rw [List.mem_singleton.1 new]
      exact below
  exact good.of_same app.jobs good.children app.jobRunQueue good.queued app.roots _ _
    (more app.started good.started) (more app.awaiting good.awaiting)

theorem Announcing.setStatus (good : Announcing app) (id : ℕ) (status : JobStatus) :
    Announcing (gebrmJobSetStatus id status app) := by
  refine good.of_same _ (fun other child member => ?_) app.jobRunQueue good.queued app.roots
    app.started app.awaiting good.started good.awaiting
  have member' : child ∈ ((gebrmJobSetStatus id status app).jobs other).children := member
  rw [children_setStatus] at member'
  exact good.children other child member'

theorem Announcing.setQueue (good : Announcing app) (id : ℕ) (parentId : Key) :
    Announcing (gebrmJobSetQueue id parentId app) := by
  refine good.of_same _ (fun other child member => ?_) app.jobRunQueue good.queued app.roots
    app.started app.awaiting good.started good.awaiting
  have member' : child ∈ ((gebrmJobSetQueue id parentId app).jobs other).children := member
  rw [children_setQueue] at member'
  exact good.children other child member'

theorem Announcing.setChildren (good : Announcing app) (id : ℕ) {children : List ℕ}
    (below : ∀ child ∈ children, child < app.counter) :
    Announcing (setChildren id children app) := by
  refine good.of_same _ (fun other child member => ?_) app.jobRunQueue good.queued app.roots
    app.started app.awaiting good.started good.awaiting
  have member' : child ∈ ((App.setChildren id children app).jobs other).children := member
  rw [children_setChildren] at member'
  split at member'
  · exact below child member'
  · exact good.children other child member'

/-- **Messages about jobs that are announced** may be sent to the clients. -/
theorem Announcing.send (good : Announcing app) (more : List (ℕ × Message))
    (about : ∀ entry ∈ more, entry.2.isJob = false →
      entry.1 ∈ app.connections ∧ entry.2.jobId ∈ app.announced) :
    Announcing { app with sent := app.sent ++ more } := by
  refine ⟨⟨?_, fun id member client connected => ?_, good.distinct, good.queue_iff⟩, good.known,
    good.children, good.queued, good.awaiting, good.started⟩
  · refine good.first.append fun entry member key mentions => ?_
    obtain ⟨plain, rfl⟩ := mentions
    obtain ⟨connected, announced⟩ := about entry member plain
    exact good.told _ announced _ connected
  · exact (good.told id member client connected).append more

/-- All clients are told of a job that is announced. -/
theorem Announcing.broadcast (good : Announcing app) {message : Message}
    (announced : message.jobId ∈ app.announced) : Announcing (app.broadcast message) := by
  refine good.send _ fun entry member _ => ?_
  obtain ⟨client, connected, rfl⟩ := List.mem_map.1 member
  exact ⟨connected, announced⟩

/-- **A job is announced**, and leaves `job_def_queue` if it was there. -/
theorem Announcing.define (good : Announcing app) {id : ℕ} (below : id < app.counter)
    {queue : List ℕ} (distinct : queue.Nodup)
    (rest : ∀ other, other ∈ queue ↔ other ∈ app.jobDefQueue ∧ other ≠ id) :
    Announcing (sendJobDefToClients id { app with jobDefQueue := queue }) := by
  refine ⟨⟨?_, fun other member client connected => ?_, distinct, fun other => ?_⟩,
    fun other member => ?_, good.children, good.queued, good.awaiting, good.started⟩
  · refine good.first.append fun entry member key mentions => ?_
    obtain ⟨client, -, rfl⟩ := List.mem_map.1 member
    exact absurd (show true = false from mentions.1) Bool.false_ne_true.symm
  · rcases List.mem_append.1 member with old | new
    · exact (good.told other old client connected).append _
    · rw [List.mem_singleton.1 new]
      exact ⟨_, List.mem_append_right _ (List.mem_map_of_mem connected), rfl, rfl⟩
  · show other ∈ queue ↔ other < app.counter ∧ other ∉ app.announced ++ [id]
    rw [rest, good.queue_iff, List.mem_append, List.mem_singleton, not_or, and_assoc]
  · rcases List.mem_append.1 member with old | new
    · exact good.known other old
    · rw [List.mem_singleton.1 new]
      exact below

/-- **The flush** announces all that waits in `job_def_queue`. -/
theorem Announcing.flush (good : Announcing app) : Announcing (flushJobDefQueue app) := by
  rw [flushJobDefQueue_eq]
  have below : ∀ id ∈ app.jobDefQueue, id < app.counter := fun id member =>
    ((good.queue_iff id).1 member).1
  refine ⟨⟨?_, fun id member client connected => ?_, List.nodup_nil, fun id => ?_⟩,
    fun id member => ?_, good.children, good.queued, good.awaiting, good.started⟩
  · refine good.first.append fun entry member key mentions => ?_
    obtain ⟨id, -, listed⟩ := List.mem_flatMap.1 member
    obtain ⟨client, -, rfl⟩ := List.mem_map.1 listed
    exact absurd (show true = false from mentions.1) Bool.false_ne_true.symm
  · rcases List.mem_append.1 member with old | new
    · exact (good.told id old client connected).append _
    · refine ⟨(client, app.jobDef id), List.mem_append_right _ ?_, rfl, rfl⟩
      exact List.mem_flatMap.2 ⟨id, new, List.mem_map_of_mem connected⟩
  · refine iff_of_false List.not_mem_nil fun unknown => unknown.2 ?_
    by_cases queued : id ∈ app.jobDefQueue
    · exact List.mem_append_right _ queued
    · exact List.mem_append_left _ (good.announced unknown.1 queued)
  · rcases List.mem_append.1 member with old | new
    · exact good.known id old
    · exact below id new

/-- **A status is told**, and the queue is flushed between two clients. -/
theorem Announcing.tellStatus (good : Announcing app) {id : ℕ} (announced : id ∈ app.announced)
    (old new : JobStatus) (parameter : Option String) :
    Announcing (tellStatus id old new parameter app) := by
  have one : ∀ (mid : GebrmApp) (client : ℕ), Announcing mid → id ∈ mid.announced →
      client ∈ mid.connections →
      Announcing (tellClient id old new parameter mid client) ∧
        id ∈ (tellClient id old new parameter mid client).announced ∧
        (tellClient id old new parameter mid client).connections = mid.connections := by
    intro mid client midGood known connected
    have sent := midGood.send [(client, .sta id new parameter)] fun entry member _ => by
      rw [List.mem_singleton.1 member]
      exact ⟨connected, known⟩
    unfold tellClient
    split_ifs
    · have flushed := sent.flush
      rw [flushJobDefQueue_eq] at flushed ⊢
      exact ⟨flushed, List.mem_append_left _ known, rfl⟩
    · exact ⟨sent, known, rfl⟩
  have loop : ∀ (clients : List ℕ) (mid : GebrmApp), Announcing mid → id ∈ mid.announced →
      (∀ client ∈ clients, client ∈ mid.connections) →
      Announcing (clients.foldl (tellClient id old new parameter) mid) := by
    intro clients
    induction clients with
    | nil => exact fun mid midGood _ _ => midGood
    | cons client clients ih =>
      intro mid midGood known connected
      rw [List.forall_mem_cons] at connected
      obtain ⟨next, kept, same⟩ := one mid client midGood known connected.1
      rw [List.foldl_cons]
      exact ih _ next kept (same ▸ connected.2)
  exact loop app.connections app good announced fun _ member => member

/-- **The handler keeps the invariant**, when the job is announced and no runner fails to start
whose job is not. -/
theorem Announcing.onStatusChange (good : Announcing app)
    (starts : ∀ id ∈ app.jobDefQueue, id ∉ failing) (fuel : ℕ) {id : ℕ}
    (announced : id ∈ app.announced) (old new : JobStatus) (parameter : Option String) :
    Announcing
      (gebrmAppJobControllerOnStatusChange isoDate failing fuel id old new parameter app) := by
  by_cases runs : old = .initial ∧ new = .running
  · obtain ⟨rfl, rfl⟩ := runs
    cases fuel with
    | zero => exact good
    | succ fuel =>
      unfold gebrmAppJobControllerOnStatusChange
      exact good.tellStatus announced .initial .running parameter
  · let inv : GebrmApp → Prop := fun mid =>
      Announcing mid ∧ mid.counter = app.counter ∧ mid.announced = app.announced
    have kept : inv
        (gebrmAppJobControllerOnStatusChange isoDate failing fuel id old new parameter app) := by
      refine onStatusChange_keep (Q := fun child => child < app.counter)
        (S := fun id => id ∈ app.announced) ?_ ?_ ?_ ?_ ?_ ?_ fuel runs ⟨good, rfl, rfl⟩ announced
      · rintro mid parent ⟨midGood, counter, -⟩ child member
        exact counter ▸ midGood.children parent child member
      · intro child below fails
        exact good.announced below fun queued => starts child queued fails
      · rintro mid child ⟨midGood, counter, same⟩ below -
        exact ⟨midGood.start (counter ▸ below), counter, same⟩
      · rintro mid child ⟨midGood, counter, same⟩ -
        exact ⟨midGood.setStatus child .canceled, counter, same⟩
      · rintro mid parent ⟨midGood, counter, same⟩
        exact ⟨midGood.setChildren parent fun _ member => absurd member List.not_mem_nil, counter,
          same⟩
      · rintro mid told status parameter ⟨midGood, counter, same⟩ known
        exact ⟨midGood.broadcast (same ▸ known), counter, same⟩
    exact kept.1

end Invariant

section Queue

variable {parent : ℕ} {isoDate : String} {failing : List ℕ}

theorem killImmediately_announced (id : ℕ) (app : GebrmApp) :
    (gebrmJobKillImmediately isoDate failing id app).announced = app.announced := by
  have quiet : ¬ ((app.jobs id).status = .initial ∧ JobStatus.canceled = .running) := fun both =>
    JobStatus.noConfusion both.2
  let inv : GebrmApp → Prop := fun mid => mid.announced = app.announced
  have start : inv (gebrmJobSetStatus id .canceled app) := rfl
  have kept : inv (gebrmJobKillImmediately isoDate failing id app) :=
    onStatusChange_keep (Q := fun _ => True) (S := fun _ => True)
      (fun _ _ _ _ _ => trivial) (fun _ _ _ => trivial) (fun _ _ same _ _ => same)
      (fun _ _ same _ => same) (fun _ _ same => same) (fun _ _ _ _ same _ => same) app.counter quiet
      start trivial
  exact kept

/-- The job is put somewhere into the queue. -/
theorem insertAfter_perm (id : ℕ) {queue : List ℕ} (member : parent ∈ queue) :
    (insertAfter parent id queue).Perm (id :: queue) := by
  induction queue with
  | nil => exact absurd member List.not_mem_nil
  | cons first rest ih =>
    unfold insertAfter
    split_ifs with here
    · exact List.Perm.swap id first rest
    · have later : parent ∈ rest := (List.mem_cons.1 member).resolve_left (Ne.symm here)
      exact ((ih later).cons first).trans (List.Perm.swap id first rest)

end Queue

end Gebr.Maestro.App
