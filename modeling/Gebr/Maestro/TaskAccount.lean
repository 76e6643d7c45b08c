/-
**The account of the tasks of each daemon.**

* `Account`: what each daemon was sent, how many tasks are counted there, and what was said of the
  tasks.
* `Account.Sound`, `Account.Counted`: a task was sent once, to one daemon; the number of a daemon is
  that of its tasks that are not finished.
* `Sound.dispatch`, `Counted.report` and their siblings: what each way to change an account keeps;
  `Counted.not_dispatch`, `Counted.reset_iff`: what makes the numbers wrong.
-/

import Gebr.Comm.JobStatus
import Mathlib.Data.Int.Notation
import Mathlib.Data.List.Basic
import Mathlib.Logic.Function.Basic

namespace Gebr.Maestro.Gebrm

open Gebr.Comm

section Account

/-- An account: the daemon and the status of each task that is known, the number of each daemon with
the tasks it was sent, and the jobs whose tasks were sent. -/
@[ext] structure Account where
  task : ℕ × ℕ → Option (String × JobStatus)
  daemon : String → Option (ℤ × List (ℕ × ℕ))
  ran : List ℕ

/-- A task that has not reached a terminal status; one that is not known yet has not. -/
def Account.live (account : Account) (task : ℕ × ℕ) : Bool :=
  ((account.task task).map fun known => !known.2.isStopped).getD true

/-- The tasks of a job may be sent. -/
def Account.begin (id : ℕ) (account : Account) : Account :=
  { account with ran := id :: account.ran }

/-- A daemon is sent a task, which `count` adds to its number. -/
def Account.dispatch (count : ℤ) (address : String) (task : ℕ × ℕ) (account : Account) : Account :=
  { account with
    daemon := Function.update account.daemon address
      ((account.daemon address).map fun known => (known.1 + count, known.2 ++ [task])) }

/-- A daemon defines a task. -/
def Account.define (address : String) (task : ℕ × ℕ) (account : Account) : Account :=
  { account with task := Function.update account.task task (some (address, .running)) }

/-- A daemon reports a status of a task. -/
def Account.report (address : String) (task : ℕ × ℕ) (status : JobStatus) (account : Account) :
    Account where
  task := Function.update account.task task (some (address, status))
  daemon :=
    if status.isStopped = true then
      Function.update account.daemon address
        ((account.daemon address).map fun known => (known.1 - 1, known.2))
    else account.daemon
  ran := account.ran

/-- The number of a daemon is forgotten. -/
def Account.reset (address : String) (account : Account) : Account :=
  { account with
    daemon := Function.update account.daemon address
      ((account.daemon address).map fun known => (0, known.2)) }

/-- **What was sent where**: a task once, and to one daemon, which is the one that it is known
of. -/
structure Account.Sound (account : Account) : Prop where
  ran : ∀ address n tasks, account.daemon address = some (n, tasks) →
    ∀ task ∈ tasks, task.1 ∈ account.ran
  nodup : ∀ address n tasks, account.daemon address = some (n, tasks) → tasks.Nodup
  apart : ∀ one two m n tasks others, account.daemon one = some (m, tasks) →
    account.daemon two = some (n, others) → ∀ task ∈ tasks, task ∈ others → one = two
  known : ∀ task address status, account.task task = some (address, status) →
    ∃ n tasks, account.daemon address = some (n, tasks) ∧ task ∈ tasks

/-- **The number of a daemon is that of its live tasks.** -/
def Account.Counted (account : Account) : Prop :=
  ∀ address n tasks, account.daemon address = some (n, tasks) → n = tasks.countP account.live

/-- A task that no daemon was sent. -/
def Account.Fresh (account : Account) (task : ℕ × ℕ) : Prop :=
  ∀ address n tasks, account.daemon address = some (n, tasks) → task ∉ tasks

variable {account : Account} {address : String} {task : ℕ × ℕ} {status : JobStatus} {count : ℤ}

theorem map_update_some {α β : Type} [DecidableEq α] (change : β → β) {f : α → Option β}
    {key at' : α} {value : β}
    (here : Function.update f key ((f key).map change) at' = some value) :
    (at' ≠ key ∧ f at' = some value) ∨ (at' = key ∧ ∃ old, f key = some old ∧ value = change old) := by
  by_cases same : at' = key
  · subst same
    rw [Function.update_self] at here
    obtain ⟨old, found, rfl⟩ := Option.map_eq_some_iff.1 here
    exact Or.inr ⟨rfl, old, found, rfl⟩
  · rw [Function.update_of_ne same] at here
    exact Or.inl ⟨same, here⟩

/-- A task that was never sent is not known. -/
theorem Account.Sound.unknown (sound : account.Sound) (fresh : account.Fresh task) :
    account.task task = none := by
  cases here : account.task task with
  | none => rfl
  | some known =>
    obtain ⟨n, tasks, there, member⟩ := sound.known task known.1 known.2 here
    exact absurd member (fresh known.1 n tasks there)

theorem Account.Sound.begin (sound : account.Sound) (id : ℕ) : (account.begin id).Sound where
  ran := fun address n tasks here task member =>
    List.mem_cons_of_mem id (sound.ran address n tasks here task member)
  nodup := sound.nodup
  apart := sound.apart
  known := sound.known

theorem Account.Sound.dispatch (sound : account.Sound) (fresh : account.Fresh task)
    (ran : task.1 ∈ account.ran) : (account.dispatch count address task).Sound where
  ran := by
    intro other n tasks here one member
    rcases map_update_some _ here with ⟨-, before⟩ | ⟨-, old, before, same⟩
    · exact sound.ran other n tasks before one member
    · obtain ⟨rfl, rfl⟩ := Prod.mk.inj same
      rcases List.mem_append.1 member with earlier | new
      · exact sound.ran address old.1 old.2 before one earlier
      · exact List.mem_singleton.1 new ▸ ran
  nodup := by
    intro other n tasks here
    rcases map_update_some _ here with ⟨-, before⟩ | ⟨-, old, before, same⟩
    · exact sound.nodup other n tasks before
    · obtain ⟨rfl, rfl⟩ := Prod.mk.inj same
      refine List.nodup_append.2
        ⟨sound.nodup address old.1 old.2 before, List.pairwise_singleton _ _, ?_⟩
      intro one earlier two new same
      exact fresh address old.1 old.2 before (List.mem_singleton.1 new ▸ same ▸ earlier)
  apart := by
    intro one two m n tasks others first second p left right
    rcases map_update_some _ first with ⟨-, before⟩ | ⟨rfl, old, before, same⟩ <;>
      rcases map_update_some _ second with ⟨-, after⟩ | ⟨rfl, old', after, same'⟩
    · exact sound.apart one two m n tasks others before after p left right
    · obtain ⟨rfl, rfl⟩ := Prod.mk.inj same'
      rcases List.mem_append.1 right with earlier | new
      · exact sound.apart one two m old'.1 tasks old'.2 before after p left earlier
      · exact absurd (List.mem_singleton.1 new ▸ left) (fresh one m tasks before)
    · obtain ⟨rfl, rfl⟩ := Prod.mk.inj same
      rcases List.mem_append.1 left with earlier | new
      · exact sound.apart one two old.1 n old.2 others before after p earlier right
      · exact absurd (List.mem_singleton.1 new ▸ right) (fresh two n others after)
    · rfl
  known := by
    intro p owner status here
    obtain ⟨n, tasks, there, member⟩ := sound.known p owner status here
    by_cases same : owner = address
    · subst same
      refine ⟨n + count, tasks ++ [task], ?_, List.mem_append_left _ member⟩
      show Function.update account.daemon owner _ owner = _
      rw [Function.update_self, there]
      rfl
    · refine ⟨n, tasks, ?_, member⟩
      show Function.update account.daemon address _ owner = _
      rw [Function.update_of_ne same, there]

/-- A change of the numbers alone leaves what was sent where. -/
theorem Account.Sound.renumber (sound : account.Sound) (change : ℤ → ℤ) :
    Account.Sound { account with
      daemon := Function.update account.daemon address
        ((account.daemon address).map fun known => (change known.1, known.2)) } := by
  have before : ∀ {other n tasks}, Function.update account.daemon address
      ((account.daemon address).map fun known => (change known.1, known.2)) other = some (n, tasks) →
      ∃ m, account.daemon other = some (m, tasks) := by
    intro other n tasks here
    rcases map_update_some _ here with ⟨-, before⟩ | ⟨rfl, old, before, same⟩
    · exact ⟨n, before⟩
    · obtain ⟨rfl, rfl⟩ := Prod.mk.inj same
      exact ⟨old.1, before⟩
  refine ⟨fun other n tasks here => ?_, fun other n tasks here => ?_,
    fun one two m n tasks others first second => ?_, fun p owner status here => ?_⟩
  · obtain ⟨m, there⟩ := before here
    exact sound.ran other m tasks there
  · obtain ⟨m, there⟩ := before here
    exact sound.nodup other m tasks there
  · obtain ⟨m', here⟩ := before first
    obtain ⟨n', there⟩ := before second
    exact sound.apart one two m' n' tasks others here there
  · obtain ⟨n, tasks, there, member⟩ := sound.known p owner status here
    by_cases same : owner = address
    · subst same
      refine ⟨change n, tasks, ?_, member⟩
      show Function.update account.daemon owner _ owner = _
      rw [Function.update_self, there]
      rfl
    · refine ⟨n, tasks, ?_, member⟩
      show Function.update account.daemon address _ owner = _
      rw [Function.update_of_ne same, there]

/-- A task becomes known of the daemon that it was sent to. -/
theorem Account.Sound.tell (sound : account.Sound) {n : ℤ} {tasks : List (ℕ × ℕ)}
    (sent : account.daemon address = some (n, tasks)) (member : task ∈ tasks) (status : JobStatus) :
    Account.Sound { account with
      task := Function.update account.task task (some (address, status)) } where
  ran := sound.ran
  nodup := sound.nodup
  apart := sound.apart
  known := by
    intro p owner told here
    have here' : Function.update account.task task (some (address, status)) p = some (owner, told) :=
      here
    by_cases same : p = task
    · subst same
      rw [Function.update_self] at here'
      obtain ⟨rfl, rfl⟩ := Prod.mk.inj (Option.some.inj here')
      exact ⟨n, tasks, sent, member⟩
    · rw [Function.update_of_ne same] at here'
      exact sound.known p owner told here'

theorem Account.Sound.report (sound : account.Sound) {old : JobStatus}
    (known : account.task task = some (address, old)) (status : JobStatus) :
    (account.report address task status).Sound := by
  obtain ⟨n, tasks, sent, member⟩ := sound.known task address old known
  have told := sound.tell sent member status
  cases stopped : status.isStopped with
  | false =>
    have same : account.report address task status =
        { account with task := Function.update account.task task (some (address, status)) } := by
      unfold Account.report
      rw [stopped, if_neg Bool.false_ne_true]
    rw [same]
    exact told
  | true =>
    have renumbered := @Account.Sound.renumber _ address told fun n => n - 1
    have same : account.report address task status =
        { account with
          task := Function.update account.task task (some (address, status)),
          daemon := Function.update account.daemon address
            ((account.daemon address).map fun known => (known.1 - 1, known.2)) } := by
      unfold Account.report
      rw [stopped, if_pos rfl]
    rw [same]
    exact renumbered

end Account

section Counts

variable {account : Account} {address : String} {task : ℕ × ℕ} {status old : JobStatus}

/-- Where a task is not, its status does not matter. -/
theorem countP_update_of_not_mem {α : Type} [DecidableEq α] {list : List α} {item : α}
    (absent : item ∉ list) (p : α → Bool) (value : Bool) :
    list.countP (Function.update p item value) = list.countP p := by
  refine List.countP_congr fun other member => ?_
  have apart : other ≠ item := by
    rintro rfl
    exact absent member
  rw [Function.update_of_ne apart]

/-- In a list without repetition, one item counts once. -/
theorem countP_update_false {α : Type} [DecidableEq α] {list : List α} {item : α}
    (nodup : list.Nodup) (member : item ∈ list) {p : α → Bool} (holds : p item = true) :
    list.countP p = list.countP (Function.update p item false) + 1 := by
  have absent : item ∉ list.erase item := fun again => (List.Nodup.mem_erase_iff nodup).1
    again |>.1 rfl
  have split := List.perm_cons_erase member
  rw [split.countP_eq p, split.countP_eq, List.countP_cons_of_pos holds,
    List.countP_cons_of_neg (by rw [Function.update_self]; exact Bool.false_ne_true),
    countP_update_of_not_mem absent]

/-- What a task is told to be is what it is. -/
theorem live_tell (account : Account) (address : String) (task : ℕ × ℕ) (status : JobStatus) :
    Account.live { account with
      task := Function.update account.task task (some (address, status)) } =
      Function.update account.live task (!status.isStopped) := by
  funext other
  unfold Account.live
  by_cases same : other = task
  · subst same
    dsimp only
    rw [Function.update_self, Function.update_self]
    rfl
  · dsimp only
    rw [Function.update_of_ne same, Function.update_of_ne same]

/-- **A counted dispatch** adds a task that is live. -/
theorem Account.Counted.dispatch (counted : account.Counted) (sound : account.Sound)
    (fresh : account.Fresh task) : (account.dispatch 1 address task).Counted := by
  intro other n tasks here
  show n = (tasks.countP account.live : ℤ)
  rcases map_update_some _ here with ⟨-, before⟩ | ⟨-, known, before, same⟩
  · exact counted other n tasks before
  · obtain ⟨rfl, rfl⟩ := Prod.mk.inj same
    have live : account.live task = true := by
      unfold Account.live
      rw [sound.unknown fresh]
      rfl
    rw [List.countP_append, List.countP_singleton, if_pos live, Int.natCast_add,
      ← counted address known.1 known.2 before]
    rfl

/-- A dispatch that is not counted makes the number wrong. -/
theorem Account.Counted.not_dispatch (counted : account.Counted) (sound : account.Sound)
    (fresh : account.Fresh task) {n : ℤ} {tasks : List (ℕ × ℕ)}
    (here : account.daemon address = some (n, tasks)) :
    ¬ (account.dispatch 0 address task).Counted := by
  intro still
  have live : account.live task = true := by
    unfold Account.live
    rw [sound.unknown fresh]
    rfl
  have after := still address (n + 0) (tasks ++ [task]) (by
    show Function.update account.daemon address _ address = _
    rw [Function.update_self, here]
    rfl)
  have after' : n + 0 = ((tasks ++ [task]).countP account.live : ℤ) := after
  rw [List.countP_append, List.countP_singleton, if_pos live,
    counted address n tasks here] at after'
  omega

/-- A definition finds the task live, and leaves it so. -/
theorem Account.Counted.define (counted : account.Counted) (unknown : account.task task = none) :
    (account.define address task).Counted := by
  have same : (account.define address task).live = account.live := by
    unfold Account.define
    rw [live_tell]
    have live : account.live task = true := by
      unfold Account.live
      rw [unknown]
      rfl
    rw [← Function.update_eq_self task account.live, Function.update_idem, live]
    rfl
  intro other n tasks here
  rw [same]
  exact counted other n tasks here

/-- **A report** takes a task off the number of its daemon when it is terminal. -/
theorem Account.Counted.report (counted : account.Counted) (sound : account.Sound)
    (known : account.task task = some (address, old)) (live : old.isStopped = false) :
    (account.report address task status).Counted := by
  have alive : account.live task = true := by
    unfold Account.live
    rw [known]
    show (!old.isStopped) = true
    rw [live]
    rfl
  have told : (account.report address task status).live =
      Function.update account.live task (!status.isStopped) := live_tell account address task status
  obtain ⟨m, sent, there, member⟩ := sound.known task address old known
  intro other n tasks here
  rw [told]
  cases stopped : status.isStopped with
  | false =>
    unfold Account.report at here
    rw [stopped, if_neg Bool.false_ne_true] at here
    have same : Function.update account.live task (!false) = account.live := by
      rw [← Function.update_eq_self task account.live, Function.update_idem, alive]
      rfl
    rw [same]
    exact counted other n tasks here
  | true =>
    unfold Account.report at here
    rw [stopped, if_pos rfl] at here
    rcases map_update_some _ here with ⟨apart, before⟩ | ⟨rfl, old', before, same⟩
    · have absent : task ∉ tasks := fun again =>
        apart (sound.apart other address n m tasks sent before there task again member)
      rw [countP_update_of_not_mem absent]
      exact counted other n tasks before
    · obtain ⟨rfl, rfl⟩ := Prod.mk.inj same
      obtain rfl := Option.some.inj (there.symm.trans before)
      have count := countP_update_false (sound.nodup other m sent there) member alive
      have before' := counted other m sent there
      show m - 1 = (sent.countP (Function.update account.live task false) : ℤ)
      omega

/-- The live tasks of a daemon. -/
def Account.unfinished (account : Account) (address : String) : ℕ :=
  ((account.daemon address).map fun known => known.2.countP account.live).getD 0

/-- **Forgetting a number** is right when there is nothing to count, and only then. -/
theorem Account.Counted.reset_iff (counted : account.Counted) :
    (account.reset address).Counted ↔ account.unfinished address = 0 := by
  unfold Account.unfinished
  cases there : account.daemon address with
  | none =>
    refine iff_of_true (fun other n tasks here => ?_) rfl
    rcases map_update_some (fun known => (0, known.2)) here with
      ⟨-, before⟩ | ⟨rfl, known, before, same⟩
    · exact counted other n tasks before
    · exact absurd (there.symm.trans before) (Option.some_ne_none known).symm
  | some known =>
    show _ ↔ known.2.countP account.live = 0
    constructor
    · intro still
      have after := still address 0 known.2 (by
        show Function.update account.daemon address _ address = _
        rw [Function.update_self, there]
        rfl)
      exact Int.natCast_eq_zero.1 after.symm
    · intro none other n tasks here
      show n = (tasks.countP account.live : ℤ)
      rcases map_update_some (fun known => (0, known.2)) here with
        ⟨-, before⟩ | ⟨rfl, old, before, same⟩
      · exact counted other n tasks before
      · obtain ⟨rfl, rfl⟩ := Prod.mk.inj same
        obtain rfl := Option.some.inj (there.symm.trans before)
        rw [none]
        rfl

end Counts

end Gebr.Maestro.Gebrm
