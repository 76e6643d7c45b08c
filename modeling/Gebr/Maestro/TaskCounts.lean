/-
**The daemons of the maestro count their tasks.**

* `Program.account`: the account of the maestro; `account_deliver`, `account_killJobs` and their
  siblings: what leaves it.
* `step_account`: what a step of the maestro does to its account.
* `run_counted_iff` — **the count is right at any time** just when no task is sent by the MPI path
  and no connection ends over unfinished tasks.
* `mpi_uncounted`: a task that was sent by the MPI path is taken off the number when it has
  finished.
-/

import Gebr.Lib.Run
import Gebr.Maestro.Gebrm
import Gebr.Maestro.TaskAccount

namespace Gebr.Maestro.Gebrm

open Gebr.Comm
open Gebr.Lib

section Connection

/-- The task that an order runs. -/
def Order.task? : Order → Option (ℕ × ℕ)
  | .run id frac => some (id, frac)
  | .kil _ => none
  | .clr _ => none
  | .harakiri => none

/-- All the tasks that a daemon was sent. -/
def GebrmDaemon.runs (daemon : GebrmDaemon) : List (ℕ × ℕ) := daemon.orders.filterMap Order.task?

/-- **The account of the maestro.** -/
def Program.account (self : Program) : Account where
  task task := (self.task task.1 task.2).map fun known => (known.daemon, known.task.status)
  daemon address := (self.daemon address).map fun daemon => (daemon.uncompletedTasks, daemon.runs)
  ran := self.ran

variable {self next : Program} {isoDate : String} {failing : List ℕ}

/-- What a change of a daemon does to its number and its tasks, it does to the account. -/
theorem account_modifyDaemon (address : String) {change : GebrmDaemon → GebrmDaemon}
    {view : ℤ × List (ℕ × ℕ) → ℤ × List (ℕ × ℕ)}
    (follows : ∀ daemon, ((change daemon).uncompletedTasks, (change daemon).runs) =
      view (daemon.uncompletedTasks, daemon.runs)) (self : Program) :
    (self.modifyDaemon address change).account =
      { self.account with
        daemon := Function.update self.account.daemon address
          ((self.account.daemon address).map view) } := by
  apply Account.ext
  · rfl
  · funext other
    show (Function.update self.daemon address _ other).map _ =
      Function.update self.account.daemon address _ other
    by_cases same : other = address
    · subst same
      rw [Function.update_self, Function.update_self, Program.account, Option.map_map,
        Option.map_map]
      congr 1
      funext daemon
      exact follows daemon
    · rw [Function.update_of_ne same, Function.update_of_ne same]
      rfl
  · rfl

/-- The other fields of a daemon are not in the account. -/
theorem account_modifyDaemon_same (address : String) {change : GebrmDaemon → GebrmDaemon}
    (same : ∀ daemon, ((change daemon).uncompletedTasks, (change daemon).runs) =
      (daemon.uncompletedTasks, daemon.runs)) (self : Program) :
    (self.modifyDaemon address change).account = self.account := by
  rw [@account_modifyDaemon address change id same, Option.map_id]
  show { self.account with
    daemon := Function.update self.account.daemon address (self.account.daemon address) } = _
  rw [Function.update_eq_self]

theorem account_send (address : String) {order : Order} (quiet : order.task? = none)
    (self : Program) : (self.send address order).account = self.account := by
  refine account_modifyDaemon_same address (fun daemon => ?_) self
  show (_, (daemon.orders ++ [order]).filterMap Order.task?) = _
  rw [List.filterMap_append, List.filterMap_cons_none quiet, List.filterMap_nil, List.append_nil]
  rfl

theorem account_send_run (address : String) (id frac : ℕ) (self : Program) :
    (self.send address (.run id frac)).account = self.account.dispatch 0 address (id, frac) := by
  refine account_modifyDaemon address (fun daemon => ?_) self
  show (_, (daemon.orders ++ [Order.run id frac]).filterMap Order.task?) = (_ + 0, _)
  rw [List.filterMap_append, Int.add_zero]
  rfl

theorem account_addTask (address : String) (id frac : ℕ) (self : Program) :
    ((gebrmDaemonIfaceAddTask address self).send address (.run id frac)).account =
      self.account.dispatch 1 address (id, frac) := by
  have counted := @account_modifyDaemon address
    (fun daemon => { daemon with uncompletedTasks := daemon.uncompletedTasks + 1 })
    (fun known => (known.1 + 1, known.2)) (fun _ => rfl) self
  rw [account_send_run, gebrmDaemonIfaceAddTask, counted]
  apply Account.ext
  · rfl
  · show Function.update (Function.update self.account.daemon address _) address
      (Option.map _ (Function.update self.account.daemon address _ address)) =
      Function.update self.account.daemon address _
    rw [Function.update_idem, Function.update_self, Option.map_map]
    congr 2
    funext known
    show (known.1 + 1 + 0, _) = _
    rw [Int.add_zero]
  · rfl

/-- What each turn of a loop leaves, the loop leaves. -/
theorem account_foldl {α : Type} {turn : Program → α → Program}
    (keep : ∀ self item, (turn self item).account = self.account) (list : List α) (self : Program) :
    (list.foldl turn self).account = self.account := by
  induction list generalizing self with
  | nil => rfl
  | cons item list ih => rw [List.foldl_cons, ih, keep]

theorem account_taskKill (id frac : ℕ) (self : Program) :
    (gebrmTaskKill id frac self).account = self.account := by
  unfold gebrmTaskKill
  cases self.task id frac with
  | none => rfl
  | some known => exact account_send known.daemon rfl self

theorem account_jobKillTasks (id : ℕ) (self : Program) :
    (gebrmJobKillTasks id self).account = self.account :=
  account_foldl (fun self frac => account_taskKill id frac self) _ self

theorem account_jobKill (id : ℕ) (self : Program) :
    (gebrmJobKill id self).account = self.account := by
  unfold gebrmJobKill
  split_ifs
  · exact account_jobKillTasks id self
  · rfl

/-- **The signals of a job leave the account.** -/
theorem account_deliver (id : ℕ) (emission : Emission) (self : Program) :
    (deliver isoDate failing id self emission).account = self.account := by
  cases emission with
  | kil frac => exact account_taskKill id frac self
  | statusChange old new parameter =>
    show (if new = .failed then gebrmJobKillTasks id self else self).account = _
    split_ifs
    · exact account_jobKillTasks id self
    · rfl
  | issued parameter => rfl
  | cmdLineReceived frac cmdLine => rfl
  | output frac output => rfl
  | disconnect => rfl

theorem account_settle (id : ℕ) (job : GebrmJob) (self : Program) :
    (settle isoDate failing id job self).account = self.account :=
  account_foldl (fun self emission => account_deliver id emission self) _ _

/-- The account knows a task by its daemon and its status. -/
theorem account_setTask (id frac : ℕ) (told : DaemonTask) (self : Program) :
    Program.account { self with
      task := Function.update self.task id (Function.update (self.task id) frac (some told)) } =
      { self.account with
        task := Function.update self.account.task (id, frac) (some (told.daemon, told.task.status))
            } := by
  apply Account.ext
  · funext task
    show (Function.update self.task id _ task.1 task.2).map _ =
      Function.update self.account.task (id, frac) _ task
    by_cases same : task = (id, frac)
    · subst same
      rw [Function.update_self, Function.update_self, Function.update_self]
      rfl
    · rw [Function.update_of_ne same]
      by_cases job : task.1 = id
      · have part : task.2 ≠ frac := fun part => same (Prod.ext job part)
        rw [job, Function.update_self, Function.update_of_ne part, ← job]
        rfl
      · rw [Function.update_of_ne job]
        rfl
  · rfl
  · rfl

/-- A task that is closed keeps its daemon and its status. -/
theorem account_taskClose (id frac : ℕ) (self : Program) :
    (gebrmTaskClose id frac self).account = self.account := by
  unfold gebrmTaskClose
  cases here : self.task id frac with
  | none => rfl
  | some known =>
    have closed : ∀ mid : Program, mid.account = self.account → Program.account { mid with
        task := Function.update mid.task id
          (Function.update (mid.task id) frac (some { known with mapped := false })) } =
        self.account := by
      intro mid same
      have told : self.account.task (id, frac) = some (known.daemon, known.task.status) := by
        show (self.task id frac).map _ = _
        rw [here]
        rfl
      rw [account_setTask, same]
      show { self.account with
        task := Function.update self.account.task (id, frac)
          (some (known.daemon, known.task.status)) } = _
      rw [← told, Function.update_eq_self]
    dsimp only
    split_ifs
    · exact closed (self.send known.daemon (.clr id)) (account_send known.daemon rfl self)
    · exact closed self rfl

theorem account_closeRequest (id : App.Key) (self : Program) :
    (onCloseRequest id self).account = self.account := by
  unfold onCloseRequest gebrmJobClose
  split
  · rfl
  · rename_i job _
    show (if gebrmJobCanClose self job = false then (false, self) else _).2.account = _
    split_ifs
    · rfl
    · exact account_foldl (fun self frac => account_taskClose job frac self) _ self

theorem account_killRequest (id : App.Key) (self : Program) :
    (onKillRequest isoDate failing id self).account = self.account := by
  unfold onKillRequest
  split
  · rfl
  · split_ifs
    · rfl
    · exact account_jobKill _ self

theorem account_killJobs (address : String) (daemon : GebrmDaemon) (self : Program) :
    (killJobs isoDate failing address daemon self).account = self.account := by
  have setting : ∀ (setting : Bool) (mid : Program),
      (gebrmDaemonSetDisconnecting address setting mid).account = mid.account := by
    intro setting mid
    refine account_modifyDaemon_same address (fun daemon => ?_) mid
    rfl
  unfold killJobs
  refine (setting false _).trans ((account_foldl (fun mid id => ?_) _ _).trans (setting true self))
  split
  · rfl
  · split_ifs
    · exact account_jobKill _ mid
    · rfl

theorem account_stateChanged (address : String) (state : GebrCommServerState) (self : Program) :
    (gebrmServerOpStateChanged address state self).account =
      if state = .disconnected then self.account.reset address else self.account := by
  unfold gebrmServerOpStateChanged
  by_cases ended : state = .disconnected
  · simp only [ended, if_true]
    exact account_modifyDaemon address (fun _ => rfl) self
  · simp only [ended, if_false]
    refine account_modifyDaemon_same address (fun daemon => ?_) self
    rfl

theorem account_daemonDisconnect (address : String) (self : Program) :
    (gebrmDaemonDisconnect address self).account =
      if (self.daemon address).any (fun daemon => daemon.state ≠ .disconnected) = true then
        self.account.reset address
      else self.account := by
  have state : ((self.send address .harakiri).daemon address).any
      (fun daemon => daemon.state ≠ .disconnected) =
      (self.daemon address).any fun daemon => daemon.state ≠ .disconnected := by
    show (Function.update self.daemon address _ address).any _ = _
    rw [Function.update_self, Option.any_map]
  unfold gebrmDaemonDisconnect
  dsimp only
  rw [state]
  split_ifs
  · rw [account_stateChanged, if_pos rfl, account_send address rfl]
  · exact account_send address rfl self

/-- A daemon that is about to be disconnected still has its state. -/
theorem state_killJobs (address : String) (daemon : GebrmDaemon) (self : Program) :
    ((killJobs isoDate failing address daemon self).daemon address).any
        (fun daemon => daemon.state ≠ .disconnected) =
      (self.daemon address).any fun daemon => daemon.state ≠ .disconnected := by
  rw [killJobs_eq]
  show (Function.update (Function.update self.daemon address _) address
    (Option.map _ (Function.update self.daemon address _ address)) address).any _ = _
  rw [Function.update_self, Function.update_self, Option.any_map, Option.any_map]

/-- **A definition**: the task is known of the daemon that defines it. -/
theorem account_taskDef (address : String) (id frac : ℕ) (issues cmdLine : String) (self : Program) :
    (onTaskDef isoDate failing address id frac issues cmdLine self).account =
      self.account.define address (id, frac) := by
  have defined : (taskNew address id frac ⟨.running, issues, cmdLine, "", none, ""⟩ self).account =
      self.account.define address (id, frac) := by
    refine Eq.trans (account_modifyDaemon_same address (fun daemon => ?_) _)
      (account_setTask id frac _ self)
    rfl
  unfold onTaskDef
  dsimp only
  split
  · exact defined
  · exact (account_settle _ _ _).trans defined

/-- **A report** of a task that is known. -/
theorem account_status (id frac : ℕ) (known : DaemonTask) (newStatus : JobStatus) (parameter : String)
    (self : Program) :
    (emitStatusChanged isoDate failing id frac known newStatus parameter self).account =
      self.account.report known.daemon (id, frac) newStatus := by
  let told : DaemonTask := { known with task := taskSetStatus newStatus isoDate known.task }
  let heard : Program :=
    { self with task :=
      Function.update self.task id (Function.update (self.task id) frac (some told)) }
  have status : heard.account = { self.account with
      task := Function.update self.account.task (id, frac) (some (known.daemon, newStatus)) } := by
    rw [account_setTask, taskSetStatus_status]
  have counted : (gebrmDaemonOnTaskStatusChange known.daemon newStatus heard).account =
      self.account.report known.daemon (id, frac) newStatus := by
    unfold gebrmDaemonOnTaskStatusChange Account.report
    split_ifs
    · rw [@account_modifyDaemon known.daemon _ (fun known => (known.1 - 1, known.2)) (fun _ => rfl)
        heard, status]
    · exact status
  unfold emitStatusChanged
  dsimp only
  split_ifs
  · exact (account_settle _ _ _).trans counted
  · exact counted

theorem sent_hasRun {address : String} {id frac : ℕ} (sent : self.hasRun address id frac = true) :
    ∃ n tasks, self.account.daemon address = some (n, tasks) ∧ (id, frac) ∈ tasks := by
  obtain ⟨daemon, here, member⟩ := (Option.any_eq_true _ _).1 sent
  refine ⟨daemon.uncompletedTasks, daemon.runs, ?_, ?_⟩
  · show (self.daemon address).map _ = _
    rw [here]
    rfl
  · exact List.mem_filterMap.2 ⟨_, of_decide_eq_true member, rfl⟩

/-- All the tasks of a job are counted and sent, from a fraction on. -/
def Account.dispatchAll (id : ℕ) : ℕ → List String → Account → Account
  | _, [], account => account
  | frac, server :: servers, account =>
    dispatchAll id (frac + 1) servers (account.dispatch 1 server (id, frac))

theorem account_runFlows (id : ℕ) (servers : List String) (frac : ℕ) (self : Program) :
    (runFlows id frac servers self).account = self.account.dispatchAll id frac servers := by
  induction servers generalizing frac self with
  | nil => rfl
  | cons server servers ih =>
    rw [runFlows, ih, account_addTask]
    rfl

theorem Account.Fresh.dispatch {account : Account} {task other : ℕ × ℕ} (fresh : account.Fresh task)
    (apart : task ≠ other) (count : ℤ) (address : String) :
    (account.dispatch count address other).Fresh task := by
  intro at' n tasks here member
  rcases map_update_some _ here with ⟨-, before⟩ | ⟨-, old, before, same⟩
  · exact fresh at' n tasks before member
  · obtain ⟨rfl, rfl⟩ := Prod.mk.inj same
    rcases List.mem_append.1 member with earlier | new
    · exact fresh address old.1 old.2 before earlier
    · exact apart (List.mem_singleton.1 new)

/-- **The loop over the servers** keeps the account sound and counted. -/
theorem Account.Counted.dispatchAll {id : ℕ} {servers : List String} {frac : ℕ} {account : Account}
    (sound : account.Sound) (counted : account.Counted) (ran : id ∈ account.ran)
    (fresh : ∀ other, frac ≤ other → account.Fresh (id, other)) :
    (account.dispatchAll id frac servers).Sound ∧ (account.dispatchAll id frac servers).Counted := by
  induction servers generalizing frac account with
  | nil => exact ⟨sound, counted⟩
  | cons server servers ih =>
    refine ih (sound.dispatch (fresh frac (Nat.le_refl _)) ran)
      (counted.dispatch sound (fresh frac (Nat.le_refl _))) ran fun other later => ?_
    refine (fresh other (Nat.le_of_succ_le later)).dispatch (fun same => ?_) 1 server
    obtain rfl := (Prod.mk.inj same).2
    exact Nat.lt_irrefl _ later

/-- A job that has not run has sent no task. -/
theorem Account.Sound.fresh {account : Account} (sound : account.Sound) {id : ℕ}
    (waits : id ∉ account.ran) (frac : ℕ) : account.Fresh (id, frac) :=
  fun address n tasks here member => waits (sound.ran address n tasks here (id, frac) member)

end Connection

section Step

variable {self next : Program} {input : Input}

/-- The tasks that a daemon was sent and that have not reached a terminal status. -/
def Program.unfinished (self : Program) (address : String) : List (ℕ × ℕ) :=
  (((self.daemon address).map GebrmDaemon.runs).getD []).filter fun task =>
    !(self.statusOf task.1 task.2).isStopped

/-- **Each daemon counts its unfinished tasks**, and never less than none. -/
def Program.CountsTasks (self : Program) : Prop :=
  ∀ address daemon, self.daemon address = some daemon →
    daemon.uncompletedTasks = (self.unfinished address).length ∧ 0 ≤ daemon.uncompletedTasks

/-- The event makes a daemon forget its number: its connection ends, or a client ends it. -/
def Program.Forgets (self : Program) (address : String) : Event → Prop
  | .stateChanged other state => other = address ∧ state = .disconnected
  | .disconnect _ other confirm => other = address ∧
      ∃ daemon ∈ self.daemon address, daemon.state ≠ .disconnected ∧
        (confirm = some "yes" ∨ confirm ≠ some "remove" ∧ daemon.uncompletedTasks ≤ 0)
  | _ => False

/-- **No task goes the MPI path, and no number is forgotten over unfinished tasks.** -/
def Counting (self : Program) (input : Input) : Prop :=
  (∀ id server, input.event ≠ .mpiRun id server) ∧
    ∀ address, self.Forgets address input.event → self.unfinished address = []

theorem live_account (self : Program) (task : ℕ × ℕ) :
    self.account.live task = !(self.statusOf task.1 task.2).isStopped := by
  unfold Account.live Program.statusOf
  show (((self.task task.1 task.2).map _).map _).getD true = _
  cases self.task task.1 task.2 <;> rfl

theorem unfinished_account (self : Program) (address : String) :
    self.account.unfinished address = (self.unfinished address).length := by
  unfold Account.unfinished Program.unfinished
  show (((self.daemon address).map _).map _).getD 0 = _
  cases self.daemon address with
  | none => rfl
  | some daemon =>
    show daemon.runs.countP self.account.live = (daemon.runs.filter _).length
    rw [← List.countP_eq_length_filter]
    exact List.countP_congr fun task _ => by rw [live_account]

/-- What the maestro counts is what its account counts. -/
theorem countsTasks_iff (self : Program) : self.CountsTasks ↔ self.account.Counted := by
  have unfinished : ∀ address daemon, self.daemon address = some daemon →
      (self.unfinished address).length = daemon.runs.countP self.account.live := by
    intro address daemon here
    rw [← unfinished_account]
    show (((self.daemon address).map _).map _).getD 0 = _
    rw [here]
    rfl
  constructor
  · intro counts address n tasks here
    obtain ⟨daemon, there, same⟩ := Option.map_eq_some_iff.1 here
    obtain ⟨rfl, rfl⟩ := Prod.mk.inj same
    rw [← unfinished address daemon there]
    exact (counts address daemon there).1
  · intro counted address daemon here
    have count : daemon.uncompletedTasks = (daemon.runs.countP self.account.live : ℤ) := by
      refine counted address daemon.uncompletedTasks daemon.runs ?_
      show (self.daemon address).map _ = _
      rw [here]
      rfl
    rw [unfinished address daemon here]
    exact ⟨count, by omega⟩

/-- What the events that are not about the account leave is right when it was. -/
theorem step_same (sound : self.account.Sound) (counted : self.account.Counted)
    (same : next.account = self.account) (apart : ∀ id server, input.event ≠ .mpiRun id server)
    (kept : ∀ address, ¬ self.Forgets address input.event) :
    next.account.Sound ∧ (next.account.Counted ↔ Counting self input) := by
  rw [same]
  exact ⟨sound, iff_of_true counted ⟨apart, fun address forgets => absurd forgets (kept address)⟩⟩

theorem step_reset (sound : self.account.Sound) (counted : self.account.Counted) {address : String}
    (same : next.account = self.account.reset address)
    (apart : ∀ id server, input.event ≠ .mpiRun id server)
    (forgets : ∀ other, self.Forgets other input.event ↔ other = address) :
    next.account.Sound ∧ (next.account.Counted ↔ Counting self input) := by
  rw [same]
  refine ⟨sound.renumber fun _ => 0, counted.reset_iff.trans ?_⟩
  rw [unfinished_account, List.length_eq_zero_iff]
  constructor
  · rintro none
    refine ⟨apart, fun other gone => ?_⟩
    rw [(forgets other).1 gone]
    exact none
  · exact fun counting => counting.2 address ((forgets address).2 rfl)

/-- **One step**: the account stays sound, and the numbers stay right just when the step counts. -/
theorem step_account (sound : self.account.Sound) (counted : self.account.Counted)
    (taken : step self input = some next) :
    next.account.Sound ∧ (next.account.Counted ↔ Counting self input) := by
  obtain ⟨event, isoDate, failing⟩ := input
  cases event with
  | run parentId servers mpiIssueMessage =>
    obtain rfl := Option.some.inj taken
    exact step_same sound counted rfl (by rintro _ _ ⟨⟩) fun _ => id
  | close key =>
    obtain rfl := Option.some.inj taken
    exact step_same sound counted (account_closeRequest key self) (by rintro _ _ ⟨⟩) fun _ => id
  | kill key =>
    obtain rfl := Option.some.inj taken
    exact step_same sound counted (account_killRequest key self) (by rintro _ _ ⟨⟩) fun _ => id
  | disconnect client address confirm =>
    obtain rfl := Option.some.inj taken
    show (onDisconnect isoDate failing client address confirm self).account.Sound ∧ _
    cases here : self.daemon address with
    | none =>
      refine step_same sound counted ?_ (by rintro _ _ ⟨⟩) ?_
      · unfold onDisconnect
        rw [here]
      · rintro other ⟨rfl, daemon, there, -⟩
        rw [here] at there
        cases there
    | some daemon =>
      have knows : ∀ other ∈ self.daemon address, other = daemon := by
        intro other there
        exact Option.some.inj (there.symm.trans here)
      by_cases asks : confirm = some "remove" ∧ daemon.uncompletedTasks ≤ 0
      · refine step_same sound counted ?_ (by rintro _ _ ⟨⟩) ?_
        · unfold onDisconnect
          rw [here]
          dsimp only
          rw [if_pos asks]
          rfl
        · rintro other ⟨rfl, daemon', there, -, yes | ⟨remove, -⟩⟩
          · exact absurd (yes.symm.trans asks.1) (by decide)
          · exact remove asks.1
      · by_cases ends : confirm = some "yes" ∨ daemon.uncompletedTasks ≤ 0
        · have moved : (onDisconnect isoDate failing client address confirm self).account =
              if daemon.state ≠ .disconnected then self.account.reset address else self.account := by
            unfold onDisconnect
            rw [here]
            dsimp only
            rw [if_neg asks, if_pos ends, account_daemonDisconnect, account_killJobs, state_killJobs,
              here]
            simp only [Option.any_some, decide_eq_true_eq]
          have ended : confirm = some "yes" ∨ confirm ≠ some "remove" ∧ daemon.uncompletedTasks ≤ 0 :=
            ends.imp_right fun none => ⟨fun remove => asks ⟨remove, none⟩, none⟩
          by_cases state : daemon.state ≠ .disconnected
          · rw [if_pos state] at moved
            refine step_reset sound counted moved (by rintro _ _ ⟨⟩) fun other => ?_
            refine ⟨fun forgets => forgets.1.symm, ?_⟩
            rintro rfl
            exact ⟨rfl, daemon, here, state, ended⟩
          · rw [if_neg state] at moved
            refine step_same sound counted moved (by rintro _ _ ⟨⟩) ?_
            rintro other ⟨rfl, daemon', there, live, -⟩
            exact state (knows daemon' there ▸ live)
        · refine step_same sound counted ?_ (by rintro _ _ ⟨⟩) ?_
          · unfold onDisconnect
            rw [here]
            dsimp only
            rw [if_neg asks, if_neg ends]
            split_ifs <;> rfl
          · rintro other ⟨rfl, daemon', there, -, ended⟩
            rw [knows daemon' there] at ended
            exact ends (ended.imp_right And.right)
  | stop client address confirm =>
    obtain rfl := Option.some.inj taken
    refine step_same sound counted ?_ (by rintro _ _ ⟨⟩) fun _ => id
    show (onStop isoDate failing client address confirm self).account = _
    unfold onStop
    split
    · rfl
    · split_ifs
      · exact account_killJobs address _ self
      · rfl
  | divideAndRun id servers =>
    simp only [step] at taken
    split at taken
    · rename_i ready
      obtain ⟨app, -, rfl⟩ := Option.map_eq_some_iff.1 taken
      have begun := sound.begin id
      have dispatched := @Account.Counted.dispatchAll id servers 1 _ begun counted List.mem_cons_self
        fun other _ => sound.fresh ready.2.1 other
      have same : Program.account { divideAndRunFlows id servers self with app := app } =
          (self.account.begin id).dispatchAll id 1 servers := account_runFlows id servers 1 _
      rw [same]
      exact ⟨dispatched.1, iff_of_true dispatched.2 ⟨by rintro _ _ ⟨⟩, fun _ => False.elim⟩⟩
    · cases taken
  | mpiRun id server =>
    simp only [step] at taken
    split at taken
    · rename_i ready
      obtain rfl := Option.some.inj taken
      obtain ⟨daemon, here⟩ := Option.isSome_iff_exists.1 ready.2.2
      have fresh := sound.fresh ready.2.1 1
      have same : (mpiRunFlow id server self).account =
          (self.account.begin id).dispatch 0 server (id, 1) := account_send_run server id 1 _
      rw [same]
      refine ⟨(sound.begin id).dispatch fresh List.mem_cons_self, iff_of_false ?_ fun counting => ?_⟩
      · refine @Account.Counted.not_dispatch _ server _ counted (sound.begin id) fresh
          daemon.uncompletedTasks daemon.runs ?_
        show (self.daemon server).map _ = _
        rw [here]
        rfl
      · exact counting.1 id server rfl
    · cases taken
  | callRanFunc id =>
    simp only [step] at taken
    split at taken
    · obtain ⟨app, -, rfl⟩ := Option.map_eq_some_iff.1 taken
      exact step_same sound counted rfl (by rintro _ _ ⟨⟩) fun _ => False.elim
    · cases taken
  | taskDef address id frac issues cmdLine =>
    simp only [step] at taken
    split at taken
    · rename_i ready
      obtain rfl := Option.some.inj taken
      obtain ⟨n, tasks, sent, member⟩ := sent_hasRun ready.1
      have unknown : self.account.task (id, frac) = none := by
        show (self.task id frac).map _ = none
        rw [ready.2]
        rfl
      have same := @account_taskDef isoDate failing address id frac issues cmdLine self
      refine ⟨same ▸ sound.tell sent member .running, iff_of_true (same ▸ counted.define unknown) ?_⟩
      exact ⟨by rintro _ _ ⟨⟩, fun _ => False.elim⟩
    · cases taken
  | status id frac newStatus parameter =>
    simp only [step] at taken
    split at taken
    · cases taken
    · rename_i known here
      split at taken
      · rename_i ready
        obtain rfl := Option.some.inj taken
        have told : self.account.task (id, frac) = some (known.daemon, known.task.status) := by
          show (self.task id frac).map _ = _
          rw [here]
          rfl
        have same := @account_status isoDate failing id frac known newStatus parameter self
        refine ⟨same ▸ sound.report told newStatus,
          iff_of_true (same ▸ counted.report sound told ready.2) ?_⟩
        exact ⟨by rintro _ _ ⟨⟩, fun _ => False.elim⟩
      · cases taken
  | stateChanged address state =>
    simp only [step] at taken
    split at taken
    · obtain rfl := Option.some.inj taken
      have moved := account_stateChanged address state self
      by_cases ended : state = .disconnected
      · rw [if_pos ended] at moved
        refine step_reset sound counted moved (by rintro _ _ ⟨⟩) fun other => ?_
        exact ⟨fun forgets => forgets.1.symm, fun same => ⟨same.symm, ended⟩⟩
      · rw [if_neg ended] at moved
        exact step_same sound counted moved (by rintro _ _ ⟨⟩) fun _ forgets => ended forgets.2
    · cases taken

/-- The numbers of a maestro that has just been started. -/
theorem account_start (connections : List ℕ) (daemons : List String) :
    (gebrmStart connections daemons).account.Sound ∧
      (gebrmStart connections daemons).account.Counted := by
  have nothing : ∀ address n tasks,
      (gebrmStart connections daemons).account.daemon address = some (n, tasks) →
        n = 0 ∧ tasks = [] := by
    intro address n tasks here
    obtain ⟨daemon, there, same⟩ := Option.map_eq_some_iff.1 here
    have there' : (if address ∈ daemons then some gebrmDaemonNew else none) = some daemon := there
    split at there'
    · obtain rfl := Option.some.inj there'
      obtain ⟨rfl, rfl⟩ := Prod.mk.inj same
      exact ⟨rfl, rfl⟩
    · cases there'
  refine ⟨⟨fun address n tasks here task member => ?_, fun address n tasks here => ?_,
    fun one two m n tasks others here _ task member => ?_, fun task address status here => ?_⟩,
    fun address n tasks here => ?_⟩
  · rw [(nothing address n tasks here).2] at member
    exact absurd member List.not_mem_nil
  · rw [(nothing address n tasks here).2]
    exact List.nodup_nil
  · rw [(nothing one m tasks here).2] at member
    exact absurd member List.not_mem_nil
  · exact absurd here (Option.some_ne_none _).symm
  · obtain ⟨rfl, rfl⟩ := nothing address n tasks here
    rfl

/-- **The daemons count their unfinished tasks throughout a run** if and only if no task goes the
MPI path in it, and no number is forgotten over unfinished tasks. -/
theorem run_counted_iff (connections : List ℕ) (daemons : List String) (inputs : List Input) :
    (∀ self input next,
      (self, input, next) ∈ Run.trace step (gebrmStart connections daemons) inputs →
        next.CountsTasks) ↔
    ∀ self input next,
      (self, input, next) ∈ Run.trace step (gebrmStart connections daemons) inputs →
        Counting self input := by
  have start := account_start connections daemons
  let right : Program → Prop := fun self => self.account.Sound ∧ self.account.Counted
  constructor
  · have keep : ∀ self input next, right self → step self input = some next → next.CountsTasks →
        right next ∧ Counting self input := by
      intro self input next good taken counts
      have after := step_account good.1 good.2 taken
      have counted := (countsTasks_iff next).1 counts
      exact ⟨⟨after.1, counted⟩, after.2.1 counted⟩
    exact Run.trace_carries keep start
  · have keep : ∀ self input next, right self → step self input = some next → Counting self input →
        right next ∧ next.CountsTasks := by
      intro self input next good taken counting
      have after := step_account good.1 good.2 taken
      have counted := after.2.2 counting
      exact ⟨⟨after.1, counted⟩, (countsTasks_iff next).2 counted⟩
    exact Run.trace_carries keep start

/-- A job goes the MPI path; its task is defined, runs, and finishes. -/
def mpiJob : List Input :=
  [⟨.run (.other "") true "", "t0", []⟩, ⟨.mpiRun 0 "node", "t1", []⟩, ⟨.callRanFunc 0, "t2", []⟩,
    ⟨.taskDef "node" 0 1 "" "mpirun", "t3", []⟩, ⟨.status 0 1 .running "", "t4", []⟩,
    ⟨.status 0 1 .finished "", "t5", []⟩]

/-- **A task that was never counted is taken off**: the number of its daemon becomes negative. -/
theorem mpi_uncounted :
    ∃ final, Run.run step (gebrmStart [0] ["node"]) mpiJob = some final ∧
      (final.daemon "node").map GebrmDaemon.uncompletedTasks = some (-1) ∧ ¬ final.CountsTasks := by
  refine ⟨_, rfl, by decide +kernel, fun counts => ?_⟩
  have below := (counts "node" _ rfl).2
  exact absurd below (by decide +kernel)

end Step

end Gebr.Maestro.Gebrm
