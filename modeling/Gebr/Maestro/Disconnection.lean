/-
**A forced disconnection.**

A client confirms that a daemon is disconnected, or stopped. The handler of each request lists the
jobs of the daemon, kills those that can be killed, and goes on to the connection.

* `CancelsThere`: what the handler is to do: every live job with a task on the daemon is killed and
  reported before the connection ends, and no other job is touched.
* `confirmed_cancels_iff` — it does so just when **no live job has a task there**, since the list of
  jobs is always empty (`killJobs_eq`).
* `running_job_survives`: a running job goes on without its daemon.
-/

import Gebr.Lib.Run
import Gebr.Maestro.Gebrm

namespace Gebr.Maestro.Gebrm

open Gebr.Comm
open Gebr.Lib

section Property

/-- The job has a task on the daemon. -/
def Program.RunsOn (self : Program) (address : String) (id : ℕ) : Prop :=
  ∃ frac ∈ self.tasks id, ∃ known, self.task id frac = some known ∧ known.daemon = address

/-- A job that has been made, is not stopped, and has a task on the daemon. -/
def Program.Concerned (self : Program) (address : String) (id : ℕ) : Prop :=
  id < self.app.counter ∧ (self.app.jobs id).status.isStopped = false ∧ self.RunsOn address id

/-- A message that the job is canceled. -/
def saysCanceled (id client : ℕ) (entry : ℕ × App.Message) : Bool :=
  match entry with
  | (other, .sta job status _) => other = client && job = id && status = .canceled
  | _ => false

/-- **What a confirmed disconnection is to do** between the request and the end of the connection,
at `mid`, and on the whole. -/
structure CancelsThere (before mid after : Program) (address : String) : Prop where
  canceled : ∀ id, before.Concerned address id → (mid.app.jobs id).status = .canceled
  killed : ∀ id, before.Concerned address id → ∀ frac ∈ before.tasks id, ∀ known daemon,
    before.task id frac = some known → mid.daemon known.daemon = some daemon →
      Order.kil id ∈ daemon.orders
  reported : ∀ id, before.Concerned address id → ∀ client ∈ before.app.connections,
    (mid.app.sent.drop before.app.sent.length).countP (saysCanceled id client) = 1
  untouched : ∀ id, ¬ before.RunsOn address id → after.tasks id = before.tasks id ∧
    after.app.jobs id = before.app.jobs id

/-- The requests that end the connection of a daemon. -/
inductive Request where
  | disconnect
  | stop
  deriving DecidableEq, Repr

/-- The request, confirmed. -/
def Request.event (request : Request) (client : ℕ) (address : String) : Event :=
  match request with
  | .disconnect => .disconnect client address (some "yes")
  | .stop => .stop client address (some "yes")

/-- What the request does once the jobs have been killed. -/
def Request.finish (request : Request) (client : ℕ) (address : String) (self : Program) : Program :=
  match request with
  | .disconnect => gebrmDaemonDisconnect address self
  | .stop => self.reply client (.sst address .disconnected)

end Property

section Requests

variable {self next : Program} {isoDate : String} {failing : List ℕ} {client : ℕ} {address : String}
  {daemon : GebrmDaemon}

/-- **A confirmed request** kills the jobs of the daemon, and then ends its connection. -/
theorem step_confirmed (here : self.daemon address = some daemon) (request : Request) :
    step self ⟨request.event client address, isoDate, failing⟩ =
      some (request.finish client address (killJobs isoDate failing address daemon self)) := by
  cases request with
  | disconnect =>
    show some (onDisconnect isoDate failing client address (some "yes") self) = _
    unfold onDisconnect
    rw [here]
    dsimp only
    rw [if_neg (by rintro ⟨remove, -⟩; exact absurd remove (by decide)), if_pos (Or.inl rfl)]
    rfl
  | stop =>
    show some (onStop isoDate failing client address (some "yes") self) = _
    unfold onStop
    rw [here]
    dsimp only
    rw [if_pos (Or.inl rfl)]
    rfl

/-- Ending a connection is not the business of the jobs. -/
theorem finish_jobs (request : Request) (client : ℕ) (address : String) (self : Program) :
    (request.finish client address self).app = self.app ∧
      (request.finish client address self).tasks = self.tasks := by
  cases request with
  | disconnect =>
    show (gebrmDaemonDisconnect address self).app = _ ∧ (gebrmDaemonDisconnect address self).tasks = _
    unfold gebrmDaemonDisconnect
    dsimp only
    split_ifs <;> exact ⟨rfl, rfl⟩
  | stop => exact ⟨rfl, rfl⟩

/-- **A confirmed disconnection cancels the jobs of the daemon** if and only if no live job has a
task there. -/
theorem confirmed_cancels_iff (request : Request) (here : self.daemon address = some daemon)
    (taken : step self ⟨request.event client address, isoDate, failing⟩ = some next) :
    CancelsThere self (killJobs isoDate failing address daemon self) next address ↔
      ∀ id, ¬ self.Concerned address id := by
  rw [step_confirmed here request] at taken
  obtain rfl := Option.some.inj taken
  constructor
  · intro cancels id concerned
    have status := cancels.canceled id concerned
    rw [killJobs_eq] at status
    have live := concerned.2.1
    have status' : (self.app.jobs id).status = .canceled := status
    rw [status'] at live
    exact absurd live (by decide)
  · intro none
    obtain ⟨app, tasks⟩ := finish_jobs request client address
      (killJobs isoDate failing address daemon self)
    refine ⟨fun id concerned => absurd concerned (none id), fun id concerned =>
      absurd concerned (none id), fun id concerned => absurd concerned (none id), fun id _ => ?_⟩
    rw [app, tasks, killJobs_eq]
    exact ⟨rfl, rfl⟩

/-- A job that has finished on its node. -/
def finishedJob : List Input :=
  [⟨.run (.other "") true "", "t0", []⟩, ⟨.divideAndRun 0 ["node"], "t1", []⟩,
    ⟨.stateChanged "node" .logged, "t2", []⟩, ⟨.taskDef "node" 0 1 "" "true", "t3", []⟩,
    ⟨.status 0 1 .finished "", "t4", []⟩]

theorem confirmed_cancels_iff_finished :
    ∃ self next daemon, Run.run step (gebrmStart [0] ["node"]) finishedJob = some self ∧
      step self ⟨Request.disconnect.event 0 "node", "t5", []⟩ = some next ∧
      (CancelsThere self (killJobs "t5" [] "node" daemon self) next "node" ↔
        ∀ id, ¬ self.Concerned "node" id) :=
  ⟨_, _, _, rfl, rfl, confirmed_cancels_iff .disconnect rfl rfl⟩

/-- A job that runs on its node. -/
def runningJob : List Input :=
  [⟨.run (.other "") true "", "t0", []⟩, ⟨.divideAndRun 0 ["node"], "t1", []⟩,
    ⟨.stateChanged "node" .logged, "t2", []⟩, ⟨.taskDef "node" 0 1 "" "sleep", "t3", []⟩]

/-- **A running job goes on without its daemon**: it is neither killed nor reported. -/
theorem running_job_survives :
    ∃ self next daemon, Run.run step (gebrmStart [0] ["node"]) runningJob = some self ∧
      self.daemon "node" = some daemon ∧
      step self ⟨Request.disconnect.event 0 "node", "t4", []⟩ = some next ∧
      (next.app.jobs 0).status = .running ∧
      ¬ CancelsThere self (killJobs "t4" [] "node" daemon self) next "node" := by
  refine ⟨_, _, _, rfl, rfl, rfl, by decide +kernel, fun cancels => ?_⟩
  have canceled := cancels.canceled 0
    ⟨by decide +kernel, by decide +kernel, 1, by decide +kernel, _, rfl, rfl⟩
  exact absurd canceled (by decide +kernel)

end Requests

end Gebr.Maestro.Gebrm
