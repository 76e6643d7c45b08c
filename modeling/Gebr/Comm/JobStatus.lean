/-
**The status of a job, shared by the daemon, the maestro and the interface.**

The daemon writes a status as text (`status_enum_to_string`, the same table as
`gebr_comm_job_get_string_from_status`), the maestro reads it back
(`gebrm_task_translate_status`, the same as `gebr_comm_job_get_status_from_string`).

* `translate_statusEnumToString`: what one writes the other reads.
-/

import Mathlib.Tactic.Common

namespace Gebr.Comm

/-- `GebrCommJobStatus`. -/
inductive JobStatus where
  | initial
  | queued
  | failed
  | running
  | finished
  | canceled
  | requeued
  | issued
  deriving DecidableEq, Repr

/-- `status_enum_to_string`. -/
def statusEnumToString : JobStatus → String
  | .initial => "unknown"
  | .queued => "queued"
  | .failed => "failed"
  | .running => "running"
  | .finished => "finished"
  | .canceled => "canceled"
  | .requeued => "requeued"
  | .issued => "issued"

/-- `gebrm_task_translate_status`: an unknown text reads as `INITIAL`. -/
def gebrmTaskTranslateStatus (status : String) : JobStatus :=
  if status = "unknown" then .initial
  else if status = "queued" then .queued
  else if status = "failed" then .failed
  else if status = "running" then .running
  else if status = "finished" then .finished
  else if status = "canceled" then .canceled
  else if status = "requeued" then .requeued
  else if status = "issued" then .issued
  else .initial

/-- **The maestro reads the status that the daemon wrote.** -/
theorem translate_statusEnumToString (status : JobStatus) :
    gebrmTaskTranslateStatus (statusEnumToString status) = status := by
  cases status <;> decide

/-- `FINISHED`, `FAILED` and `CANCELED`, as in `gebrm_job_is_stopped`. -/
def JobStatus.isStopped (status : JobStatus) : Bool :=
  status = .finished || status = .failed || status = .canceled

/-- `FAILED` and `CANCELED`. -/
def JobStatus.isBad (status : JobStatus) : Bool := status = .failed || status = .canceled

theorem JobStatus.isStopped_iff (status : JobStatus) :
    status.isStopped = true ↔ status = .finished ∨ status.isBad = true := by
  cases status <;> decide

theorem JobStatus.live_iff (status : JobStatus) :
    status.isStopped = false ↔ status ≠ .finished ∧ status.isBad = false := by
  cases status <;> decide

end Gebr.Comm
