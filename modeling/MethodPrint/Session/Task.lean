import MethodPrint.Session.Basic

/-!
# Background tasks

A task answers one request from the snapshot that was active when it was started, whatever happens
to the session afterwards. A task that was cancelled before it is waited for has no other result.

`SPEC_FULL.md` 5; operations `spawn_fingerprint`, `spawn_resolve`, `cancel` and `wait`.
-/

namespace MethodPrint

/-- What a task is to do. -/
inductive Job where
  | fingerprint (method : MethodId)
  | resolve (source : String)
  deriving DecidableEq

/-- What a task delivers. -/
inductive Outcome where
  | report (report : Report)
  | resolution (resolution : Resolution)
  deriving DecidableEq

/-- Does a job on a snapshot. -/
def Job.run (settings : Settings) (evaluator : Evaluator) (snapshot : Snapshot) :
    Job → Except FingerprintError Outcome
  | .fingerprint method => (snapshot.report settings evaluator method false).map .report
  | .resolve source => (snapshot.index.resolveSource evaluator source).map .resolution

/-- A request that is being answered in the background. -/
structure Task where
  job : Job
  settings : Settings
  evaluator : Evaluator
  snapshot : Snapshot
  cancelled : Bool := false

namespace Task

/-- The generation that a task works on. -/
def generation (task : Task) : Nat := task.snapshot.generation

/-- The task after it has been asked to stop. -/
def cancel (task : Task) : Task := { task with cancelled := true }

/-- What waiting for a task gives. -/
def wait (task : Task) : Except FingerprintError Outcome :=
  if task.cancelled then .error .cancelled
  else task.job.run task.settings task.evaluator task.snapshot

/-- A cancelled task delivers nothing. -/
theorem wait_cancel (task : Task) : task.cancel.wait = .error .cancelled := rfl

end Task

/-- Starts a task on the active snapshot. -/
def Session.spawn (session : Session) (job : Job) : Except FingerprintError Task :=
  session.snapshot.map fun snapshot ↦
    { job, settings := session.settings, evaluator := session.evaluator, snapshot }

end MethodPrint
