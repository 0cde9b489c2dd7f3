/-!
# Job locks

A run of a job holds the job's lock. Whoever finds the lock held does not wait for it but leaves the run out.
-/

namespace ContentVault

/-- The jobs that are run periodically. -/
inductive Job where
  | archive
  | notarize
  | orphans
deriving DecidableEq, Repr, Inhabited

/-- The name of a job. -/
def Job.name : Job → String
  | archive => "archive"
  | notarize => "notarize"
  | orphans => "orphans"

/-- A lock that a run of a job can hold. -/
structure RunLock where
  job : Job
  held : Bool := false
deriving DecidableEq, Repr, Inhabited

namespace RunLock

/-- Takes the lock, if it is free. -/
def acquire (l : RunLock) : Option RunLock := if l.held then none else some { l with held := true }

/-- Gives the lock back. -/
def release (l : RunLock) : RunLock := { l with held := false }

@[simp] theorem acquire_release (l : RunLock) : l.release.acquire = some { l with held := true } := rfl

theorem acquire_eq_none_iff {l : RunLock} : l.acquire = none ↔ l.held = true := by
  simp [acquire]

end RunLock

/-- The locks of the jobs, one each. -/
structure RunLocks where
  archive : RunLock := { job := .archive }
  notarize : RunLock := { job := .notarize }
  orphans : RunLock := { job := .orphans }
deriving DecidableEq, Repr, Inhabited

namespace RunLocks

/-- The lock of a job. -/
def get (l : RunLocks) : Job → RunLock
  | .archive => l.archive
  | .notarize => l.notarize
  | .orphans => l.orphans

/-- Replaces the lock of a job. -/
def set (l : RunLocks) (job : Job) (lock : RunLock) : RunLocks :=
  match job with
  | .archive => { l with archive := lock }
  | .notarize => { l with notarize := lock }
  | .orphans => { l with orphans := lock }

@[simp] theorem get_set_self (l : RunLocks) (job : Job) (lock : RunLock) : (l.set job lock).get job = lock := by
  cases job <;> rfl

theorem get_set_of_ne (l : RunLocks) {job other : Job} (lock : RunLock) (h : other ≠ job) :
    (l.set job lock).get other = l.get other := by
  cases job <;> cases other <;> first | rfl | exact absurd rfl h

end RunLocks

end ContentVault
