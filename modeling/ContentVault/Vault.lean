import ContentVault.Archiver.Restoring
import ContentVault.Origin.Shelf
import ContentVault.Schedule.Basic
import ContentVault.Store.Medium

/-!
# A vault in memory

A `Vault` is all the parts of a vault together, with a clock of its own: the blobs and the records, the repository that
content comes from, the notarizers, and the workers, each a caretaker with its own guard and locks. The worker that
was taken on last is the one that is asked to do something; a schedule keeps the worker it was started with. Time passes
only when the vault is told to wait, or when something is waited for.
-/

namespace ContentVault

/-- A caretaker with what belongs to it alone. -/
structure Worker where
  caretaker : Caretaker
  /-- How much room there is where it keeps blobs, if there is a limit. -/
  room : Option Nat
  guard : RepeatGuard
  locks : RunLocks := {}
  /-- The number of its notarizer. -/
  notary : Nat

/-- A whole vault. -/
structure Vault where
  blobs : BlobStore := .empty
  records : RecordStore := .empty
  origin : Shelf := {}
  notaries : List StandInNotary := [{ delayMillis := 0 }]
  /-- The archiver for what is asked for directly, and the room for its blobs. -/
  archiver : Option (Archiver × Option Nat) := none
  workers : List Worker := []
  /-- The schedule, if one is running, and the number of its worker. -/
  schedule : Option (Schedule × Nat) := none
  now : Instant := 0
  /-- How many times something random was drawn. -/
  drawn : Nat := 0

namespace Vault

/-! ## Blobs and content -/

/-- Stores a stream. -/
def put (v : Vault) (time : Timestamp) (stream : Source) (length : Option UInt64) : Attempt String × Vault :=
  let (result, blobs) := v.blobs.put (.ofNat v.drawn) time stream length
  (result, { v with blobs, drawn := v.drawn + 1 })

/-- Archives content. -/
def archive (v : Vault) (draws : Draws) (content : OfferedContent) (o : ArchiveChoices) :
    Option (Attempt ArchiveReceipt) × Vault :=
  match v.archiver with
  | none => (none, v)
  | some (p, room) =>
    let (result, stores) := p.archive draws content o (Stores.mk (Medium.mk v.blobs room) v.records)
    (some result, { v with blobs := stores.blobs.store, records := stores.records, drawn := v.drawn + 1 })

/-- Restores content: the receipt, and what the sink received. -/
def restore (v : Vault) (id : String) (sink : Sink) (verify : Bool) :
    Option (Attempt RestoreReceipt × Bytes) × Vault :=
  match v.archiver with
  | none => (none, v)
  | some (p, room) =>
    let (result, received, stores) := p.restore id sink verify (Stores.mk (Medium.mk v.blobs room) v.records)
    (some (result, received), { v with records := stores.records })

/-! ## Workers -/

/-- The number of the notarizer in use. -/
def notary (v : Vault) : Nat := v.notaries.length - 1

/-- Takes on a worker, with a notarizer of its own if a delay for that is given. -/
def hire (v : Vault) (rules : JobRules) (draws : Nat → Draws) (threshold : Nat) (delayMillis : Option Nat) :
    Option Vault :=
  v.archiver.map fun (archiver, room) =>
    let v := match delayMillis with
      | some delay => { v with notaries := v.notaries ++ [StandInNotary.mk delay [] 0] }
      | none => v
    let worker : Worker := {
      caretaker := { archiver, rules, draws }, room, guard := { threshold }, notary := v.notary }
    { v with workers := v.workers ++ [worker] }

/-- The number of the worker that is asked. -/
def current (v : Vault) : Nat := v.workers.length - 1

/-- What a worker works on. -/
def jobState (v : Vault) (worker : Worker) : JobState Shelf Medium StandInNotary where
  origin := v.origin
  stores := Stores.mk (Medium.mk v.blobs worker.room) v.records
  notary := v.notaries.getD worker.notary {}
  guard := worker.guard
  locks := worker.locks
  drawn := v.drawn

/-- Lets a worker do something. -/
def employ {α : Type} (v : Vault) (i : Nat)
    (task : Caretaker → JobState Shelf Medium StandInNotary → α × JobState Shelf Medium StandInNotary) :
    Option α × Vault :=
  match v.workers[i]? with
  | none => (none, v)
  | some worker =>
    let (a, s) := task worker.caretaker (v.jobState worker)
    (some a, { v with
      origin := s.origin
      blobs := s.stores.blobs.store
      records := s.stores.records
      notaries := v.notaries.set worker.notary s.notary
      workers := v.workers.set i { worker with guard := s.guard, locks := s.locks }
      drawn := s.drawn })

/-! ## Time -/

/-- Lets time pass up to an instant. -/
def waitUntil (v : Vault) (time : Timestamp) (target : Instant) : Vault :=
  match v.schedule with
  | none => { v with now := target }
  | some (schedule, i) =>
    let (moved, v) := v.employ i fun r s => schedule.advance r time v.now target s
    { v with schedule := moved.map fun schedule => (schedule, i), now := target }

/-- Starts a schedule. -/
def start (v : Vault) (c : Configuration) : Attempt Vault :=
  (Schedule.start c v.now).map fun schedule => { v with schedule := some (schedule, v.current) }

/-- Stops the schedule, if there is one, and says whether there was. -/
def stop (v : Vault) : Bool × Vault :=
  match v.schedule with
  | none => (false, v)
  | some (schedule, i) =>
    let (ends, v) := v.employ i fun _ s => schedule.stop v.now s
    (true, { v with schedule := none, now := ends.getD v.now })

/-! ## Jobs -/

/-- The schedule, if it has this worker. -/
def scheduleOf (v : Vault) (i : Nat) : Option Schedule :=
  match v.schedule with
  | some (schedule, k) => if k = i then some schedule else none
  | none => none

/-- Runs a job and waits for its end. -/
def runJob (v : Vault) (time : Timestamp) (job : Job) : Option RunOutcome × Vault :=
  let i := v.current
  let shared := v.scheduleOf i
  let (result, after) := v.employ i fun r s =>
    let (outcome, schedule, ends, s) := Schedule.runJob (shared.getD {}) r time job v.now s
    ((outcome, schedule, ends), s)
  match result with
  | none => (none, after)
  | some (outcome, schedule, ends) =>
    (some outcome,
      if shared.isSome then { after with schedule := some (schedule, i), now := ends }
      else after.waitUntil time ends)

/-- Begins a run of one job, runs another, and then ends the first. -/
def runBoth (v : Vault) (time : Timestamp) (first second : Job) : Option (RunOutcome × RunOutcome) × Vault :=
  let i := v.current
  let (begun, v) := v.employ i fun r s => r.begin time first s
  let (other, v) := v.runJob time second
  match begun, other with
  | some (.error outcome), some other => (some (outcome, other), v)
  | some (.ok run), some other =>
    let (outcome, v) := v.employ i fun r s => r.finish v.now run s
    (outcome.map fun outcome => (outcome, other), v)
  | _, _ => (none, v)

end Vault

end ContentVault
