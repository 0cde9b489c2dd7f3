import ContentVault.Archiver.Archiving
import ContentVault.Jobs.Exclusion
import ContentVault.Jobs.Rules
import ContentVault.Notary.Basic
import ContentVault.Origin.Basic
import ContentVault.Repeats.Guard

/-!
# The caretaker

A `Caretaker` knows how the jobs are to be done; what they are done on is in a `JobState`: the repository that content
comes from, the stores, the notarizer, and what the jobs themselves keep, the guard against duplicates and the locks. A
run of a job begins with taking its lock and looking at what there is to do (`begin`), goes through that one by one, and
gives the lock back (`finish`). `run` is the whole of it.
-/

namespace ContentVault

/-- What the jobs are done on. -/
structure JobState (σ β ν : Type) where
  origin : σ
  stores : Stores β
  notary : ν
  guard : RepeatGuard
  locks : RunLocks := {}
  /-- How many pieces of content were set about to be archived. -/
  drawn : Nat := 0

/-- How the jobs are to be done. -/
structure Caretaker where
  archiver : Archiver
  rules : JobRules
  /-- What is random and what a clock tells for one piece of content after the other. -/
  draws : Nat → Draws

/-- What came of one item. -/
inductive ItemOutcome where
  | archived (report : ArchiveReceipt)
  /-- The item was asked for already a short time ago. -/
  | duplicateSuppressed
  /-- There is an entry for the item. -/
  | alreadyArchived
  | failed (error : VaultFailure)
  /-- The whole run was cut short. -/
  | cutShort
deriving DecidableEq, Repr, Inhabited

/-- What came of a run. -/
inductive RunOutcome where
  | finished (report : JobTally)
  /-- The run before it was not over, so there was none. -/
  | stillRunning
  | failed (error : VaultFailure)
  /-- A time in it cannot be represented. -/
  | cutShort
deriving DecidableEq, Repr, Inhabited

/-- A run that has begun: what there is still to do, and what was done. -/
inductive Run where
  | archive (ids : List String) (report : JobTally)
  | notarize (pending : List Entry) (report : JobTally)
  /-- The blobs that no record referred to in the beginning, if they could be listed; those from after `cutoff` are too
  young. -/
  | orphans (found : Attempt (List FoundBlob)) (cutoff : Int)

/-- The job of a run. -/
def Run.job : Run → Job
  | archive _ _ => .archive
  | notarize _ _ => .notarize
  | orphans _ _ => .orphans

namespace Caretaker

variable {σ β ν : Type}

/-! ## Archiving -/

/-- The choices for an item; what the item says about its digest counts more than the rules. -/
def choicesFor (c : Caretaker) (content : OfferedContent) : ArchiveChoices :=
  match content.expectedHash with
  | some hash => c.rules.choices.expecting hash
  | none => c.rules.choices

/-- Tells the repository that an item is in the vault, and to remove it if that is wanted. A failure is left to the
next time. -/
def settleOrigin [ContentOrigin σ] (c : Caretaker) (id : String) (origin : σ) : σ :=
  match ContentOrigin.acknowledge origin id with
  | (.error _, origin) => origin
  | (.ok (), origin) => if c.rules.deleteSource then (ContentOrigin.delete origin id).2 else origin

/-- Archives one item. -/
def archiveItem [ContentOrigin σ] [BlobStorage β] (c : Caretaker) (now : Instant) (id : String)
    (w : JobState σ β ν) : ItemOutcome × JobState σ β ν :=
  match w.guard.test now id with
  | (.suppressed, guard) => (.duplicateSuppressed, { w with guard })
  | (.unavailable, guard) => (.failed .lock, { w with guard })
  | (.cutShort, guard) => (.cutShort, { w with guard })
  | (.accepted, guard) =>
    match ContentOrigin.fetch w.origin id with
    | (.error e, origin) => (.failed e, { w with guard, origin })
    | (.ok content, origin) =>
      let (result, stores) := c.archiver.archive (c.draws w.drawn) content (c.choicesFor content) w.stores
      let w := { w with guard, origin, stores, drawn := w.drawn + 1 }
      match result with
      | .ok report => (.archived report, { w with origin := c.settleOrigin id origin })
      | .error (.alreadyArchived _) => (.alreadyArchived, { w with origin := c.settleOrigin id origin })
      | .error e => (.failed e, w)

/-- Counts what came of an item. -/
def count (report : JobTally) : ItemOutcome → JobTally
  | .archived _ => report.addSucceeded
  | .duplicateSuppressed => report.addSkipped
  | .alreadyArchived => report.addSkipped
  | .failed _ => report.addFailed
  | .cutShort => report

/-- Archives one item after the other, which is one of the orders in which several workers may take its stages. -/
def archiveAll [ContentOrigin σ] [BlobStorage β] (c : Caretaker) (now : Instant) :
    List String → JobTally → JobState σ β ν → RunOutcome × JobState σ β ν
  | [], report, w => (.finished report, w)
  | id :: ids, report, w =>
    match c.archiveItem now id w with
    | (.cutShort, w) => (.cutShort, w)
    | (outcome, w) => c.archiveAll now ids (count report outcome) w

/-! ## Notarizing -/

/-- The digest that is submitted for an entry. -/
def notarizedHash (e : Entry) : Fingerprint := ⟨e.content.hashAlgorithm, e.content.hash⟩

/-- Submits the digest of an entry. -/
def submit [NotaryService ν] (e : Entry) (w : JobState σ β ν) : JobState σ β ν :=
  { w with notary := NotaryService.submit w.notary e.record.id (notarizedHash e) }

/-- Takes the result of a submission and keeps the transaction id. -/
def settle [NotaryService ν] (e : Entry) (report : JobTally) (w : JobState σ β ν) :
    JobTally × JobState σ β ν :=
  match NotaryService.settle w.notary e.record.id (notarizedHash e) with
  | (.error _, notary) => (report.addFailed, { w with notary })
  | (.ok tx, notary) =>
    match w.stores.records.setTransaction e.record.id tx with
    | .error _ => (report.addFailed, { w with notary })
    | .ok records => (report.addSucceeded, { w with notary, stores := { w.stores with records } })

/-- Notarizes one entry after the other. -/
def notarizeAll [NotaryService ν] : List Entry → JobTally → JobState σ β ν → JobTally × JobState σ β ν
  | [], report, w => (report, w)
  | e :: pending, report, w =>
    let (report, w) := settle e report (submit e w)
    notarizeAll pending report w

/-! ## Collecting orphans -/

/-- The longest grace period, in seconds. -/
def longestGrace : Nat := 9223372036854775

/-- The place in time from which on blobs are too young to be orphans. -/
def cutoff (c : Caretaker) (time : Timestamp) : Except RunOutcome Int :=
  let grace := c.rules.orphanGraceSecs.toNat
  if longestGrace < grace then
    .error (.failed (.config ("orphan grace period out of range: " ++ toString grace ++ " seconds")))
  else
    match time.secondsBefore? grace with
    | some place => .ok place
    | none => .error .cutShort

/-- Deletes a blob without a record, unless it is too young. -/
def collectOne [BlobStorage β] (cutoff : Int) (blob : FoundBlob) (report : JobTally) (blobs : β) :
    JobTally × β :=
  if cutoff < blob.created.nanoseconds then (report.addSkipped, blobs)
  else
    match BlobStorage.delete blobs blob.contentRef with
    | (.ok (), blobs) => (report.addSucceeded, blobs)
    | (.error _, blobs) => (report.addFailed, blobs)

/-- Deletes one blob without a record after the other. -/
def collectAll [BlobStorage β] (cutoff : Int) : List FoundBlob → JobTally → β → JobTally × β
  | [], report, blobs => (report, blobs)
  | blob :: rest, report, blobs =>
    let (report, blobs) := collectOne cutoff blob report blobs
    collectAll cutoff rest report blobs

/-- The blobs that none of the references is to. -/
def unreferenced [BlobStorage β] (known : List String) (blobs : β) : Attempt (List FoundBlob) :=
  (BlobStorage.list blobs).map (·.filter fun b => !known.contains b.contentRef)

/-- Deletes the blobs that were found to have no record. -/
def collect [BlobStorage β] (found : Attempt (List FoundBlob)) (cutoff : Int) (blobs : β) : RunOutcome × β :=
  match found with
  | .error e => (.failed e, blobs)
  | .ok found =>
    let (report, blobs) := collectAll cutoff found {} blobs
    (.finished report, blobs)

/-! ## Runs -/

/-- Looks at what there is to do. -/
def survey [ContentOrigin σ] [BlobStorage β] (c : Caretaker) (time : Timestamp) (job : Job) (w : JobState σ β ν) :
    Except RunOutcome Run × JobState σ β ν :=
  match job with
  | .archive =>
    match ContentOrigin.flagged w.origin c.rules.query with
    | (.error e, origin) => (.error (.failed e), { w with origin })
    | (.ok ids, origin) => (.ok (.archive ids {}), { w with origin })
  | .notarize => (.ok (.notarize w.stores.records.unnotarized {}), w)
  | .orphans =>
    match c.cutoff time, w.stores.records.references with
    | .error outcome, _ => (.error outcome, w)
    | .ok _, .error e => (.error (.failed e), w)
    | .ok cutoff, .ok known => (.ok (.orphans (unreferenced known w.stores.blobs) cutoff), w)

/-- Gives the lock of a job back. -/
def release (job : Job) (w : JobState σ β ν) : JobState σ β ν :=
  { w with locks := w.locks.set job (w.locks.get job).release }

/-- Begins a run, unless one is going on. A run that cannot go on from there gives the lock back at once. -/
def begin [ContentOrigin σ] [BlobStorage β] (c : Caretaker) (time : Timestamp) (job : Job) (w : JobState σ β ν) :
    Except RunOutcome Run × JobState σ β ν :=
  match (w.locks.get job).acquire with
  | none => (.error .stillRunning, w)
  | some lock =>
    match c.survey time job { w with locks := w.locks.set job lock } with
    | (.ok run, w) => (.ok run, w)
    | (.error outcome, w) => (.error outcome, release job w)

/-- Does what is still to do in a run. -/
def work [ContentOrigin σ] [BlobStorage β] [NotaryService ν] (c : Caretaker) (now : Instant) (run : Run)
    (w : JobState σ β ν) : RunOutcome × JobState σ β ν :=
  match run with
  | .archive ids report => c.archiveAll now ids report w
  | .notarize pending report =>
    let (report, w) := notarizeAll pending report w
    (.finished report, w)
  | .orphans found cutoff =>
    let (outcome, blobs) := collect found cutoff w.stores.blobs
    (outcome, { w with stores := { w.stores with blobs } })

/-- Does what is still to do in a run and ends it. -/
def finish [ContentOrigin σ] [BlobStorage β] [NotaryService ν] (c : Caretaker) (now : Instant) (run : Run)
    (w : JobState σ β ν) : RunOutcome × JobState σ β ν :=
  let (outcome, w) := c.work now run w
  (outcome, release run.job w)

/-- Runs a job. -/
def run [ContentOrigin σ] [BlobStorage β] [NotaryService ν] (c : Caretaker) (now : Instant) (time : Timestamp)
    (job : Job) (w : JobState σ β ν) : RunOutcome × JobState σ β ν :=
  match c.begin time job w with
  | (.error outcome, w) => (outcome, w)
  | (.ok run, w) => c.finish now run w

end Caretaker

end ContentVault
