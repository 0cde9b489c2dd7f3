import ContentVault.Archiver.Choices

/-!
# Rules and tallies of the jobs

What the sweeps are told to do, and the counts they report.
-/

namespace ContentVault

/-- What the sweeps are told to do. -/
structure JobRules where
  /-- What the source is asked for when it lists items to archive. -/
  query : String
  /-- How many items are archived at the same time. -/
  workers : Nat
  choices : ArchiveChoices
  deleteSource : Bool
  /-- How old a blob has to be to count as an orphan, in seconds. -/
  orphanGraceSecs : UInt64
deriving DecidableEq, Repr, Inhabited

/-- The rules that a configuration asks for; at least one item is archived at a time. -/
def JobRules.ofConfig (c : Configuration) : JobRules where
  query := c.archiveQuery
  workers := max 1 c.workerCount.toNat
  choices := .ofConfig c
  deleteSource := c.deleteSourceAfterArchive
  orphanGraceSecs := c.orphanGraceSecs

/-- What a sweep did. -/
structure JobTally where
  processed : Nat := 0
  succeeded : Nat := 0
  skipped : Nat := 0
  failed : Nat := 0
deriving DecidableEq, Repr, Inhabited

namespace JobTally

/-- Counts one that succeeded. -/
def addSucceeded (r : JobTally) : JobTally :=
  { r with processed := r.processed + 1, succeeded := r.succeeded + 1 }

/-- Counts one that was skipped. -/
def addSkipped (r : JobTally) : JobTally :=
  { r with processed := r.processed + 1, skipped := r.skipped + 1 }

/-- Counts one that failed. -/
def addFailed (r : JobTally) : JobTally :=
  { r with processed := r.processed + 1, failed := r.failed + 1 }

end JobTally

end ContentVault
