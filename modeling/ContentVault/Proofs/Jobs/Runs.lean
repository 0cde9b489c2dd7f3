import ContentVault.Archiver.Restoring
import ContentVault.Proofs.Jobs.Errands
import ContentVault.Proofs.Jobs.Traffic

/-! # Runs, one stage after the other

    Wherever a run of a job waits, others go on, so it is cut into stages like an
    `Errand`, and `advanceRun` takes it from one stage to the next.  It takes the
    lock, looks at what there is to do, and goes through that.  A run of the archive
    job has several items under way at once, and at each step one of them goes on.
    Restores are cut into stages as well.

    A run that nobody comes in between of is a run of its job
    (`exists_proceedRun_eq`), and so is a restore (`proceed_eq_restore`). -/

namespace ContentVault

/-! ## Restores -/

/-- Content that is to be restored, with all that it takes. -/
structure RestoreCall where
  archiver : Archiver
  id : String
  sink : Sink
  verify : Bool

/-- How far a restore has come. -/
inductive RestoreStage where
  | called
  | found (entry : Entry)
  /-- The sink has received all of the content. -/
  | delivered (report : RestoreReceipt) (received : Bytes)
  /-- It has everything written. -/
  | flushed (report : RestoreReceipt) (received : Bytes)
  | ended (result : Attempt RestoreReceipt) (received : Bytes)

namespace RestoreCall

/-- Takes a restore to its next stage. -/
def advance (c : RestoreCall) (stage : RestoreStage) (s : Stores BlobStore) :
    RestoreStage × Stores BlobStore :=
  match stage with
  | .called =>
    match s.records.find c.id with
    | .error e => (.ended (.error e) [], s)
    | .ok none => (.ended (.error (.notFound c.id)) [], s)
    | .ok (some entry) => (.found entry, s)
  | .found entry =>
    match c.archiver.deliverEntry entry c.sink c.verify s.blobs with
    | (.error e, received) => (.ended (.error e) received, s)
    | (.ok report, received) => (.delivered report received, s)
  | .delivered report received =>
    match c.sink.lastFlushFailure with
    | some e => (.ended (.error (.ofIo e)) received, s)
    | none => (.flushed report received, s)
  | .flushed report received =>
    match s.records.noteRestored c.id with
    | .error e => (.ended (.error e) received, s)
    | .ok records => (.ended (.ok report) received, { s with records })
  | .ended result received => (.ended result received, s)

/-- Takes a restore a number of stages further, with nothing in between. -/
def proceed (c : RestoreCall) :
    Nat → RestoreStage × Stores BlobStore → RestoreStage × Stores BlobStore
  | 0, reached => reached
  | k + 1, reached => c.proceed k (c.advance reached.1 reached.2)

/-- With nothing in between, content is restored stage by stage as it is restored at
    once. -/
theorem proceed_eq_restore (c : RestoreCall) (s : Stores BlobStore) :
    c.proceed 4 (.called, s)
      = (.ended (c.archiver.restore c.id c.sink c.verify s).1
          (c.archiver.restore c.id c.sink c.verify s).2.1,
        (c.archiver.restore c.id c.sink c.verify s).2.2) := by
  rw [proceed, advance, Archiver.restore]
  cases s.records.find c.id with
  | error e => rfl
  | ok found =>
      cases found with
      | none => rfl
      | some entry =>
          simp only
          rw [proceed, advance]
          rcases c.archiver.deliverEntry entry c.sink c.verify s.blobs with ⟨result, received⟩
          cases result with
          | error e => rfl
          | ok report =>
              simp only
              rw [proceed, advance]
              cases c.sink.lastFlushFailure with
              | some e => rfl
              | none =>
                  simp only
                  rw [proceed, advance]
                  cases s.records.noteRestored c.id with
                  | error e => rfl
                  | ok records => rfl

end RestoreCall

/-! ## Runs -/

/-- How far a run of a job has come. -/
inductive RunStage where
  | called
  /-- It has the lock. -/
  | begun
  /-- These items are still to be set about, and these are under way. -/
  | archiving (queue : List String) (active : List Errand) (report : JobTally)
  | notarizing (pending : List Entry) (report : JobTally)
  /-- The digest of an entry was submitted. -/
  | submitted (e : Entry) (pending : List Entry) (report : JobTally)
  /-- The notarizer answered with a transaction id, which is still to be kept. -/
  | answered (e : Entry) (tx : String) (pending : List Entry) (report : JobTally)
  | sweeping (stage : SweepStage)
  | ended (outcome : RunOutcome)
  /-- Whoever called for it does not wait for it any more. -/
  | abandoned

/-- Whether a run has the lock of its job. -/
def RunStage.holds : RunStage → Bool
  | called => false
  | ended _ => false
  | abandoned => false
  | _ => true

/-- What a step is told from outside: the readings of the clocks, and which of the
    items under way goes on; if it is none of them, a new one is set about. -/
structure Tick where
  now : Instant
  time : Timestamp
  item : Option Nat := none

namespace Caretaker

variable {σ ν : Type} [ContentOrigin σ] [NotaryService ν]

/-- Looks at what there is to do in a run. -/
def openRun (c : Caretaker) (job : Job) (w : JobState σ BlobStore ν) :
    RunStage × JobState σ BlobStore ν :=
  match job with
  | .archive =>
    match ContentOrigin.flagged w.origin c.rules.query with
    | (.error e, origin) => (.ended (.failed e), release job { w with origin })
    | (.ok ids, origin) => (.archiving ids [] {}, { w with origin })
  | .notarize => (.notarizing w.stores.records.unnotarized {}, w)
  | .orphans => (.sweeping .called, w)

/-- Takes the items of a run further.  No more are set about than are allowed at the
    same time; a run that is cut short leaves the others alone. -/
def advanceItems (c : Caretaker) (tick : Tick) (job : Job) (queue : List String)
    (active : List Errand) (report : JobTally) (w : JobState σ BlobStore ν) :
    RunStage × JobState σ BlobStore ν :=
  match tick.item with
  | some k =>
    match active[k]? with
    | none => (.archiving queue active report, w)
    | some e =>
      match c.advance tick.now e.id e.stage w with
      | (.ended .cutShort, w) => (.ended .cutShort, release job w)
      | (.ended outcome, w) => (.archiving queue (active.eraseIdx k) (count report outcome), w)
      | (stage, w) => (.archiving queue (active.set k { e with stage }) report, w)
  | none =>
    match queue, active with
    | [], [] => (.ended (.finished report), release job w)
    | [], active => (.archiving [] active report, w)
    | id :: queue, active =>
      if active.length < max 1 c.rules.workers then
        (.archiving queue (active ++ [⟨id, .asked⟩]) report, w)
      else (.archiving (id :: queue) active report, w)

/-- Takes a run to its next stage. -/
def advanceRun (c : Caretaker) (tick : Tick) (job : Job) (stage : RunStage)
    (w : JobState σ BlobStore ν) : RunStage × JobState σ BlobStore ν :=
  match stage with
  | .called =>
    match (w.locks.get job).acquire with
    | none => (.ended .stillRunning, w)
    | some lock => (.begun, { w with locks := w.locks.set job lock })
  | .begun => c.openRun job w
  | .archiving queue active report => c.advanceItems tick job queue active report w
  | .notarizing [] report => (.ended (.finished report), release job w)
  | .notarizing (e :: pending) report => (.submitted e pending report, submit e w)
  | .submitted e pending report =>
    match NotaryService.settle w.notary e.record.id (notarizedHash e) with
    | (.error _, notary) => (.notarizing pending report.addFailed, { w with notary })
    | (.ok tx, notary) => (.answered e tx pending report, { w with notary })
  | .answered e tx pending report =>
    match w.stores.records.setTransaction e.record.id tx with
    | .error _ => (.notarizing pending report.addFailed, w)
    | .ok records =>
      (.notarizing pending report.addSucceeded, { w with stores := { w.stores with records } })
  | .sweeping stage =>
    match c.advanceSweep tick.time stage w.stores with
    | (.ended outcome, stores) => (.ended outcome, release job { w with stores })
    | (stage, stores) => (.sweeping stage, { w with stores })
  | .ended outcome => (.ended outcome, w)
  | .abandoned => (.abandoned, w)

/-- Takes a run one step for each tick, with nothing in between. -/
def proceedRun (c : Caretaker) (job : Job) (ticks : List Tick)
    (reached : RunStage × JobState σ BlobStore ν) : RunStage × JobState σ BlobStore ν :=
  ticks.foldl (fun reached tick => c.advanceRun tick job reached.1 reached.2) reached

/-! ### A run by itself -/

variable (c : Caretaker)

theorem proceedRun_append (job : Job) (ticks more : List Tick)
    (reached : RunStage × JobState σ BlobStore ν) :
    c.proceedRun job (ticks ++ more) reached
      = c.proceedRun job more (c.proceedRun job ticks reached) := List.foldl_append

theorem proceedRun_ended (job : Job) (ticks : List Tick) (outcome : RunOutcome)
    (w : JobState σ BlobStore ν) :
    c.proceedRun job ticks (.ended outcome, w) = (.ended outcome, w) := by
  induction ticks with
  | nil => rfl
  | cons tick ticks ih => exact ih

omit [ContentOrigin σ] [NotaryService ν] in
theorem proceedSweep_ended (time : Timestamp) (k : Nat) (outcome : RunOutcome)
    (s : Stores BlobStore) :
    c.proceedSweep time k (.ended outcome, s) = (.ended outcome, s) := by
  induction k with
  | zero => rfl
  | succ k ih => exact ih

variable (now : Instant) (time : Timestamp)

/-- The step in which the only item under way goes on. -/
def onItem : Tick := ⟨now, time, some 0⟩

include now time

theorem proceedRun_idle (k : Nat) (queue : List String) (report : JobTally)
    (w : JobState σ BlobStore ν) :
    c.proceedRun .archive (List.replicate k (onItem now time)) (.archiving queue [] report, w)
      = (.archiving queue [] report, w) := by
  induction k with
  | zero => rfl
  | succ k ih => exact ih

/-- Where a run is when this came of the only item under way. -/
def afterItem (queue : List String) (report : JobTally) (w : JobState σ BlobStore ν) :
    ItemOutcome → RunStage × JobState σ BlobStore ν
  | .cutShort => (.ended .cutShort, release .archive w)
  | outcome => (.archiving queue [] (count report outcome), w)

/-- An item is worked on in a run as it is by itself. -/
theorem proceedRun_item {id : String} {k : Nat} {stage : ErrandStage}
    {w w' : JobState σ BlobStore ν} {outcome : ItemOutcome} (hstage : ∀ o, stage ≠ .ended o)
    (h : c.proceed now id k (stage, w) = (.ended outcome, w')) (queue : List String)
    (report : JobTally) :
    c.proceedRun .archive (List.replicate k (onItem now time))
        (.archiving queue [⟨id, stage⟩] report, w)
      = afterItem queue report w' outcome := by
  induction k generalizing stage w with
  | zero => exact absurd (Prod.mk.inj h).1 (hstage outcome)
  | succ k ih =>
      rw [proceed] at h
      have hstep : c.proceedRun .archive (List.replicate (k + 1) (onItem now time))
          (.archiving queue [⟨id, stage⟩] report, w)
          = c.proceedRun .archive (List.replicate k (onItem now time))
            (c.advanceItems (onItem now time) .archive queue [⟨id, stage⟩] report w) := rfl
      rw [hstep]
      simp only [advanceItems, onItem, List.getElem?_cons_zero]
      rcases hreached : c.advance now id stage w with ⟨next, w₁⟩
      rw [hreached] at h
      -- once the item has ended, the steps that are left find nothing under way
      cases next with
      | ended o =>
          rw [proceed_ended] at h
          obtain ⟨ho, rfl⟩ := Prod.mk.inj h
          cases ho
          cases outcome with
          | cutShort => exact c.proceedRun_ended .archive _ _ _
          | _ => exact c.proceedRun_idle now time k queue _ w₁
      | _ => exact ih (fun _ => ErrandStage.noConfusion) h

/-- One item after the other is worked on. -/
theorem exists_proceedRun_items (ids : List String) (report : JobTally)
    (w : JobState σ BlobStore ν) :
    ∃ ticks, c.proceedRun .archive ticks (.archiving ids [] report, w)
      = (.ended (c.archiveAll now ids report w).1,
          release .archive (c.archiveAll now ids report w).2) := by
  induction ids generalizing report w with
  | nil => exact ⟨[⟨now, time, none⟩], rfl⟩
  | cons id ids ih =>
      have hasked : ∀ o, ErrandStage.asked ≠ .ended o := fun _ => ErrandStage.noConfusion
      have hitem := c.proceedRun_item now time hasked (c.proceed_eq_archiveItem now id w) ids report
      have hroom : ([] : List Errand).length < max 1 c.rules.workers :=
        Nat.lt_of_lt_of_le Nat.zero_lt_one (Nat.le_max_left _ _)
      have hstart : c.advanceRun ⟨now, time, none⟩ .archive (.archiving (id :: ids) [] report) w
          = (.archiving ids [⟨id, .asked⟩] report, w) := by
        rw [advanceRun, advanceItems]
        exact if_pos hroom
      rw [archiveAll]
      rcases hout : c.archiveItem now id w with ⟨outcome, w'⟩
      rw [hout] at hitem
      -- a run that is cut short leaves the other items alone
      by_cases hcut : outcome = .cutShort
      · subst hcut
        refine ⟨⟨now, time, none⟩ :: List.replicate 7 (onItem now time), ?_⟩
        rw [proceedRun, List.foldl_cons, hstart]
        exact hitem
      · obtain ⟨ticks, hticks⟩ := ih (count report outcome) w'
        refine ⟨⟨now, time, none⟩ :: (List.replicate 7 (onItem now time) ++ ticks), ?_⟩
        rw [proceedRun, List.foldl_cons, hstart]
        refine (c.proceedRun_append .archive _ ticks _).trans ?_
        rw [hitem]
        cases outcome with
        | cutShort => exact absurd rfl hcut
        | _ => exact hticks

/-- An entry is notarized in a run as it is by itself. -/
theorem exists_proceedRun_settle (e : Entry) (pending : List Entry) (report : JobTally)
    (w : JobState σ BlobStore ν) :
    ∃ ticks, c.proceedRun .notarize ticks (.submitted e pending report, w)
      = (.notarizing pending (settle e report w).1, (settle e report w).2) := by
  rw [settle]
  rcases hanswer : NotaryService.settle w.notary e.record.id (notarizedHash e)
    with ⟨answer, notary⟩
  cases answer with
  | error f =>
      refine ⟨[⟨now, time, none⟩], ?_⟩
      rw [proceedRun, List.foldl_cons, advanceRun, hanswer]
      rfl
  | ok tx =>
      refine ⟨[⟨now, time, none⟩, ⟨now, time, none⟩], ?_⟩
      rw [proceedRun, List.foldl_cons, advanceRun, hanswer]
      simp only [List.foldl_cons, List.foldl_nil, advanceRun]
      cases w.stores.records.setTransaction e.record.id tx with
      | error f => rfl
      | ok records => rfl

/-- One entry after the other is notarized. -/
theorem exists_proceedRun_pending (pending : List Entry) (report : JobTally)
    (w : JobState σ BlobStore ν) :
    ∃ ticks, c.proceedRun .notarize ticks (.notarizing pending report, w)
      = (.ended (.finished (notarizeAll pending report w).1),
          release .notarize (notarizeAll pending report w).2) := by
  induction pending generalizing report w with
  | nil => exact ⟨[⟨now, time, none⟩], rfl⟩
  | cons e pending ih =>
      obtain ⟨first, hfirst⟩ := c.exists_proceedRun_settle now time e pending report (submit e w)
      obtain ⟨ticks, hticks⟩ := ih (settle e report (submit e w)).1 (settle e report (submit e w)).2
      refine ⟨⟨now, time, none⟩ :: (first ++ ticks), ?_⟩
      rw [proceedRun, List.foldl_cons]
      refine (c.proceedRun_append .notarize first ticks _).trans ?_
      rw [advanceRun, hfirst]
      exact hticks

/-- A sweep is worked on in a run as it is by itself. -/
theorem proceedRun_sweeping {k : Nat} {stage : SweepStage} {outcome : RunOutcome}
    {stores : Stores BlobStore} (hstage : ∀ o, stage ≠ .ended o) (w : JobState σ BlobStore ν)
    (h : c.proceedSweep time k (stage, w.stores) = (.ended outcome, stores)) :
    c.proceedRun .orphans (List.replicate k ⟨now, time, none⟩) (.sweeping stage, w)
      = (.ended outcome, release .orphans { w with stores }) := by
  induction k generalizing stage w with
  | zero => exact absurd (Prod.mk.inj h).1 (hstage outcome)
  | succ k ih =>
      rw [proceedSweep] at h
      have hstep : c.proceedRun .orphans (List.replicate (k + 1) ⟨now, time, none⟩)
          (.sweeping stage, w)
          = c.proceedRun .orphans (List.replicate k ⟨now, time, none⟩)
            (c.advanceRun ⟨now, time, none⟩ .orphans (.sweeping stage) w) := rfl
      rw [hstep, advanceRun]
      rcases hreached : c.advanceSweep time stage w.stores with ⟨next, s⟩
      rw [hreached] at h
      cases next with
      | ended o =>
          rw [proceedSweep_ended] at h
          obtain ⟨ho, rfl⟩ := Prod.mk.inj h
          cases ho
          exact c.proceedRun_ended .orphans _ _ _
      | _ => exact ih (fun _ => SweepStage.noConfusion) _ h

/-- A run of the orphan job changes the stores and nothing else. -/
theorem world_run_orphans (w : JobState σ BlobStore ν) {lock : RunLock}
    (hlock : (w.locks.get .orphans).acquire = some lock) :
    (c.run now time .orphans w).2 = release .orphans { w with
      locks := w.locks.set .orphans lock, stores := (c.run now time .orphans w).2.stores } := by
  rw [run, begin, hlock]
  cases hcutoff : c.cutoff time with
  | error outcome => simp only [survey, hcutoff, release]
  | ok cutoff =>
      cases hknown : w.stores.records.references with
      | error e => simp only [survey, hcutoff, hknown, release]
      | ok known => simp only [survey, hcutoff, hknown, release, finish, work, Run.job]

/-- With nothing in between, a run called for is a run of its job. -/
theorem exists_proceedRun_eq (job : Job) (w : JobState σ BlobStore ν) :
    ∃ ticks, c.proceedRun job ticks (.called, w)
      = (.ended (c.run now time job w).1, (c.run now time job w).2) := by
  cases hlock : (w.locks.get job).acquire with
  | none =>
      refine ⟨[⟨now, time, none⟩], ?_⟩
      rw [proceedRun, List.foldl_cons, List.foldl_nil, advanceRun, run, begin, hlock]
  | some lock =>
      have hbegun : ∀ ticks, c.proceedRun job (⟨now, time, none⟩ :: ⟨now, time, none⟩ :: ticks)
          (.called, w) = c.proceedRun job ticks
            (c.openRun job { w with locks := w.locks.set job lock }) := by
        intro ticks
        rw [proceedRun, List.foldl_cons, List.foldl_cons, advanceRun, hlock]
        rfl
      cases job with
      | archive =>
          rw [run, begin, hlock]
          simp only [survey]
          cases hflagged : ContentOrigin.flagged w.origin c.rules.query with
          | mk listed origin =>
              cases listed with
              | error e =>
                  refine ⟨[⟨now, time, none⟩, ⟨now, time, none⟩], ?_⟩
                  rw [hbegun, openRun, hflagged]
                  rfl
              | ok ids =>
                  obtain ⟨ticks, hticks⟩ := c.exists_proceedRun_items now time ids {}
                    { w with locks := w.locks.set .archive lock, origin }
                  refine ⟨⟨now, time, none⟩ :: ⟨now, time, none⟩ :: ticks, ?_⟩
                  rw [hbegun, openRun, hflagged]
                  exact hticks
      | notarize =>
          rw [run, begin, hlock]
          obtain ⟨ticks, hticks⟩ := c.exists_proceedRun_pending now time
            w.stores.records.unnotarized {} { w with locks := w.locks.set .notarize lock }
          refine ⟨⟨now, time, none⟩ :: ⟨now, time, none⟩ :: ticks, ?_⟩
          rw [hbegun]
          exact hticks
      | orphans =>
          have hfree : w.locks.orphans.held = false := by
            rw [RunLock.acquire] at hlock
            by_contra hheld
            rw [if_pos (Bool.not_eq_false _ ▸ hheld)] at hlock
            cases hlock
          obtain ⟨k, hk⟩ := c.exists_proceedSweep_eq now time w hfree
          refine ⟨⟨now, time, none⟩ :: ⟨now, time, none⟩ :: List.replicate k ⟨now, time, none⟩, ?_⟩
          rw [hbegun, c.world_run_orphans now time w hlock]
          have hcalled : ∀ o, SweepStage.called ≠ .ended o := fun _ => SweepStage.noConfusion
          exact c.proceedRun_sweeping now time hcalled _ hk

end Caretaker

end ContentVault
