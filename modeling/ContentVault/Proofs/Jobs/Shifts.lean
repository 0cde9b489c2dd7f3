import ContentVault.Proofs.Jobs.Extremes
import ContentVault.Proofs.Jobs.Runs
import ContentVault.Proofs.Positions
import ContentVault.Proofs.Store.Transactions

/-! # Jobs side by side

    Any number of runs of the three jobs are called for, and while they go on, others
    archive and restore over the same stores.  A `Shift` is all that is going on, over
    the one state that it shares, and its events come in any order: something is called
    for, something gets to its next stage, or whoever called for it does not wait for it
    any more; and apart from the records and the locks the state may change by itself.

    All that a step of a run can come to is a `RunMove` (`moves_advanceRun`).  Only the
    notarizations of a run have to do with the notarizer and change a transaction id
    that is there; all else spares them (`JobState.Spares`). -/

namespace ContentVault

variable {σ ν : Type}

/-! ## What spares the notarizations -/

/-- Whether a state becomes another one while its locks and its notarizer stay as they
    are, and of the transaction ids those of new entries only come in, as empty ones. -/
structure JobState.Spares (w v : JobState σ BlobStore ν) : Prop where
  locks : v.locks = w.locks
  notary : v.notary = w.notary
  records : w.stores.records.GrowsTo v.stores.records

theorem JobState.Spares.refl (w : JobState σ BlobStore ν) : w.Spares w := ⟨rfl, rfl, .refl _⟩

/-- A new entry has no transaction id. -/
theorem Archiver.notarization_newEntry (a : Archiver) (draws : Draws) (key : Option Key)
    (content : OfferedContent) (stored : StoredContent) :
    (a.newEntry draws key content stored).record.notarization = none := by
  cases key <;> rfl

theorem ArchiveCall.grows_advance (c : ArchiveCall) (now : Timestamp) (stage : ArchiveStage)
    (s : Stores BlobStore) : s.records.GrowsTo (c.advance now stage s).2.records := by
  cases stage with
  | called =>
      rw [advance]
      cases s.records.contains c.content.id with
      | error e => exact .refl _
      | ok present =>
          cases present with
          | true => exact .refl _
          | false =>
              simp only
              cases c.archiver.contentKey c.draws c.choices <;> exact .refl _
  | cleared key => exact .refl _
  | begun key created =>
      rw [advance]
      rcases c.archiver.storeContent (c.draws.at created) key c.content s.blobs
        with ⟨result, blobs⟩
      cases result <;> exact .refl _
  | stored key created blob =>
      rw [advance]
      cases Archiver.checkContent c.choices c.content blob with
      | error e => exact .refl _
      | ok verify =>
          simp only
          cases hsave : s.records.save (c.archiver.newEntry (c.draws.at now) key c.content blob)
            with
          | error e => exact .refl _
          | ok records =>
              exact RecordStore.grows_of_save (Archiver.notarization_newEntry _ _ _ _ _) hsave
  | ended result => exact .refl _

theorem RestoreCall.grows_advance (c : RestoreCall) (stage : RestoreStage) (s : Stores BlobStore) :
    s.records.GrowsTo (c.advance stage s).2.records := by
  cases stage with
  | called =>
      rw [advance]
      cases s.records.find c.id with
      | error e => exact .refl _
      | ok found => cases found <;> exact .refl _
  | found entry =>
      rw [advance]
      rcases c.archiver.deliverEntry entry c.sink c.verify s.blobs with ⟨result, received⟩
      cases result <;> exact .refl _
  | delivered report received =>
      rw [advance]
      cases c.sink.lastFlushFailure <;> exact .refl _
  | flushed report received =>
      rw [advance]
      cases hnote : s.records.noteRestored c.id with
      | error e => exact .refl _
      | ok records => exact RecordStore.grows_of_noteRestored hnote
  | ended result received => exact .refl _

section

variable [ContentOrigin σ]

theorem Caretaker.spares_advance (c : Caretaker) (now : Instant) (id : String) (stage : ErrandStage)
    (w : JobState σ BlobStore ν) : w.Spares (c.advance now id stage w).2 := by
  cases stage with
  | asked =>
      rw [advance]
      rcases w.guard.test now id with ⟨verdict, guard⟩
      cases verdict <;> exact ⟨rfl, rfl, .refl _⟩
  | admitted =>
      rw [advance]
      rcases ContentOrigin.fetch w.origin id with ⟨answer, origin⟩
      cases answer <;> exact ⟨rfl, rfl, .refl _⟩
  | fetched content n =>
      rw [advance]
      cases w.stores.records.contains content.id with
      | error e => exact .refl _
      | ok present =>
          cases present with
          | true => exact .refl _
          | false =>
              simp only
              cases c.archiver.contentKey (c.draws n) (c.choicesFor content) <;> exact .refl _
  | cleared content n key =>
      rw [advance]
      rcases c.archiver.storeContent (c.draws n) key content w.stores.blobs with ⟨result, blobs⟩
      cases result <;> exact ⟨rfl, rfl, .refl _⟩
  | stored content n key blob =>
      rw [advance]
      cases Archiver.checkContent (c.choicesFor content) content blob with
      | error e => exact .refl _
      | ok verify =>
          simp only
          cases hsave : w.stores.records.save (c.archiver.newEntry (c.draws n) key content blob)
            with
          | error e => exact .refl _
          | ok records =>
              exact ⟨rfl, rfl,
                RecordStore.grows_of_save (Archiver.notarization_newEntry _ _ _ _ _) hsave⟩
  | settling content outcome =>
      rw [advance]
      rcases ContentOrigin.acknowledge w.origin id with ⟨answer, origin⟩
      cases answer <;> exact ⟨rfl, rfl, .refl _⟩
  | deleting content outcome => exact ⟨rfl, rfl, .refl _⟩
  | ended outcome => exact .refl _

end

/-! ## All that a step of a run can come to -/

/-- Whether a run of a job can be at a stage. -/
def RunStage.Fits (job : Job) : RunStage → Prop
  | archiving _ _ _ => job = .archive
  | notarizing _ _ => job = .notarize
  | submitted _ _ _ => job = .notarize
  | answered _ _ _ _ => job = .notarize
  | sweeping stage => job = .orphans ∧ ∀ outcome, stage ≠ .ended outcome
  | _ => True

section

variable [NotaryService ν]

/-- All that a step of a run of a job can come to. -/
inductive RunMove (job : Job) (w : JobState σ BlobStore ν) :
    RunStage → RunStage → JobState σ BlobStore ν → Prop where
  /-- Another run has the lock. -/
  | refused (hheld : (w.locks.get job).held = true) : RunMove job w .called (.ended .stillRunning) w
  | begun (hfree : (w.locks.get job).held = false) :
      RunMove job w .called .begun
        { w with locks := w.locks.set job { w.locks.get job with held := true } }
  | worked {stage next : RunStage} {v : JobState σ BlobStore ν} (hjob : job ≠ .notarize)
      (hstage : stage.holds = true) (hnext : next.holds = true) (hfits : next.Fits job)
      (hspares : w.Spares v) : RunMove job w stage next v
  /-- Nothing is left to do, or it cannot go on. -/
  | ended {stage : RunStage} {v : JobState σ BlobStore ν} (outcome : RunOutcome)
      (hstage : stage.holds = true) (houtcome : outcome ≠ .stillRunning) (hspares : w.Spares v) :
      RunMove job w stage (.ended outcome) (Caretaker.release job v)
  | surveyed (hjob : job = .notarize) :
      RunMove job w .begun (.notarizing w.stores.records.unnotarized {}) w
  | submitted (e : Entry) (pending : List Entry) (report : JobTally) :
      RunMove job w (.notarizing (e :: pending) report) (.submitted e pending report)
        (Caretaker.submit e w)
  | declined {notary : ν} (e : Entry) (pending : List Entry) (report : JobTally) (f : VaultFailure)
      (hanswer : NotaryService.settle w.notary e.record.id (Caretaker.notarizedHash e)
        = (.error f, notary)) :
      RunMove job w (.submitted e pending report) (.notarizing pending report.addFailed)
        { w with notary }
  | answered {notary : ν} (e : Entry) (pending : List Entry) (report : JobTally) (tx : String)
      (hanswer : NotaryService.settle w.notary e.record.id (Caretaker.notarizedHash e)
        = (.ok tx, notary)) :
      RunMove job w (.submitted e pending report) (.answered e tx pending report) { w with notary }
  | recorded {records : RecordStore} (e : Entry) (pending : List Entry) (report : JobTally)
      (tx : String) (hset : w.stores.records.setTransaction e.record.id tx = .ok records) :
      RunMove job w (.answered e tx pending report) (.notarizing pending report.addSucceeded)
        { w with stores := { w.stores with records } }
  | unrecorded (e : Entry) (pending : List Entry) (report : JobTally) (tx : String)
      (f : VaultFailure) (hset : w.stores.records.setTransaction e.record.id tx = .error f) :
      RunMove job w (.answered e tx pending report) (.notarizing pending report.addFailed) w
  /-- It does not go on any more. -/
  | stayed {stage : RunStage} (hstage : stage.holds = false) (hcalled : stage ≠ .called) :
      RunMove job w stage stage w

variable [ContentOrigin σ] {job : Job}

namespace Caretaker

theorem moves_called (c : Caretaker) (tick : Tick) (w : JobState σ BlobStore ν) :
    RunMove job w .called (c.advanceRun tick job .called w).1
      (c.advanceRun tick job .called w).2 := by
  rw [advanceRun]
  cases hheld : (w.locks.get job).held with
  | true =>
      rw [RunLock.acquire_eq_none_iff.mpr hheld]
      exact .refused hheld
  | false =>
      rw [RunLock.acquire, if_neg (Bool.eq_false_iff.mp hheld)]
      exact .begun hheld

theorem moves_begun (c : Caretaker) (tick : Tick) (w : JobState σ BlobStore ν) :
    RunMove job w .begun (c.advanceRun tick job .begun w).1 (c.advanceRun tick job .begun w).2 := by
  rw [advanceRun]
  cases job with
  | archive =>
      rw [openRun]
      rcases ContentOrigin.flagged w.origin c.rules.query with ⟨listed, origin⟩
      cases listed with
      | error e => exact .ended _ rfl RunOutcome.noConfusion ⟨rfl, rfl, .refl _⟩
      | ok ids => exact .worked (by decide) rfl rfl rfl ⟨rfl, rfl, .refl _⟩
  | notarize => exact .surveyed rfl
  | orphans => exact .worked (by decide) rfl rfl ⟨rfl, fun _ => SweepStage.noConfusion⟩ (.refl w)

theorem moves_archiving (c : Caretaker) (tick : Tick) (queue : List String) (active : List Errand)
    (report : JobTally) (w : JobState σ BlobStore ν) :
    RunMove .archive w (.archiving queue active report)
      (c.advanceItems tick .archive queue active report w).1
      (c.advanceItems tick .archive queue active report w).2 := by
  rw [advanceItems.eq_def]
  cases tick.item with
  | some k =>
      -- the run ends with this item only if it is cut short
      simp only
      cases active[k]? with
      | none => exact .worked (by decide) rfl rfl rfl (.refl w)
      | some e =>
          have hspares := c.spares_advance tick.now e.id e.stage w
          simp only
          rcases hreached : c.advance tick.now e.id e.stage w with ⟨stage, v⟩
          rw [hreached] at hspares
          cases stage with
          | ended outcome =>
              cases outcome with
              | cutShort => exact .ended _ rfl RunOutcome.noConfusion hspares
              | _ => exact .worked (by decide) rfl rfl rfl hspares
          | _ => exact .worked (by decide) rfl rfl rfl hspares
  | none =>
      cases queue with
      | nil =>
          cases active with
          | nil => exact .ended _ rfl RunOutcome.noConfusion (.refl w)
          | cons e active => exact .worked (by decide) rfl rfl rfl (.refl w)
      | cons id queue =>
          simp only
          split
          · exact .worked (by decide) rfl rfl rfl (.refl w)
          · exact .worked (by decide) rfl rfl rfl (.refl w)

theorem moves_submitted (c : Caretaker) (tick : Tick) (e : Entry) (pending : List Entry)
    (report : JobTally) (w : JobState σ BlobStore ν) :
    RunMove job w (.submitted e pending report)
      (c.advanceRun tick job (.submitted e pending report) w).1
      (c.advanceRun tick job (.submitted e pending report) w).2 := by
  rw [advanceRun]
  rcases hanswer : NotaryService.settle w.notary e.record.id (notarizedHash e)
    with ⟨answer, notary⟩
  cases answer with
  | error f => exact .declined e pending report f hanswer
  | ok tx => exact .answered e pending report tx hanswer

theorem moves_answered (c : Caretaker) (tick : Tick) (e : Entry) (tx : String)
    (pending : List Entry) (report : JobTally) (w : JobState σ BlobStore ν) :
    RunMove job w (.answered e tx pending report)
      (c.advanceRun tick job (.answered e tx pending report) w).1
      (c.advanceRun tick job (.answered e tx pending report) w).2 := by
  rw [advanceRun]
  cases hset : w.stores.records.setTransaction e.record.id tx with
  | error f => exact .unrecorded e pending report tx f hset
  | ok records => exact .recorded e pending report tx hset

omit [ContentOrigin σ] [NotaryService ν] in
/-- A sweep does not end as one that was not begun. -/
theorem advanceSweep_ne_stillRunning (c : Caretaker) (time : Timestamp) {stage : SweepStage}
    (hstage : ∀ outcome, stage ≠ .ended outcome) (s : Stores BlobStore) :
    (c.advanceSweep time stage s).1 ≠ .ended .stillRunning := by
  cases stage with
  | called =>
      rw [advanceSweep]
      rcases c.cutoff_cases time with ⟨-, text, h⟩ | ⟨-, -, place, h⟩ | ⟨-, -, h⟩ <;>
      · rw [h]
        simp
  | timed cutoff =>
      rw [advanceSweep]
      cases s.records.references <;> simp
  | informed cutoff known => exact SweepStage.noConfusion
  | collecting cutoff left report => cases left <;> simp [advanceSweep]
  | ended outcome => exact absurd rfl (hstage outcome)

theorem moves_sweeping (c : Caretaker) (tick : Tick) {stage : SweepStage}
    (hstage : ∀ outcome, stage ≠ .ended outcome) (w : JobState σ BlobStore ν) :
    RunMove .orphans w (.sweeping stage) (c.advanceRun tick .orphans (.sweeping stage) w).1
      (c.advanceRun tick .orphans (.sweeping stage) w).2 := by
  have hrecords := c.records_advanceSweep tick.time stage w.stores
  have houtcome := c.advanceSweep_ne_stillRunning tick.time hstage w.stores
  rw [advanceRun]
  rcases hreached : c.advanceSweep tick.time stage w.stores with ⟨next, stores⟩
  rw [hreached] at hrecords houtcome
  have hspares : w.Spares { w with stores } :=
    ⟨rfl, rfl, fun id => Or.inl (congrArg (·.transaction? id) hrecords)⟩
  cases next with
  | ended outcome => exact .ended outcome rfl (fun h => houtcome (h ▸ rfl)) hspares
  | _ => exact .worked (by decide) rfl rfl ⟨rfl, fun _ => SweepStage.noConfusion⟩ hspares

/-- A run moves on as it can. -/
theorem moves_advanceRun (c : Caretaker) (tick : Tick) {stage : RunStage} (hfits : stage.Fits job)
    (w : JobState σ BlobStore ν) :
    RunMove job w stage (c.advanceRun tick job stage w).1 (c.advanceRun tick job stage w).2 := by
  cases stage with
  | called => exact c.moves_called tick w
  | begun => exact c.moves_begun tick w
  | archiving queue active report =>
      cases hfits
      exact c.moves_archiving tick queue active report w
  | notarizing pending report =>
      cases pending with
      | nil => exact .ended _ rfl RunOutcome.noConfusion (.refl w)
      | cons e pending => exact .submitted e pending report
  | submitted e pending report => exact c.moves_submitted tick e pending report w
  | answered e tx pending report => exact c.moves_answered tick e tx pending report w
  | sweeping stage =>
      obtain ⟨rfl, hstage⟩ := hfits
      exact c.moves_sweeping tick hstage w
  | ended outcome => exact .stayed rfl RunStage.noConfusion
  | abandoned => exact .stayed rfl RunStage.noConfusion

end Caretaker

end

/-! ## Activities -/

/-- Something that is going on, as far as it has come. -/
inductive Activity where
  | run (job : Job) (stage : RunStage)
  /-- A single item was asked for. -/
  | item (e : Errand)
  | archive (call : ArchiveCall) (stage : ArchiveStage)
  | restore (call : RestoreCall) (stage : RestoreStage)

/-- What can be called for. -/
inductive Order where
  | run (job : Job)
  | item (id : String)
  | archive (call : ArchiveCall)
  | restore (call : RestoreCall)

/-- How it begins. -/
def Order.activity : Order → Activity
  | run job => .run job .called
  | item id => .item ⟨id, .asked⟩
  | archive call => .archive call .called
  | restore call => .restore call .called

namespace Caretaker

/-- Takes something to its next stage. -/
def advanceActivity [ContentOrigin σ] [NotaryService ν] (c : Caretaker) (tick : Tick)
    (a : Activity) (w : JobState σ BlobStore ν) : Activity × JobState σ BlobStore ν :=
  match a with
  | .run job stage =>
    let reached := c.advanceRun tick job stage w
    (.run job reached.1, reached.2)
  | .item e =>
    let reached := c.advance tick.now e.id e.stage w
    (.item { e with stage := reached.1 }, reached.2)
  | .archive call stage =>
    let reached := call.advance tick.time stage w.stores
    (.archive call reached.1, { w with stores := reached.2 })
  | .restore call stage =>
    let reached := call.advance stage w.stores
    (.restore call reached.1, { w with stores := reached.2 })

/-- Stops waiting for something.  A run gives its lock back; anything else just stays
    where it is. -/
def leaveActivity (a : Activity) (w : JobState σ BlobStore ν) : Activity × JobState σ BlobStore ν :=
  match a with
  | .run job (.ended outcome) => (.run job (.ended outcome), w)
  | .run job stage => (.run job .abandoned, if stage.holds then release job w else w)
  | a => (a, w)

end Caretaker

/-! ## Shifts -/

/-- All that is going on, or was, and the state that it shares. -/
structure Shift (σ ν : Type) where
  world : JobState σ BlobStore ν
  activities : List Activity := []

/-- What happens next. -/
inductive ShiftEvent (σ ν : Type) where
  | call (order : Order)
  /-- What was called for as the `i`-th gets to its next stage. -/
  | work (i : Nat) (tick : Tick)
  /-- Whoever called for it does not wait for it any more. -/
  | leave (i : Nat)
  /-- All but the records and the locks becomes as it is here. -/
  | change (outside : JobState σ BlobStore ν)

namespace Shift

/-- Whether this was called for as the `i`-th and has come so far. -/
def Has (s : Shift σ ν) (i : Nat) (a : Activity) : Prop := s.activities[i]? = some a

/-- A shift in which the `i`-th activity has gone on. -/
def moved (s : Shift σ ν) (i : Nat) (reached : Activity × JobState σ BlobStore ν) : Shift σ ν :=
  ⟨reached.2, s.activities.set i reached.1⟩

/-- A shift with one more activity. -/
def joined (s : Shift σ ν) (order : Order) : Shift σ ν :=
  { s with activities := s.activities ++ [order.activity] }

/-- A shift in which something has changed by itself. -/
def changed (s : Shift σ ν) (outside : JobState σ BlobStore ν) : Shift σ ν :=
  { s with world := { outside with
      locks := s.world.locks
      stores := { outside.stores with records := s.world.stores.records } } }

variable {s : Shift σ ν} {i j : Nat} {a b : Activity} {order : Order}
  {reached : Activity × JobState σ BlobStore ν}

theorem Has.unique (h : s.Has i a) (h' : s.Has i b) : a = b := Option.some.inj (h.symm.trans h')

theorem Has.moved_self (h : s.Has i a) : (s.moved i reached).Has i reached.1 :=
  Positions.set_self h

theorem Has.moved_of_ne (h : s.Has j b) (hne : j ≠ i) : (s.moved i reached).Has j b :=
  Positions.set_of_ne h hne

theorem has_of_moved (h : (s.moved i reached).Has j b) :
    (j = i ∧ b = reached.1) ∨ (j ≠ i ∧ s.Has j b) := Positions.of_set h

theorem Has.joined (h : s.Has i a) : (s.joined order).Has i a := Positions.concat h

theorem has_of_joined (h : (s.joined order).Has i a) : s.Has i a ∨ a = order.activity :=
  (Positions.of_concat h).imp_right And.right

/-! ### Events -/

variable [ContentOrigin σ] [NotaryService ν]

/-- What an event makes of a shift. -/
def step (c : Caretaker) (s : Shift σ ν) : ShiftEvent σ ν → Shift σ ν
  | .call order => s.joined order
  | .work i tick =>
    match s.activities[i]? with
    | none => s
    | some a => s.moved i (c.advanceActivity tick a s.world)
  | .leave i =>
    match s.activities[i]? with
    | none => s
    | some a => s.moved i (Caretaker.leaveActivity a s.world)
  | .change outside => s.changed outside

/-- A shift after one event after the other. -/
def after (c : Caretaker) (s : Shift σ ν) (events : List (ShiftEvent σ ν)) : Shift σ ν :=
  events.foldl (step c) s

/-- A shift in which nothing was called for before these events. -/
def run (c : Caretaker) (w : JobState σ BlobStore ν) (events : List (ShiftEvent σ ν)) : Shift σ ν :=
  after c { world := w } events

variable {c : Caretaker}

theorem run_concat (w : JobState σ BlobStore ν) (events : List (ShiftEvent σ ν))
    (event : ShiftEvent σ ν) : run c w (events ++ [event]) = step c (run c w events) event :=
  List.foldl_append

theorem step_work (h : s.Has i a) (tick : Tick) :
    step c s (.work i tick) = s.moved i (c.advanceActivity tick a s.world) := by
  rw [step, show s.activities[i]? = some a from h]

theorem step_leave (h : s.Has i a) :
    step c s (.leave i) = s.moved i (Caretaker.leaveActivity a s.world) := by
  rw [step, show s.activities[i]? = some a from h]

/-- All that an event can come to. -/
inductive Change (c : Caretaker) (s : Shift σ ν) : ShiftEvent σ ν → Shift σ ν → Prop where
  | joined (order : Order) : Change c s (.call order) (s.joined order)
  | worked {i : Nat} {a : Activity} (tick : Tick) (h : s.Has i a) :
      Change c s (.work i tick) (s.moved i (c.advanceActivity tick a s.world))
  | left {i : Nat} {a : Activity} (h : s.Has i a) :
      Change c s (.leave i) (s.moved i (Caretaker.leaveActivity a s.world))
  /-- There is nothing of this number. -/
  | idle (event : ShiftEvent σ ν) : Change c s event s
  | changed (outside : JobState σ BlobStore ν) : Change c s (.change outside) (s.changed outside)

theorem change_step (c : Caretaker) (s : Shift σ ν) (event : ShiftEvent σ ν) :
    Change c s event (step c s event) := by
  cases event with
  | call order => exact .joined order
  | work i tick =>
      cases h : s.activities[i]? with
      | none =>
          rw [step, h]
          exact .idle _
      | some a =>
          have hhas : s.Has i a := h
          rw [step_work hhas]
          exact .worked tick hhas
  | leave i =>
      cases h : s.activities[i]? with
      | none =>
          rw [step, h]
          exact .idle _
      | some a =>
          have hhas : s.Has i a := h
          rw [step_leave hhas]
          exact .left hhas
  | change outside => exact .changed outside

end Shift

end ContentVault
