import ContentVault.Proofs.Archiver.Stages
import ContentVault.Proofs.Jobs.Collecting
import Mathlib.Data.List.Induction
import Mathlib.Logic.Function.Basic

/-! # Archiving and sweeping side by side

    Any number of calls archive content while any number of orphan sweeps go on,
    all over the same stores.  A sweep reads the clock, reads the references,
    lists the blobs and then deletes one after the other; as with an
    `ArchiveCall`, others come in between, and `Caretaker.advanceSweep` takes it
    from one stage to the next.  `Traffic` is all of them over the stores that
    they share, and its events come in any order.

    A sweep that nobody comes in between of is a run of the orphan job
    (`exists_proceedSweep_eq`). -/

namespace ContentVault

/-! ## Sweeps -/

/-- How far an orphan sweep has come. -/
inductive SweepStage where
  | called
  /-- The clock was read, which says what is too young. -/
  | timed (cutoff : Int)
  /-- The references of the records were read. -/
  | informed (cutoff : Int) (known : List String)
  /-- These blobs are left of those that were listed and not referred to. -/
  | collecting (cutoff : Int) (left : List FoundBlob) (report : JobTally)
  | ended (outcome : RunOutcome)

namespace Caretaker

/-- Takes a sweep to its next stage. -/
def advanceSweep (c : Caretaker) (now : Timestamp) (stage : SweepStage) (s : Stores BlobStore) :
    SweepStage × Stores BlobStore :=
  match stage with
  | .called =>
    match c.cutoff now with
    | .error outcome => (.ended outcome, s)
    | .ok cutoff => (.timed cutoff, s)
  | .timed cutoff =>
    match s.records.references with
    | .error e => (.ended (.failed e), s)
    | .ok known => (.informed cutoff known, s)
  | .informed cutoff known =>
    match unreferenced known s.blobs with
    | .error e => (.ended (.failed e), s)
    | .ok found => (.collecting cutoff found {}, s)
  | .collecting _ [] report => (.ended (.finished report), s)
  | .collecting cutoff (b :: left) report =>
    (.collecting cutoff left (collectOne cutoff b report s.blobs).1,
      { s with blobs := (collectOne cutoff b report s.blobs).2 })
  | .ended outcome => (.ended outcome, s)

/-- Takes a sweep a number of stages further, with nothing in between. -/
def proceedSweep (c : Caretaker) (now : Timestamp) :
    Nat → SweepStage × Stores BlobStore → SweepStage × Stores BlobStore
  | 0, reached => reached
  | k + 1, reached => c.proceedSweep now k (c.advanceSweep now reached.1 reached.2)

/-- A sweep leaves the records alone. -/
theorem records_advanceSweep (c : Caretaker) (now : Timestamp) (stage : SweepStage)
    (s : Stores BlobStore) : (c.advanceSweep now stage s).2.records = s.records := by
  cases stage with
  | called =>
      rw [advanceSweep]
      split <;> rfl
  | timed cutoff =>
      rw [advanceSweep]
      split <;> rfl
  | informed cutoff known => rfl
  | collecting cutoff left report => cases left <;> rfl
  | ended outcome => rfl

/-! ## A sweep by itself -/

/-- The blobs that are left are collected one by one as they are collected at
    once. -/
theorem proceedSweep_collecting (c : Caretaker) (now : Timestamp) (cutoff : Int)
    (left : List FoundBlob) (report : JobTally) (s : Stores BlobStore) :
    c.proceedSweep now (left.length + 1) (.collecting cutoff left report, s)
      = (.ended (.finished (collectAll cutoff left report s.blobs).1),
          { s with blobs := (collectAll cutoff left report s.blobs).2 }) := by
  induction left generalizing report s with
  | nil => rfl
  | cons b left ih =>
      rw [collectAll_cons, List.length_cons, proceedSweep, advanceSweep]
      exact ih _ _

variable {σ ν : Type} [ContentOrigin σ] [NotaryService ν]

/-- With nothing in between, a sweep is a run of the orphan job. -/
theorem exists_proceedSweep_eq (c : Caretaker) (now : Instant) (time : Timestamp)
    (w : JobState σ BlobStore ν) (hfree : w.locks.orphans.held = false) :
    ∃ k, c.proceedSweep time k (.called, w.stores)
      = (.ended (c.run now time .orphans w).1, (c.run now time .orphans w).2.stores) := by
  obtain ⟨origin, stores, notary, guard, locks, drawn⟩ := w
  have hacquire : (locks.get .orphans).acquire = some { locks.get .orphans with held := true } :=
    if_neg (Bool.eq_false_iff.mp hfree)
  rw [run, begin, hacquire]
  cases hcutoff : c.cutoff time with
  | error outcome =>
      refine ⟨1, ?_⟩
      rw [proceedSweep, advanceSweep, hcutoff]
      simp [survey, hcutoff, release, proceedSweep]
  | ok cutoff =>
      cases hknown : stores.records.references with
      | error e =>
          refine ⟨2, ?_⟩
          rw [proceedSweep, advanceSweep, hcutoff]
          simp only
          rw [proceedSweep, advanceSweep, hknown]
          simp [survey, hcutoff, hknown, release, proceedSweep]
      | ok known =>
          refine ⟨(stores.blobs.list.filter fun b => !known.contains b.contentRef).length + 4, ?_⟩
          rw [proceedSweep, advanceSweep, hcutoff]
          simp only
          rw [proceedSweep, advanceSweep, hknown]
          have hlisted : unreferenced known stores.blobs
              = .ok (stores.blobs.list.filter fun b => !known.contains b.contentRef) := rfl
          rw [proceedSweep, advanceSweep, hlisted]
          simp only [proceedSweep_collecting]
          simp only [survey, hcutoff, hknown, release, finish, work, collect, hlisted]

end Caretaker

/-! ## Traffic -/

/-- The calls and the sweeps, as far as they have come, and the stores that they
    share. -/
structure Traffic (ι κ : Type) where
  stores : Stores BlobStore
  archives : ι → ArchiveStage := fun _ => .called
  sweeps : κ → SweepStage := fun _ => .called

/-- What happens next: a call or a sweep gets to its next stage at this moment. -/
inductive TrafficEvent (ι κ : Type) where
  | archive (i : ι) (now : Timestamp)
  | sweep (j : κ) (now : Timestamp)
deriving DecidableEq

/-- The reading of the clock. -/
def TrafficEvent.now {ι κ : Type} : TrafficEvent ι κ → Timestamp
  | archive _ now => now
  | sweep _ now => now

namespace Traffic

variable {ι κ : Type} [DecidableEq ι] [DecidableEq κ]

/-- What one event makes of the traffic. -/
def step (calls : ι → ArchiveCall) (c : Caretaker) (w : Traffic ι κ) :
    TrafficEvent ι κ → Traffic ι κ
  | .archive i now =>
    let reached := (calls i).advance now (w.archives i) w.stores
    { w with stores := reached.2, archives := Function.update w.archives i reached.1 }
  | .sweep j now =>
    let reached := c.advanceSweep now (w.sweeps j) w.stores
    { w with stores := reached.2, sweeps := Function.update w.sweeps j reached.1 }

/-- The traffic after one event after the other. -/
def run (calls : ι → ArchiveCall) (c : Caretaker) (s : Stores BlobStore)
    (events : List (TrafficEvent ι κ)) : Traffic ι κ :=
  events.foldl (step calls c) { stores := s }

/-- The rows of the table. -/
def rows (w : Traffic ι κ) : List Row := w.stores.records.table.rows

variable {calls : ι → ArchiveCall} {c : Caretaker} {s : Stores BlobStore} {w : Traffic ι κ}

theorem run_append (events more : List (TrafficEvent ι κ)) :
    run calls c s (events ++ more) = more.foldl (step calls c) (run calls c s events) :=
  List.foldl_append

theorem run_concat (events : List (TrafficEvent ι κ)) (event : TrafficEvent ι κ) :
    run calls c s (events ++ [event]) = step calls c (run calls c s events) event :=
  run_append events [event]

/-- The stage of the call that an event is about. -/
theorem archives_step_self (i : ι) (now : Timestamp) :
    (step calls c w (.archive i now)).archives i
      = ((calls i).advance now (w.archives i) w.stores).1 := Function.update_self ..

/-- An event of one call leaves the stages of the others. -/
theorem archives_step_of_ne {i j : ι} (h : j ≠ i) (now : Timestamp) :
    (step calls c w (.archive i now)).archives j = w.archives j := Function.update_of_ne h ..

theorem archives_step_sweep (j : κ) (now : Timestamp) :
    (step calls c w (.sweep j now)).archives = w.archives := rfl

theorem sweeps_step_self (j : κ) (now : Timestamp) :
    (step calls c w (.sweep j now)).sweeps j = (c.advanceSweep now (w.sweeps j) w.stores).1 :=
  Function.update_self ..

theorem sweeps_step_of_ne {j k : κ} (h : k ≠ j) (now : Timestamp) :
    (step calls c w (.sweep j now)).sweeps k = w.sweeps k := Function.update_of_ne h ..

theorem rows_step_sweep (j : κ) (now : Timestamp) :
    (step calls c w (.sweep j now)).rows = w.rows :=
  congrArg (fun records => records.table.rows) (c.records_advanceSweep now _ _)

/-- Whether every call has come to a stage with its own key and outcome. -/
def Reaches (calls : ι → ArchiveCall) (w : Traffic ι κ) : Prop :=
  ∀ i, (calls i).Reaches (w.archives i)

/-- What an event of a call comes to. -/
theorem Reaches.moves (h : Reaches calls w) (c : Caretaker) (i : ι) (now : Timestamp) :
    (calls i).Moves now w.stores (w.archives i) ((step calls c w (.archive i now)).archives i)
      (step calls c w (.archive i now)).stores := by
  rw [archives_step_self]
  exact ArchiveCall.moves_advance (h i) now w.stores

theorem Reaches.step (h : Reaches calls w) (event : TrafficEvent ι κ) :
    Reaches calls (Traffic.step calls c w event) := by
  cases event with
  | sweep j now => exact h
  | archive i now =>
      intro k
      by_cases hk : k = i
      · subst hk
        exact (h.moves c k now).reaches
      · rw [archives_step_of_ne hk]
        exact h k

theorem reaches_run (events : List (TrafficEvent ι κ)) : Reaches calls (run calls c s events) := by
  induction events using List.reverseRecOn with
  | nil => exact fun i => trivial
  | append_singleton events event ih =>
      rw [run_concat]
      exact ih.step event

/-- A call that has ended stays so. -/
theorem ended_step {i : ι} {result : Attempt ArchiveReceipt} (h : w.archives i = .ended result)
    (event : TrafficEvent ι κ) : (step calls c w event).archives i = .ended result := by
  cases event with
  | sweep j now => exact h
  | archive k now =>
      by_cases hk : i = k
      · subst hk
        rw [archives_step_self, h]
        rfl
      · rw [archives_step_of_ne hk]
        exact h

/-! ## Who has archived -/

/-- Whether a call has archived its content. -/
def HasArchived (w : Traffic ι κ) (i : ι) : Prop :=
  ∃ receipt, w.archives i = .ended (.ok receipt)

theorem HasArchived.step {i : ι} (h : w.HasArchived i) (event : TrafficEvent ι κ) :
    (Traffic.step calls c w event).HasArchived i := by
  obtain ⟨receipt, hreceipt⟩ := h
  exact ⟨receipt, ended_step hreceipt event⟩

theorem HasArchived.run_append {before : List (TrafficEvent ι κ)} {i : ι}
    (h : (run calls c s before).HasArchived i) (rest : List (TrafficEvent ι κ)) :
    (run calls c s (before ++ rest)).HasArchived i := by
  induction rest using List.reverseRecOn with
  | nil =>
      rw [List.append_nil]
      exact h
  | append_singleton rest event ih =>
      rw [← List.append_assoc, run_concat]
      exact ih.step event

/-- An event in which a call saves its entry. -/
structure Saves (calls : ι → ArchiveCall) (c : Caretaker) (w : Traffic ι κ) (i : ι)
    (created now : Timestamp) : Prop where
  ready : w.archives i = .stored (calls i).key created (calls i).outcome
  new : w.stores.records.table.find? (calls i).content.id = none
  receipt : ∃ verify, (step calls c w (.archive i now)).archives i
    = .ended (.ok ((calls i).archiver.receipt (calls i).key (calls i).content (calls i).outcome
        verify))
  rows : (step calls c w (.archive i now)).rows
    = w.rows ++ [Row.ofEntry ((calls i).entryAt now)]
  blobs : (step calls c w (.archive i now)).stores.blobs = w.stores.blobs

/-- An event of a call leaves the rows alone, or the call saves its entry. -/
theorem rows_step_archive (h : Reaches calls w) (c : Caretaker) (i : ι) (now : Timestamp) :
    ((step calls c w (.archive i now)).rows = w.rows ∧
      ∀ k, (step calls c w (.archive i now)).HasArchived k → w.HasArchived k) ∨
    ∃ created, Saves calls c w i created now := by
  -- a call other than this one is where it was
  have hother : (∀ receipt, (step calls c w (.archive i now)).archives i
        = .ended (.ok receipt) → w.archives i = .ended (.ok receipt)) →
      ∀ k, (step calls c w (.archive i now)).HasArchived k → w.HasArchived k := by
    rintro hself k ⟨receipt, hk⟩
    by_cases hki : k = i
    · subst hki
      exact ⟨receipt, hself receipt hk⟩
    · rw [archives_step_of_ne hki] at hk
      exact ⟨receipt, hk⟩
  have hmoves := h.moves c i now
  generalize hstage : w.archives i = stage at hmoves
  generalize hnext : (step calls c w (.archive i now)).archives i = next at hmoves
  generalize hstores : (step calls c w (.archive i now)).stores = t at hmoves
  have hrows : (step calls c w (.archive i now)).rows = t.records.table.rows := by
    rw [← hstores]
    rfl
  rw [hstage, hnext] at hother
  rw [hrows]
  cases hmoves with
  | saved created verify records hvouched hnew hsaved =>
      exact Or.inr ⟨created, hstage, hnew, ⟨verify, hnext⟩, hrows.trans hsaved,
        (congrArg Stores.blobs hstores).trans rfl⟩
  | ended result => exact Or.inl ⟨rfl, hother fun _ h => h⟩
  | _ => exact Or.inl ⟨rfl, hother fun _ h => nomatch h⟩

/-- An event leaves the rows alone, or it is one in which a call saves its
    entry. -/
theorem rows_step_cases (h : Reaches calls w) (c : Caretaker) (event : TrafficEvent ι κ) :
    ((step calls c w event).rows = w.rows ∧
      ∀ k, (step calls c w event).HasArchived k → w.HasArchived k) ∨
    ∃ i created now, event = .archive i now ∧ Saves calls c w i created now := by
  cases event with
  | sweep j now => exact Or.inl ⟨rows_step_sweep j now, fun k hk => hk⟩
  | archive i now =>
      rcases rows_step_archive h c i now with hsame | ⟨created, hsaves⟩
      · exact Or.inl hsame
      · exact Or.inr ⟨i, created, now, rfl, hsaves⟩

end Traffic

end ContentVault
