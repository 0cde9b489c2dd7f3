import ContentVault.Proofs.Jobs.Locking

/-! # Notarized once

    A run of the notarization job takes the entries without a transaction id from the
    table when it begins, and it writes a transaction id over whatever is there.  That
    none is ever replaced rests on the lock, which is held until the run has ended: what
    a run in progress still has to do awaits a transaction id (`IsPending`), because
    nobody else writes one.

    All that is done about notarizations is in a log, in the order of the events
    (`Shift.log`).  Nothing about an entry is in it after its transaction id was
    recorded (`pairwise_log`).

    Main statement: `Shift.runs_take_turns`. -/

namespace ContentVault

/-- What is done about the notarization of an entry. -/
inductive NotaryAct where
  /-- Its digest is submitted. -/
  | submitted (id : String)
  /-- Its transaction id is written. -/
  | recorded (id tx : String)
deriving DecidableEq

/-- The id of the entry. -/
def NotaryAct.id : NotaryAct → String
  | submitted id => id
  | recorded id _ => id

/-- The entries that a run still has to do with. -/
def RunStage.toDo : RunStage → List String
  | notarizing pending _ => pending.map fun e => e.record.id
  | submitted e pending _ => (e :: pending).map fun e => e.record.id
  | answered e _ pending _ => (e :: pending).map fun e => e.record.id
  | _ => []

namespace Activity

/-- The entries that an activity still has to notarize. -/
def toDo : Activity → List String
  | run _ stage => stage.toDo
  | _ => []

/-- What the next step of an activity does about notarizations. -/
def act? : Activity → Option NotaryAct
  | run _ (.notarizing (e :: _) _) => some (.submitted e.record.id)
  | run _ (.answered e tx _ _) => some (.recorded e.record.id tx)
  | _ => none

/-- Whether all that an activity still has to notarize awaits it, and nothing is to be
    notarized twice. -/
structure IsPending (a : Activity) (s : RecordStore) : Prop where
  nodup : a.toDo.Nodup
  awaits : ∀ id ∈ a.toDo, s.Awaits id

theorem IsPending.grows {a : Activity} {s t : RecordStore} (h : a.IsPending s)
    (hgrows : s.GrowsTo t) : a.IsPending t := ⟨h.nodup, fun id hid => hgrows.awaits (h.awaits id hid)⟩

theorem IsPending.of_nil {a : Activity} (h : a.toDo = []) (s : RecordStore) : a.IsPending s := by
  refine ⟨?_, fun id hid => ?_⟩
  · rw [h]
    exact List.nodup_nil
  · rw [h] at hid
    cases hid

/-- What is done about notarizations is done about an entry that was still to do. -/
theorem mem_toDo_of_act? {a : Activity} {act : NotaryAct} (h : a.act? = some act) :
    act.id ∈ a.toDo := by
  rw [act?.eq_def] at h
  split at h
  · cases h
    exact List.mem_cons_self
  · cases h
    exact List.mem_cons_self
  · cases h

/-- Only a run of the notarization job in progress has entries to notarize. -/
theorem IsSound.holds_of_mem_toDo {a : Activity} {id : String} (h : a.IsSound) (hid : id ∈ a.toDo) :
    a.holds .notarize = true := by
  cases a with
  | run job stage =>
      cases stage with
      | notarizing pending report =>
          cases h
          rfl
      | submitted e pending report =>
          cases h
          rfl
      | answered e tx pending report =>
          cases h
          rfl
      | _ => cases hid
  | _ => cases hid

end Activity

section

variable {σ ν : Type} [NotaryService ν] {own : Job} {stage next : RunStage}
  {w v : JobState σ BlobStore ν}

theorem RunStage.Fits.toDo_eq_nil {stage : RunStage} {job : Job} (h : stage.Fits job)
    (hjob : job ≠ .notarize) : stage.toDo = [] := by
  cases stage with
  | notarizing pending report => exact absurd h hjob
  | submitted e pending report => exact absurd h hjob
  | answered e tx pending report => exact absurd h hjob
  | _ => rfl

/-- A step that does not record a transaction id leaves those alone that there are. -/
theorem RunMove.grows (h : RunMove own w stage next v)
    (hact : ∀ id tx, (Activity.run own stage).act? ≠ some (.recorded id tx)) :
    w.stores.records.GrowsTo v.stores.records := by
  cases h with
  | worked _ _ _ _ hspares => exact hspares.records
  | ended _ _ _ hspares => exact hspares.records
  | recorded e _ _ tx => exact absurd rfl (hact e.record.id tx)
  | _ => exact .refl _

/-- What a run still has to do awaits it after a step as well. -/
theorem RunMove.isPending (h : RunMove own w stage next v)
    (hpending : (Activity.run own stage).IsPending w.stores.records) :
    (Activity.run own next).IsPending v.stores.records := by
  -- the first one is done with, and for the others nothing has changed
  have htail : ∀ {id : String} {ids : List String} {t : RecordStore}, stage.toDo = id :: ids →
      next.toDo = ids → (∀ other, other ≠ id →
        t.transaction? other = w.stores.records.transaction? other) →
      (Activity.run own next).IsPending t := by
    intro id ids t hstage hnext hothers
    have hnodup : (id :: ids).Nodup := hstage ▸ hpending.nodup
    refine ⟨?_, fun other hother => ?_⟩
    · rw [Activity.toDo, hnext]
      exact (List.nodup_cons.mp hnodup).2
    · rw [Activity.toDo, hnext] at hother
      have hne : other ≠ id := fun heq => (List.nodup_cons.mp hnodup).1 (heq ▸ hother)
      have hbefore := hpending.awaits other (by
        rw [Activity.toDo, hstage]
        exact List.mem_cons_of_mem id hother)
      exact (hothers other hne).trans hbefore
  cases h with
  | worked hjob _ _ hfits =>
      have hnothing : (Activity.run own next).toDo = [] := hfits.toDo_eq_nil hjob
      exact .of_nil hnothing _
  | surveyed =>
      refine ⟨w.stores.records.nodup_unnotarized, fun id hid => ?_⟩
      obtain ⟨e, he, rfl⟩ := List.mem_map.mp hid
      exact RecordStore.awaits_of_mem_unnotarized he
  | submitted => exact ⟨hpending.nodup, hpending.awaits⟩
  | declined => exact htail rfl rfl fun _ _ => rfl
  | answered => exact ⟨hpending.nodup, hpending.awaits⟩
  | recorded e pending report tx hset =>
      obtain ⟨t, ht, -, hothers⟩ :=
        RecordStore.setTransaction_of_awaits (hpending.awaits _ List.mem_cons_self) tx
      cases ht.symm.trans hset
      exact htail rfl rfl hothers
  | unrecorded => exact htail rfl rfl fun _ _ => rfl
  | stayed => exact hpending
  | _ => exact .of_nil rfl _

/-- A run asks the notarizer only when it submits a digest, and when it takes the answer. -/
theorem RunMove.notary (h : RunMove own w stage next v)
    (hact : ∀ id, (Activity.run own stage).act? ≠ some (.submitted id)) :
    v.notary = w.notary ∨ ∃ e pending report, stage = .submitted e pending report ∧
      v.notary
        = (NotaryService.settle w.notary e.record.id (Caretaker.notarizedHash e)).2 := by
  cases h with
  | worked _ _ _ _ hspares => exact Or.inl hspares.notary
  | ended _ _ _ hspares => exact Or.inl hspares.notary
  | submitted e => exact absurd rfl (hact e.record.id)
  | declined e pending report f hanswer =>
      exact Or.inr ⟨e, pending, report, rfl, by rw [hanswer]⟩
  | answered e pending report tx hanswer =>
      exact Or.inr ⟨e, pending, report, rfl, by rw [hanswer]⟩
  | _ => exact Or.inl rfl

variable [ContentOrigin σ] {a : Activity}

theorem Activity.IsSound.grows (h : a.IsSound) (c : Caretaker) (tick : Tick)
    (hact : ∀ id tx, a.act? ≠ some (.recorded id tx)) :
    w.stores.records.GrowsTo (c.advanceActivity tick a w).2.stores.records := by
  cases a with
  | run job stage => exact (c.moves_advanceRun tick h w).grows hact
  | item e => exact (c.spares_advance tick.now e.id e.stage w).records
  | archive call stage => exact call.grows_advance tick.time stage w.stores
  | restore call stage => exact call.grows_advance stage w.stores

theorem Activity.IsSound.isPending (h : a.IsSound) (c : Caretaker) (tick : Tick)
    (hpending : a.IsPending w.stores.records) :
    (c.advanceActivity tick a w).1.IsPending (c.advanceActivity tick a w).2.stores.records := by
  cases a with
  | run job stage => exact (c.moves_advanceRun tick h w).isPending hpending
  | _ => exact .of_nil rfl _

/-- To record a transaction id is to write it where there is none. -/
theorem Activity.IsPending.recorded (h : a.IsPending w.stores.records) (c : Caretaker) (tick : Tick)
    {id tx : String} (hact : a.act? = some (.recorded id tx)) :
    (c.advanceActivity tick a w).2.stores.records.transaction? id = some (.text tx) ∧
      ∀ other, other ≠ id →
        (c.advanceActivity tick a w).2.stores.records.transaction? other
          = w.stores.records.transaction? other := by
  obtain ⟨t, ht, hself, hothers⟩ :=
    RecordStore.setTransaction_of_awaits (h.awaits id (mem_toDo_of_act? hact)) tx
  rw [act?.eq_def] at hact
  split at hact
  · cases hact
  · cases hact
    rw [Caretaker.advanceActivity, Caretaker.advanceRun, ht]
    exact ⟨hself, hothers⟩
  · cases hact

/-- To submit the digest of an entry is all that the step does. -/
theorem Activity.advance_of_submitted (c : Caretaker) (tick : Tick) {id : String}
    (hact : a.act? = some (.submitted id)) :
    ∃ hash, (c.advanceActivity tick a w).2
      = { w with notary := NotaryService.submit w.notary id hash } := by
  rw [act?.eq_def] at hact
  split at hact
  · rename_i job e pending report
    cases hact
    exact ⟨Caretaker.notarizedHash e, rfl⟩
  · cases hact
  · cases hact

end

/-! ## The log -/

namespace Shift

variable {σ ν : Type}

/-- What an event does about notarizations. -/
def act? (s : Shift σ ν) : ShiftEvent σ ν → Option NotaryAct
  | .work i _ => s.activities[i]?.bind Activity.act?
  | _ => none

theorem exists_of_act? {s : Shift σ ν} {event : ShiftEvent σ ν} {act : NotaryAct}
    (h : s.act? event = some act) :
    ∃ i tick a, event = .work i tick ∧ s.Has i a ∧ a.act? = some act := by
  cases event with
  | work i tick =>
      obtain ⟨a, ha, hact⟩ := Option.bind_eq_some_iff.mp h
      exact ⟨i, tick, a, rfl, ha, hact⟩
  | _ => cases h

theorem act?_work {s : Shift σ ν} {i : Nat} {a : Activity} (h : s.Has i a) (tick : Tick) :
    s.act? (.work i tick) = a.act? := by
  rw [act?, show s.activities[i]? = some a from h, Option.bind_some]

variable [ContentOrigin σ] [NotaryService ν]

/-- All that is done about notarizations in one event after the other. -/
def log (c : Caretaker) (s : Shift σ ν) : List (ShiftEvent σ ν) → List NotaryAct
  | [] => []
  | event :: events => (s.act? event).toList ++ log c (step c s event) events

/-- A shift in which the runs in progress have the locks, and what they still have to do
    awaits it. -/
structure Orderly (s : Shift σ ν) : Prop extends Locked s where
  pending : ∀ i a, s.Has i a → a.IsPending s.world.stores.records

variable {c : Caretaker} {s : Shift σ ν} {event : ShiftEvent σ ν} {id tx : String}

theorem log_append (events more : List (ShiftEvent σ ν)) :
    log c s (events ++ more) = log c s events ++ log c (after c s events) more := by
  induction events generalizing s with
  | nil => rfl
  | cons event events ih =>
      rw [List.cons_append, log, log, ih, List.append_assoc]
      rfl

/-- A step that does not record a transaction id leaves those alone that there are. -/
theorem grows_step (h : Locked s) (hact : ∀ id tx, s.act? event ≠ some (.recorded id tx)) :
    s.world.stores.records.GrowsTo (step c s event).world.stores.records := by
  have hchange := change_step c s event
  generalize step c s event = t at hchange
  cases hchange with
  | worked tick ha =>
      refine (h.sound _ _ ha).grows c tick fun id tx => ?_
      rw [← act?_work ha tick]
      exact hact id tx
  | @left i a ha =>
      show s.world.stores.records.GrowsTo (Caretaker.leaveActivity a s.world).2.stores.records
      rw [a.world_leave]
      exact .refl _
  | _ => exact .refl _

namespace Orderly

omit [ContentOrigin σ] [NotaryService ν] in
/-- What is done about notarizations is done about an entry that awaits it. -/
theorem awaits (h : Orderly s) {act : NotaryAct} (hact : s.act? event = some act) :
    s.world.stores.records.Awaits act.id := by
  obtain ⟨i, tick, a, -, ha, hact⟩ := exists_of_act? hact
  exact (h.pending i a ha).awaits _ (Activity.mem_toDo_of_act? hact)

theorem recorded (h : Orderly s) (hact : s.act? event = some (.recorded id tx)) :
    (step c s event).world.stores.records.transaction? id = some (.text tx) ∧
      ∀ other, other ≠ id → (step c s event).world.stores.records.transaction? other
        = s.world.stores.records.transaction? other := by
  obtain ⟨i, tick, a, rfl, ha, hact⟩ := exists_of_act? hact
  rw [step_work ha]
  exact (h.pending i a ha).recorded c tick hact

/-- A transaction id that there is is never replaced. -/
theorem transaction?_step (h : Orderly s) (event : ShiftEvent σ ν)
    (hset : s.world.stores.records.IsNotarized id) :
    (step c s event).world.stores.records.transaction? id
      = s.world.stores.records.transaction? id := by
  by_cases hact : ∃ other tx, s.act? event = some (.recorded other tx)
  · -- what is written is the one of another entry, since that one awaits it
    obtain ⟨other, tx, hact⟩ := hact
    exact (h.recorded hact).2 id fun heq => hset.not_awaits (heq ▸ h.awaits hact)
  · push Not at hact
    exact (grows_step h.toLocked hact).transaction?_eq hset

/-- A step of one activity leaves to the others what they have to do. -/
theorem pending_moved (h : Orderly s) {i j : Nat} {a b : Activity} (ha : s.Has i a)
    (hb : s.Has j b) (hne : j ≠ i) (tick : Tick) :
    b.IsPending (c.advanceActivity tick a s.world).2.stores.records := by
  by_cases hact : ∃ id tx, a.act? = some (.recorded id tx)
  · obtain ⟨id, tx, hact⟩ := hact
    -- while it notarizes, no other one has anything to notarize
    refine .of_nil (List.eq_nil_iff_forall_not_mem.mpr fun other hother => hne ?_) _
    have hi : s.InProgress i .notarize := ha.inProgress_iff.mpr
      ((h.sound i a ha).holds_of_mem_toDo (Activity.mem_toDo_of_act? hact))
    have hj : s.InProgress j .notarize := hb.inProgress_iff.mpr
      ((h.sound j b hb).holds_of_mem_toDo hother)
    exact h.single .notarize j i hj hi
  · push Not at hact
    exact (h.pending j b hb).grows ((h.sound i a ha).grows c tick hact)

theorem step (h : Orderly s) (event : ShiftEvent σ ν) : Orderly (Shift.step c s event) where
  toLocked := h.toLocked.step event
  pending := by
    intro j b hb
    have hchange := Shift.change_step c s event
    generalize Shift.step c s event = t at hchange hb
    cases hchange with
    | joined order =>
        rcases has_of_joined hb with hb | rfl
        · exact h.pending j b hb
        · exact .of_nil (by cases order <;> rfl) _
    | worked tick ha =>
        rcases has_of_moved hb with ⟨-, rfl⟩ | ⟨hne, hb⟩
        · exact (h.sound _ _ ha).isPending c tick (h.pending _ _ ha)
        · exact h.pending_moved ha hb hne tick
    | @left i a ha =>
        show b.IsPending (Caretaker.leaveActivity a s.world).2.stores.records
        rw [a.world_leave]
        rcases has_of_moved hb with ⟨-, rfl⟩ | ⟨-, hb⟩
        · rcases a.leave_cases s.world with hsame | ⟨job, stage, -, hleft⟩
          · rw [hsame]
            exact h.pending i a ha
          · rw [hleft]
            exact .of_nil rfl _
        · exact h.pending j b hb
    | idle => exact h.pending j b hb
    | changed outside => exact h.pending j b hb

/-- Nothing is done about the notarization of an entry that has a transaction id. -/
theorem ne_of_mem_log (h : Orderly s) (hset : s.world.stores.records.IsNotarized id)
    {events : List (ShiftEvent σ ν)} {act : NotaryAct} (hact : act ∈ log c s events) :
    act.id ≠ id := by
  -- the transaction id is still there after the first event
  induction events generalizing s with
  | nil => cases hact
  | cons event events ih =>
      rcases List.mem_append.mp hact with hact | hact
      · rintro rfl
        exact hset.not_awaits (h.awaits (Option.mem_toList.mp hact))
      · refine ih (h.step event) ?_ hact
        obtain ⟨cell, hcell, hnull⟩ := hset
        exact ⟨cell, (h.transaction?_step event ⟨cell, hcell, hnull⟩).trans hcell, hnull⟩

/-- Nothing is done about the notarization of an entry after its transaction id was
    recorded. -/
theorem pairwise_log (h : Orderly s) (events : List (ShiftEvent σ ν)) :
    (log c s events).Pairwise fun a b => ∀ id tx, a = .recorded id tx → b.id ≠ id := by
  induction events generalizing s with
  | nil => exact List.Pairwise.nil
  | cons event events ih =>
      rw [log]
      cases hact : s.act? event with
      | none => exact ih (h.step event)
      | some act =>
          refine List.pairwise_cons.mpr ⟨?_, ih (h.step event)⟩
          rintro later hlater id tx rfl
          have hset : (Shift.step c s event).world.stores.records.IsNotarized id :=
            ⟨.text tx, (h.recorded hact).1, nofun⟩
          exact (h.step event).ne_of_mem_log hset hlater

end Orderly

variable {w : JobState σ BlobStore ν}

theorem orderly_run (hfree : ∀ job, (w.locks.get job).held = false)
    (events : List (ShiftEvent σ ν)) : Orderly (run c w events) := by
  induction events using List.reverseRecOn with
  | nil => exact ⟨locked_run (c := c) hfree [], fun i a ha => nomatch ha⟩
  | append_singleton events event ih =>
      rw [run_concat]
      exact ih.step event

/-- The notarizer is asked when a digest is submitted and when its answer is taken, and
    at no other time. -/
theorem notary_step (h : Locked s) (hevent : ∀ outside, event ≠ .change outside)
    (hact : ∀ id, s.act? event ≠ some (.submitted id)) :
    (step c s event).world.notary = s.world.notary ∨
    ∃ i tick job e pending report, event = .work i tick ∧
      s.Has i (.run job (.submitted e pending report)) ∧ (step c s event).world.notary
        = (NotaryService.settle s.world.notary e.record.id (Caretaker.notarizedHash e)).2 := by
  have hchange := change_step c s event
  generalize step c s event = t at hchange
  cases hchange with
  | @worked i a tick ha =>
      rw [act?_work ha] at hact
      cases a with
      | run job stage =>
          rcases (c.moves_advanceRun tick (h.sound _ _ ha) s.world).notary hact with
            hsame | ⟨e, pending, report, rfl, hanswer⟩
          · exact Or.inl hsame
          · exact Or.inr ⟨i, tick, job, e, pending, report, rfl, ha, hanswer⟩
      | item e => exact Or.inl (c.spares_advance tick.now e.id e.stage s.world).notary
      | archive call stage => exact Or.inl rfl
      | restore call stage => exact Or.inl rfl
  | @left i a ha =>
      refine Or.inl ?_
      show (Caretaker.leaveActivity a s.world).2.notary = s.world.notary
      rw [a.world_leave]
  | changed outside => exact absurd rfl (hevent outside)
  | _ => exact Or.inl rfl

/-! ## Taking turns -/

/-- What holds of the runs of a job, whatever else goes on. -/
structure IsExclusive (c : Caretaker) (s : Shift σ ν) : Prop where
  /-- At most one of them is in progress. -/
  single : ∀ job i j, s.InProgress i job → s.InProgress j job → i = j
  /-- While one is in progress, another one that is called for ends at once, and nothing
      else changes. -/
  refused : ∀ job i tick, s.Has i (.run job .called) → s.Running job →
    step c s (.work i tick) = s.moved i (.run job (.ended .stillRunning), s.world)
  /-- While none is in progress, one that is called for begins, whatever other jobs do. -/
  begins : ∀ job i tick, s.Has i (.run job .called) → ¬ s.Running job →
    step c s (.work i tick) = s.moved i (.run job .begun, { s.world with
      locks := s.world.locks.set job { s.world.locks.get job with held := true } })
  /-- In whatever way one ends, none is in progress afterwards, so that the next one
      begins. -/
  freed : ∀ job i event, s.InProgress i job → ¬ (step c s event).InProgress i job →
    ¬ (step c s event).Running job

/-- What holds of transaction ids, whatever goes on. -/
structure NotarizesOnce (c : Caretaker) (s : Shift σ ν) : Prop where
  /-- An entry whose digest is submitted has no transaction id. -/
  submitted : ∀ event id, s.act? event = some (.submitted id) →
    s.world.stores.records.Awaits id ∧ ∃ hash, (step c s event).world
      = { s.world with notary := NotaryService.submit s.world.notary id hash }
  /-- A transaction id is written where there is none. -/
  recorded : ∀ event id tx, s.act? event = some (.recorded id tx) →
    s.world.stores.records.Awaits id ∧
    (step c s event).world.stores.records.transaction? id = some (.text tx)
  /-- Nothing else changes them, but for new entries, which have none. -/
  unchanged : ∀ event id, (∀ tx, s.act? event ≠ some (.recorded id tx)) →
    (step c s event).world.stores.records.transaction? id
      = s.world.stores.records.transaction? id ∨
    s.world.stores.records.transaction? id = none ∧
      (step c s event).world.stores.records.Awaits id
  /-- The notarizer is asked when a digest is submitted and when its answer is taken. -/
  asked : ∀ event, (∀ outside, event ≠ .change outside) →
    (∀ id, s.act? event ≠ some (.submitted id)) →
    (step c s event).world.notary = s.world.notary ∨
    ∃ i tick job e pending report, event = .work i tick ∧
      s.Has i (.run job (.submitted e pending report)) ∧ (step c s event).world.notary
        = (NotaryService.settle s.world.notary e.record.id (Caretaker.notarizedHash e)).2

/-- What holds of jobs side by side, in whatever order their steps and those of others
    come. -/
structure TakesTurns (c : Caretaker) (w : JobState σ BlobStore ν)
    (events : List (ShiftEvent σ ν)) : Prop where
  exclusive : IsExclusive c (run c w events)
  /-- A run is turned away only by one of the same job, which was in progress when it
      should have begun. -/
  turnedAway : ∀ job i, (run c w events).Has i (.run job (.ended .stillRunning)) →
    ∃ before tick later, events = before ++ .work i tick :: later ∧
      (run c w before).Has i (.run job .called) ∧ (run c w before).Running job
  notarizing : NotarizesOnce c (run c w events)
  /-- Once the transaction id of an entry was recorded, it is not recorded and its digest
      is not submitted any more. -/
  once : (log c { world := w } events).Pairwise fun a b =>
    ∀ id tx, a = .recorded id tx → b.id ≠ id

theorem Locked.isExclusive (h : Locked s) : IsExclusive c s where
  single := h.single
  refused := fun _ _ tick hi hrunning => step_of_running h hi hrunning tick
  begins := fun _ _ tick hi hfree => step_of_not_running h hi hfree tick
  freed := fun _ _ event hi hend => not_running_of_ended h event hi hend

theorem Orderly.notarizesOnce (h : Orderly s) : NotarizesOnce c s where
  submitted := by
    intro event id hact
    refine ⟨h.awaits hact, ?_⟩
    obtain ⟨i, tick, a, rfl, ha, hact⟩ := exists_of_act? hact
    rw [step_work ha]
    exact Activity.advance_of_submitted c tick hact
  recorded := fun _ _ _ hact => ⟨h.awaits hact, (h.recorded hact).1⟩
  unchanged := by
    intro event id hnot
    by_cases hact : ∃ other tx, s.act? event = some (.recorded other tx)
    · obtain ⟨other, tx, hact⟩ := hact
      exact Or.inl ((h.recorded hact).2 id fun heq => hnot tx (heq ▸ hact))
    · push Not at hact
      exact grows_step h.toLocked hact id
  asked := fun _ hevent hact => notary_step h.toLocked hevent hact

/-- In whatever order the steps of runs, and of others, come: there is at most one run of
    a job at a time, and only that turns another one away; and no transaction id is
    written twice, nor asked for when there is one. -/
theorem runs_take_turns (c : Caretaker) {w : JobState σ BlobStore ν}
    (hfree : ∀ job, (w.locks.get job).held = false) (events : List (ShiftEvent σ ν)) :
    TakesTurns c w events where
  exclusive := (locked_run hfree events).isExclusive
  turnedAway := fun _ _ hi => turned_away hfree hi
  notarizing := (orderly_run hfree events).notarizesOnce
  once := (orderly_run (c := c) hfree []).pairwise_log events

end Shift

namespace Sample

/-- A vault with one entry, which has no transaction id. -/
def waiting : JobState Shelf BlobStore StandInNotary where
  origin := {}
  stores := {
    blobs := .empty
    records := ⟨[Row.ofEntry sealedEntry], by
      exact ⟨List.forall_mem_singleton.mpr (Row.isComplete_ofEntry _),
        List.pairwise_singleton _ _⟩⟩ }
  notary := {}
  guard := { threshold := 0 }

theorem unnotarized_waiting : waiting.stores.records.unnotarized = [sealedEntry] := by
  have hreadable : ∀ e ∈ [sealedEntry], e.IsReadable := by
    intro e he
    rw [List.mem_singleton.mp he]
    exact ⟨by decide, fun _ => by decide⟩
  show ((([sealedEntry].map Row.ofEntry).filterMap RecordStore.missing?).mergeSort
    RecordStore.comesBefore).map Prod.snd = [sealedEntry]
  rw [RecordStore.filterMap_missing? hreadable]
  exact congrArg (List.map Prod.snd) (List.mergeSort_singleton _)

/-- A step in which no item goes on. -/
def tick : Tick := ⟨0, draws.now, none⟩

/-- Two runs of the notarization job and one of the archive job are called for; the first
    one looks at what there is to do, and the others should begin. -/
def overlapping : List (ShiftEvent Shelf StandInNotary) :=
  [.call (.run .notarize), .call (.run .notarize), .call (.run .archive), .work 0 tick,
    .work 0 tick, .work 1 tick, .work 2 tick]

/-- The first one goes on to its end, and another one begins. -/
def following : List (ShiftEvent Shelf StandInNotary) :=
  [.work 0 tick, .work 0 tick, .work 0 tick, .work 0 tick, .call (.run .notarize),
    .work 3 tick]

/-- Where the first three have come to. -/
def opened : Shift Shelf StandInNotary where
  world := { waiting with locks := ⟨⟨.archive, true⟩, ⟨.notarize, true⟩, ⟨.orphans, false⟩⟩ }
  activities := [.run .notarize (.notarizing [sealedEntry] {}),
    .run .notarize (.ended .stillRunning), .run .archive .begun]

theorem run_overlapping : Shift.run hasty waiting overlapping = opened := by
  show (⟨_, [.run .notarize (.notarizing waiting.stores.records.unnotarized {}), _, _]⟩ :
    Shift Shelf StandInNotary) = opened
  rw [unnotarized_waiting]
  rfl

end Sample

namespace Shift

/-- Of two runs that overlap the second one is turned away, a run of another job begins,
    and so does the next one after the first; the entry is notarized once. -/
theorem runs_take_turns_of_overlap :
    (∀ job, (Sample.waiting.locks.get job).held = false) ∧
    TakesTurns Sample.hasty Sample.waiting (Sample.overlapping ++ Sample.following) ∧
    (run Sample.hasty Sample.waiting Sample.overlapping).Has 1
      (.run .notarize (.ended .stillRunning)) ∧
    (run Sample.hasty Sample.waiting Sample.overlapping).Has 2 (.run .archive .begun) ∧
    (run Sample.hasty Sample.waiting (Sample.overlapping ++ Sample.following)).Has 3
      (.run .notarize .begun) ∧
    ∃ tx, log Sample.hasty { world := Sample.waiting } (Sample.overlapping ++ Sample.following)
      = [.submitted "report", .recorded "report" tx] := by
  have hfree : ∀ job, (Sample.waiting.locks.get job).held = false := by
    intro job
    cases job <;> rfl
  have hrun : run Sample.hasty Sample.waiting (Sample.overlapping ++ Sample.following)
      = after Sample.hasty Sample.opened Sample.following := by
    rw [← Sample.run_overlapping]
    exact List.foldl_append
  refine ⟨hfree, runs_take_turns Sample.hasty hfree _, ?_, ?_, ?_, ?_⟩
  · rw [Sample.run_overlapping]
    rfl
  · rw [Sample.run_overlapping]
    rfl
  · rw [hrun]
    rfl
  · have hbefore : log Sample.hasty { world := Sample.waiting } Sample.overlapping = [] := rfl
    rw [log_append, hbefore, List.nil_append, ← run, Sample.run_overlapping]
    exact ⟨_, rfl⟩

end Shift

end ContentVault
