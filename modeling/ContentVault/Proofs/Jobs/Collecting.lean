import ContentVault.Jobs.Caretaker
import ContentVault.Origin.Shelf
import ContentVault.Proofs.Archiver.Archiving

/-! # What the orphan sweep takes

    The sweep compares references as texts but deletes what they lead to.  A
    file is therefore gone after it exactly if some blob was listed that is
    old enough, that no record names in the same spelling, and whose name
    leads to the file (`get?_collectAll`, `get?_run_orphans`).  That can be the
    file of a record, if this does not use the one spelling that the vault itself
    writes (`sweep_takes_capitals`). -/

namespace ContentVault

/-- A blob can be read through a reference exactly if that leads to its file. -/
theorem BlobStore.get_eq_ok_iff {s : BlobStore} {ref : String} {bytes : Bytes} :
    s.get ref = .ok { data := bytes } ↔
      ∃ name created, fileName? ref = some name ∧
        s.root.get? name = some (.file bytes created) := by
  constructor
  · intro h
    unfold get at h
    cases hname : fileName? ref with
    | none =>
        rw [hname] at h
        cases h
    | some name =>
        rw [hname, Option.bind_eq_bind, Option.bind_some] at h
        cases hnode : s.root.get? name with
        | none =>
            rw [hnode] at h
            cases h
        | some node =>
            rw [hnode] at h
            cases node with
            | folder => cases h
            | file bytes' created =>
                cases h
                exact ⟨name, created, rfl, hnode⟩
  · rintro ⟨name, created, hname, hfile⟩
    exact get_file hname hfile

namespace Caretaker

/-! ## Deleting what was listed -/

/-- Whether a blob that was listed is old enough to be deleted and leads to
    this file. -/
def Takes (cutoff : Int) (b : FoundBlob) (name : String) : Prop :=
  b.created.nanoseconds ≤ cutoff ∧ BlobStore.fileName? b.contentRef = some name

/-- What one step of the sweep comes to. -/
theorem collectOne_cases (cutoff : Int) (b : FoundBlob) (report : JobTally) (s : BlobStore) :
    (∃ name bytes created, Takes cutoff b name ∧ s.root.get? name = some (.file bytes created) ∧
      (collectOne cutoff b report s).2 = ⟨s.root.erase name⟩) ∨
    ((∀ name bytes created, Takes cutoff b name →
      s.root.get? name ≠ some (.file bytes created)) ∧ (collectOne cutoff b report s).2 = s) := by
  unfold collectOne
  by_cases hyoung : cutoff < b.created.nanoseconds
  · rw [if_pos hyoung]
    exact Or.inr ⟨fun _ _ _ h => absurd h.1 (Int.not_le.mpr hyoung), rfl⟩
  · rw [if_neg hyoung]
    have hold : b.created.nanoseconds ≤ cutoff := Int.not_lt.mp hyoung
    rcases s.delete_cases b.contentRef with ⟨name, bytes, created, hname, hfile, hdelete⟩
      | ⟨hnone, e, hdelete⟩
    · have hdelete' : BlobStorage.delete s b.contentRef = (.ok (), ⟨s.root.erase name⟩) := hdelete
      rw [hdelete']
      exact Or.inl ⟨name, bytes, created, ⟨hold, hname⟩, hfile, rfl⟩
    · have hdelete' : BlobStorage.delete s b.contentRef = (.error e, s) := hdelete
      rw [hdelete']
      exact Or.inr ⟨fun name bytes created h => hnone name bytes created h.2, rfl⟩

theorem collectAll_cons (cutoff : Int) (b : FoundBlob) (found : List FoundBlob)
    (report : JobTally) (s : BlobStore) :
    collectAll cutoff (b :: found) report s
      = collectAll cutoff found (collectOne cutoff b report s).1
          (collectOne cutoff b report s).2 := by
  generalize hone : collectOne cutoff b report s = out
  show (match collectOne cutoff b report s with
    | (report, blobs) => collectAll cutoff found report blobs) = _
  rw [hone]

/-- A name that is not in use stays so. -/
theorem get?_collectAll_of_none (cutoff : Int) (found : List FoundBlob) (report : JobTally)
    (s : BlobStore) {name : String} (h : s.root.get? name = none) :
    (collectAll cutoff found report s).2.root.get? name = none := by
  induction found generalizing report s with
  | nil => exact h
  | cons b found ih =>
      rw [collectAll_cons]
      apply ih
      rcases collectOne_cases cutoff b report s with ⟨other, -, -, -, -, hone⟩ | ⟨-, hone⟩
      · rw [hone]
        by_cases hother : name = other
        · rw [hother]
          exact s.root.get?_erase_self other
        · exact (s.root.get?_erase_of_ne hother).trans h
      · rw [hone]
        exact h

/-- One step of the sweep deletes a file exactly if the blob takes it. -/
theorem get?_collectOne (cutoff : Int) (b : FoundBlob) (report : JobTally) (s : BlobStore)
    {name : String} {bytes : Bytes} {created : Timestamp}
    (h : s.root.get? name = some (.file bytes created)) :
    (Takes cutoff b name ∧ (collectOne cutoff b report s).2.root.get? name = none) ∨
    (¬ Takes cutoff b name ∧
      (collectOne cutoff b report s).2.root.get? name = some (.file bytes created)) := by
  rcases collectOne_cases cutoff b report s with ⟨other, _, _, htakes, -, hone⟩ | ⟨hnone, hone⟩
  · rw [hone]
    by_cases hother : name = other
    · subst hother
      exact Or.inl ⟨htakes, s.root.get?_erase_self name⟩
    · -- a reference leads to one file only
      refine Or.inr ⟨fun hb => ?_, (s.root.get?_erase_of_ne hother).trans h⟩
      exact hother (Option.some.inj (hb.2.symm.trans htakes.2))
  · rw [hone]
    exact Or.inr ⟨fun hb => hnone name bytes created hb h, h⟩

/-- A file is deleted exactly if one of the listed blobs takes it. -/
theorem get?_collectAll (cutoff : Int) (found : List FoundBlob) (report : JobTally)
    (s : BlobStore) {name : String} {bytes : Bytes} {created : Timestamp}
    (h : s.root.get? name = some (.file bytes created)) :
    ((∃ b ∈ found, Takes cutoff b name) ∧
      (collectAll cutoff found report s).2.root.get? name = none) ∨
    ((∀ b ∈ found, ¬ Takes cutoff b name) ∧
      (collectAll cutoff found report s).2.root.get? name = some (.file bytes created)) := by
  induction found generalizing report s with
  | nil => exact Or.inr ⟨fun _ hb => (nomatch hb), h⟩
  | cons b found ih =>
      rw [collectAll_cons]
      rcases get?_collectOne cutoff b report s h with ⟨htakes, hgone⟩ | ⟨hnot, hstays⟩
      · exact Or.inl ⟨⟨b, List.mem_cons_self, htakes⟩,
          get?_collectAll_of_none cutoff found _ _ hgone⟩
      · rcases ih (collectOne cutoff b report s).1 (collectOne cutoff b report s).2 hstays with
          ⟨⟨b', hmem, htakes⟩, hgone⟩ | ⟨hnone, hkept⟩
        · exact Or.inl ⟨⟨b', List.mem_cons_of_mem _ hmem, htakes⟩, hgone⟩
        · exact Or.inr ⟨List.forall_mem_cons.mpr ⟨hnot, hnone⟩, hkept⟩

/-! ## What a run goes by -/

variable {σ ν : Type}

/-- What a run of the sweep goes by, if there is one: no other is going on, and
    both the time and the references can be read. -/
def sweepPlan (c : Caretaker) (time : Timestamp) (w : JobState σ BlobStore ν) :
    Option (Int × List String) :=
  if w.locks.orphans.held then none
  else
    match c.cutoff time, w.stores.records.references with
    | .ok cutoff, .ok known => some (cutoff, known)
    | _, _ => none

/-- Whether a run of the sweep deletes the file of this name: a blob is listed
    that leads to it, is old enough, and is named by no record. -/
def SweepTakes (c : Caretaker) (time : Timestamp) (w : JobState σ BlobStore ν)
    (name : String) : Prop :=
  ∃ cutoff known, c.sweepPlan time w = some (cutoff, known) ∧
    ∃ b ∈ w.stores.blobs.list, Takes cutoff b name ∧
      ∀ r ∈ w.stores.records.table.rows, r .contentRefId ≠ .text b.contentRef

/-- The references that a run goes by are those of the records. -/
theorem references_of_sweepPlan {c : Caretaker} {time : Timestamp} {w : JobState σ BlobStore ν}
    {cutoff : Int} {known : List String} (h : c.sweepPlan time w = some (cutoff, known)) :
    w.stores.records.references = .ok known := by
  unfold sweepPlan at h
  split at h
  · cases h
  · split at h
    · rename_i hreferences
      cases h
      exact hreferences
    · cases h

/-- What is to be collected: the listed blobs that no record names. -/
theorem mem_unreferenced {c : Caretaker} {time : Timestamp} {w : JobState σ BlobStore ν}
    {cutoff : Int} {known : List String} (h : c.sweepPlan time w = some (cutoff, known))
    {b : FoundBlob} :
    b ∈ (w.stores.blobs.list.filter fun b => !known.contains b.contentRef) ↔
      b ∈ w.stores.blobs.list ∧
        ∀ r ∈ w.stores.records.table.rows, r .contentRefId ≠ .text b.contentRef := by
  have hmem : b.contentRef ∈ known ↔
      ∃ r ∈ w.stores.records.table.rows, r .contentRefId = .text b.contentRef :=
    RecordStore.mem_references (references_of_sweepPlan h)
  rw [List.mem_filter, Bool.not_eq_true', List.contains_eq_mem, decide_eq_false_iff_not, hmem]
  constructor
  · rintro ⟨hlisted, hnone⟩
    exact ⟨hlisted, fun r hr href => hnone ⟨r, hr, href⟩⟩
  · rintro ⟨hlisted, hnone⟩
    exact ⟨hlisted, fun ⟨r, hr, href⟩ => hnone r hr href⟩

/-! ## A run of the sweep -/

variable [ContentOrigin σ] [NotaryService ν]

/-- The stores after a run of the sweep. -/
theorem stores_run_orphans (c : Caretaker) (now : Instant) (time : Timestamp)
    (w : JobState σ BlobStore ν) :
    (c.run now time .orphans w).2.stores =
      match c.sweepPlan time w with
      | none => w.stores
      | some (cutoff, known) =>
        { w.stores with
          blobs := (collectAll cutoff
            (w.stores.blobs.list.filter fun b => !known.contains b.contentRef) {}
            w.stores.blobs).2 } := by
  obtain ⟨origin, stores, notary, guard, locks, drawn⟩ := w
  unfold run begin survey sweepPlan RunLock.acquire
  -- a run that finds another one going on, or cannot make its plan, does nothing
  cases hheld : locks.orphans.held with
  | true => simp only [RunLocks.get, hheld, if_true]
  | false =>
      cases c.cutoff time with
      | error outcome => simp [RunLocks.get, hheld, release]
      | ok cutoff =>
          cases hknown : stores.records.references with
          | error e => simp [RunLocks.get, hheld, hknown, release]
          | ok known =>
              simp [RunLocks.get, hheld, hknown, release, finish, work, collect, unreferenced]
              rfl

/-- A run of the sweep deletes a file or leaves it as it is. -/
theorem get?_run_orphans (c : Caretaker) (now : Instant) (time : Timestamp)
    (w : JobState σ BlobStore ν) {name : String} {bytes : Bytes} {created : Timestamp}
    (h : w.stores.blobs.root.get? name = some (.file bytes created)) :
    (c.SweepTakes time w name ∧
      (c.run now time .orphans w).2.stores.blobs.root.get? name = none) ∨
    (¬ c.SweepTakes time w name ∧
      (c.run now time .orphans w).2.stores.blobs.root.get? name = some (.file bytes created)) := by
  rw [stores_run_orphans]
  cases hplan : c.sweepPlan time w with
  | none =>
      refine Or.inr ⟨?_, h⟩
      rintro ⟨cutoff, known, hsome, -⟩
      cases hplan.symm.trans hsome
  | some plan =>
      obtain ⟨cutoff, known⟩ := plan
      rcases get?_collectAll cutoff
        (w.stores.blobs.list.filter fun b => !known.contains b.contentRef) {} w.stores.blobs h
        with ⟨⟨b, hb, htakes⟩, hgone⟩ | ⟨hnone, hstays⟩
      · have hfound := (mem_unreferenced hplan).mp hb
        exact Or.inl ⟨⟨cutoff, known, hplan, b, hfound.1, htakes, hfound.2⟩, hgone⟩
      · refine Or.inr ⟨?_, hstays⟩
        rintro ⟨cutoff', known', hsome, b, hlisted, htakes, hunnamed⟩
        cases hplan.symm.trans hsome
        exact hnone b ((mem_unreferenced hplan).mpr ⟨hlisted, hunnamed⟩) htakes

/-- A blob that can be read through a reference can be read through it after a
    run of the sweep exactly if the run does not take the file that the
    reference leads to. -/
theorem sweep_keeps_iff (c : Caretaker) (now : Instant) (time : Timestamp)
    (w : JobState σ BlobStore ν) {ref : String} {bytes : Bytes}
    (hget : w.stores.blobs.get ref = .ok { data := bytes }) :
    (c.run now time .orphans w).2.stores.blobs.get ref = .ok { data := bytes } ↔
      ∀ name, BlobStore.fileName? ref = some name → ¬ c.SweepTakes time w name := by
  obtain ⟨name, created, hname, hfile⟩ := BlobStore.get_eq_ok_iff.mp hget
  rw [BlobStore.get_eq_ok_iff]
  constructor
  · rintro ⟨name', created', hname', hfile'⟩ other hother
    cases hname.symm.trans hname'
    cases hname.symm.trans hother
    rcases c.get?_run_orphans now time w hfile with ⟨-, hgone⟩ | ⟨hkept, -⟩
    · cases hgone.symm.trans hfile'
    · exact hkept
  · intro hkept
    rcases c.get?_run_orphans now time w hfile with ⟨htakes, -⟩ | ⟨-, hstays⟩
    · exact absurd htakes (hkept name hname)
    · exact ⟨name, created, hname, hstays⟩

end Caretaker

/-! ## A record in capitals -/

namespace Sample

/-- The UUID of `capitals`. -/
def blobId : Uuid := .ofNat 10

/-- A spelling of a UUID that the vault does not write but reads. -/
def capitals : String := "00000000-0000-4000-8000-00000000000A"

/-- The record of three bytes that were stored as they came, with the reference
    in capitals. -/
def capitalEntry : Entry where
  record := ⟨"report", draws.now, false, [], none, none⟩
  content := ⟨capitals, "BLAKE3", "", false, 1, "HKDF", none, draws.salt, none⟩

/-- A caretaker that gives blobs no time. -/
def hasty : Caretaker where
  archiver := archiver
  rules := ⟨"flagged", 1, {}, false, 0⟩
  draws := fun _ => draws

/-- A vault with that record and its file. -/
def capitalVault : JobState Shelf BlobStore StandInNotary where
  origin := {}
  stores := {
    blobs := ⟨Directory.empty.set blobId.text (.file [104, 105, 33] draws.now)⟩
    records := ⟨[Row.ofEntry capitalEntry], by
      exact ⟨List.forall_mem_singleton.mpr (Row.isComplete_ofEntry _),
        List.pairwise_singleton _ _⟩⟩ }
  notary := {}
  guard := { threshold := 0 }

theorem fileName?_capitals : BlobStore.fileName? capitals = some blobId.text := by
  decide

end Sample

namespace Caretaker

/-- A run of the sweep deletes the blob of a record that names it in capitals. -/
theorem sweep_takes_capitals :
    (∃ r ∈ Sample.capitalVault.stores.records.table.rows,
      r .contentRefId = .text Sample.capitals) ∧
    Sample.capitalVault.stores.blobs.get Sample.capitals = .ok { data := [104, 105, 33] } ∧
    (Sample.hasty.run 0 Sample.draws.now .orphans Sample.capitalVault).2.stores.blobs.get
      Sample.capitals ≠ .ok { data := [104, 105, 33] } := by
  have hfile : Sample.capitalVault.stores.blobs.root.get? Sample.blobId.text
      = some (.file [104, 105, 33] Sample.draws.now) := Directory.get?_set_self _ _ _
  have hget := BlobStore.get_file Sample.fileName?_capitals hfile
  refine ⟨⟨_, List.mem_singleton_self _, rfl⟩, hget, fun hkept => ?_⟩
  apply (sweep_keeps_iff Sample.hasty 0 Sample.draws.now Sample.capitalVault hget).mp hkept
    Sample.blobId.text Sample.fileName?_capitals
  have hlisted : (⟨Sample.blobId.text, Sample.draws.now⟩ : FoundBlob)
      ∈ Sample.capitalVault.stores.blobs.list :=
    (BlobStore.mem_list_iff _).mpr ⟨⟨_, hfile⟩, _, BlobStore.fileName?_text _⟩
  refine ⟨_, [Sample.capitals], rfl, _, hlisted, ⟨?_, BlobStore.fileName?_text _⟩, ?_⟩
  · decide
  · intro r hr href
    rw [List.mem_singleton.mp hr] at href
    exact absurd (Cell.text.inj href) (by decide)

end Caretaker

end ContentVault
