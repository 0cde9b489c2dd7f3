import ContentVault.Proofs.Jobs.Notarizing
import ContentVault.Proofs.Store.Readback

/-! # A run of the notarization job from end to end

    The run takes the entries without a transaction id from the table and calls
    the notarizer for one after the other.  What comes of a call concerns the row
    of its entry alone: a refusal leaves it, a transaction id is put into it, and
    that cannot fail, because the row is there and has none (`settle_eq`).  So the
    calls that were made say everything about the run: which entries they were
    for, what became of the rows and what the report counts (`notarizeAll_eq`).

    Which calls are made is what the notarizer itself can tell.  One that keeps a
    list of them stands for any other (`Overheard`).

    Main statement: `notarizes_from_end_to_end`. -/

namespace ContentVault

/-! ## Calls -/

/-- A call of a notarizer: what it is given and what it answers. -/
structure NotaryCall where
  id : String
  hash : Fingerprint
  answer : Attempt String

/-- What a notarizer can tell of. -/
inductive NotaryEvent where
  /-- A digest is submitted under an id. -/
  | submitted (id : String) (hash : Fingerprint)
  /-- The call for it has a result. -/
  | settled (id : String) (hash : Fingerprint) (answer : Attempt String)

namespace NotaryCall

/-- Whether a call gave a transaction id. -/
def isGranted (call : NotaryCall) : Bool := call.answer.toOption.isSome

/-- A call as the notarizer tells of it. -/
def events (call : NotaryCall) : List NotaryEvent :=
  [.submitted call.id call.hash, .settled call.id call.hash call.answer]

/-- What a call leaves of a row of the table. -/
def onRow (call : NotaryCall) (r : Row) : Row :=
  match call.answer with
  | .ok tx => (EntryUpdate.notarized call.id tx).onRow r
  | .error _ => r

end NotaryCall

/-- A notarizer with a list of all that it was told and has told. -/
structure Overheard (ν : Type) where
  notary : ν
  heard : List NotaryEvent := []

instance {ν : Type} [NotaryService ν] : NotaryService (Overheard ν) where
  submit n id hash := ⟨NotaryService.submit n.notary id hash, n.heard ++ [.submitted id hash]⟩
  settle n id hash :=
    let (answer, notary) := NotaryService.settle n.notary id hash
    (answer, ⟨notary, n.heard ++ [.settled id hash answer]⟩)
  delayMillis n := NotaryService.delayMillis n.notary

/-- The same state with another notarizer. -/
def JobState.withNotary {σ β ν μ : Type} (w : JobState σ β ν) (n : μ) : JobState σ β μ :=
  { w with notary := n }

namespace Caretaker

section

variable {ν : Type} [NotaryService ν]

/-- The call for an entry, and the notarizer after it. -/
def callFor (e : Entry) (n : ν) : NotaryCall × ν :=
  let (answer, n) := NotaryService.settle (NotaryService.submit n e.record.id (notarizedHash e))
    e.record.id (notarizedHash e)
  (⟨e.record.id, notarizedHash e, answer⟩, n)

/-- The calls for one entry after the other, and the notarizer after them. -/
def callAll : List Entry → ν → List NotaryCall × ν
  | [], n => ([], n)
  | e :: pending, n =>
    let (call, n) := callFor e n
    let (calls, n) := callAll pending n
    (call :: calls, n)

/-- There is one call for each entry, with its id and its digest. -/
theorem map_callAll (pending : List Entry) (n : ν) :
    (callAll pending n).1.map (fun call => (call.id, call.hash))
      = pending.map fun e => (e.record.id, notarizedHash e) := by
  induction pending generalizing n with
  | nil => rfl
  | cons e pending ih => exact congrArg (_ :: ·) (ih (callFor e n).2)

/-- To be overheard changes nothing for a notarizer, and all its calls are
    heard. -/
theorem callAll_overheard (pending : List Entry) (n : ν) (heard : List NotaryEvent) :
    callAll pending (⟨n, heard⟩ : Overheard ν)
      = ((callAll pending n).1,
          ⟨(callAll pending n).2, heard ++ (callAll pending n).1.flatMap NotaryCall.events⟩) := by
  induction pending generalizing n heard with
  | nil =>
      show _ = ([], (⟨n, heard ++ []⟩ : Overheard ν))
      rw [List.append_nil]
      rfl
  | cons e pending ih =>
      have hcall : callFor e (⟨n, heard⟩ : Overheard ν)
          = ((callFor e n).1, ⟨(callFor e n).2, heard ++ (callFor e n).1.events⟩) := by
        show (_, (⟨_, heard ++ [_] ++ [_]⟩ : Overheard ν)) = _
        rw [List.append_assoc]
        rfl
      show ((callFor e (⟨n, heard⟩ : Overheard ν)).1
          :: (callAll pending (callFor e (⟨n, heard⟩ : Overheard ν)).2).1,
        (callAll pending (callFor e (⟨n, heard⟩ : Overheard ν)).2).2) = _
      rw [hcall, ih, List.append_assoc]
      rfl

end

end Caretaker

/-! ## Rows -/

namespace Row

/-- The cells of a row that an entry is read from. -/
theorem cells_of_decode {r : Row} {e : Entry} (h : r.decode = .ok e) :
    r .id = .text e.record.id ∧
      (r .notarizationTxId).asOptionalText = .ok e.record.notarization := by
  rw [decode, Attempt.bind_eq_ok] at h
  obtain ⟨raw, hraw, hentry⟩ := h
  simp only [Row.raw, Attempt.bind_eq_ok] at hraw
  obtain ⟨id, hid, _, -, _, -, _, -, _, -, tx, htx, _, -, _, -, _, -, _, -, _, -, _, -, _, -, _, -,
    _, -, hrow⟩ := hraw
  cases hrow
  simp only [Row.Raw.entry, Attempt.bind_eq_ok] at hentry
  obtain ⟨_, -, _, -, _, -, _, -, _, -, hrow⟩ := hentry
  split at hrow
  · cases hrow
  · cases hrow
    exact ⟨RecordStore.asText_eq_ok_iff.mp hid, htx⟩

theorem asOptionalText_eq_none_iff {c : Cell} : c.asOptionalText = .ok none ↔ c = .null := by
  cases c with
  | null => exact iff_of_true rfl rfl
  | _ => exact iff_of_false (fun h => nomatch h) (fun h => nomatch h)

/-- Whether there is a transaction id can be seen from the cell. -/
theorem notarization_eq_none_iff {r : Row} {e : Entry} (h : r.decode = .ok e) :
    e.record.notarization = none ↔ r .notarizationTxId = .null := by
  rw [← asOptionalText_eq_none_iff, (cells_of_decode h).2, Except.ok.injEq]

/-- The row of an entry that is given a transaction id spells the same entry, with
    this id. -/
theorem decode_set_notarizationTxId {r : Row} {e : Entry} (h : r.decode = .ok e) (tx : String) :
    (r.set .notarizationTxId (.text tx)).decode
      = .ok ((EntryUpdate.notarized e.record.id tx).apply e) := by
  rw [Row.decode, Attempt.bind_eq_ok] at h
  obtain ⟨raw, hraw, hentry⟩ := h
  have hmarked : (r.set .notarizationTxId (.text tx)).raw
      = .ok { raw with notarization := some tx } := by
    have hmark : (r.set .notarizationTxId (.text tx) .notarizationTxId).asOptionalText
        = .ok (some tx) := rfl
    simp only [Row.raw, Attempt.bind_eq_ok] at hraw ⊢
    obtain ⟨id, hid, archived, h1, restored, h2, metadata, h3, nonce, h4, _, -, hrest⟩ := hraw
    refine ⟨id, hid, archived, h1, restored, h2, metadata, h3, nonce, h4, some tx, hmark, ?_⟩
    obtain ⟨ref, h5, algorithm, h6, hash, h7, encrypted, h8, version, h9, kdf, h10, cipher, h11,
      salt, h12, base, h13, hrow⟩ := hrest
    refine ⟨ref, h5, algorithm, h6, hash, h7, encrypted, h8, version, h9, kdf, h10, cipher, h11,
      salt, h12, base, h13, ?_⟩
    cases hrow
    rfl
  rw [Row.decode, hmarked, Attempt.ok_bind]
  simp only [Row.Raw.entry, Attempt.bind_eq_ok] at hentry ⊢
  obtain ⟨time, h1, version, h2, metadataNonce, h3, salt, h4, nonce, h5, hrow⟩ := hentry
  refine ⟨time, h1, version, h2, metadataNonce, h3, salt, h4, nonce, h5, ?_⟩
  split at hrow
  · cases hrow
  · rename_i hsound
    cases hrow
    exact if_neg hsound

/-- What calls leave of a row: at most one is for the entry in it. -/
def afterCalls (calls : List NotaryCall) (r : Row) : Row :=
  match calls.find? fun call => r.isFor call.id with
  | some call => call.onRow r
  | none => r

variable {r : Row} {call : NotaryCall} {calls : List NotaryCall}

theorem isFor_inj {id other : String} (h : r.isFor id = true) (h' : r.isFor other = true) :
    id = other :=
  Cell.text.inj ((eq_of_beq h).symm.trans (eq_of_beq h'))

theorem isFor_onCall (call : NotaryCall) (id : String) (r : Row) :
    (call.onRow r).isFor id = r.isFor id := by
  rw [NotaryCall.onRow]
  split
  · exact EntryUpdate.isFor_onRow _ id r
  · rfl

theorem onCall_of_not_isFor (h : r.isFor call.id = false) : call.onRow r = r := by
  rw [NotaryCall.onRow]
  split
  · exact if_neg (Bool.eq_false_iff.mp h)
  · rfl

theorem afterCalls_of_none (h : ∀ call ∈ calls, r.isFor call.id = false) :
    r.afterCalls calls = r := by
  have hnone : calls.find? (fun call => r.isFor call.id) = none :=
    List.find?_eq_none.mpr fun call hcall => Bool.eq_false_iff.mp (h call hcall)
  rw [afterCalls, hnone]

/-- The call that concerns a row decides about it. -/
theorem afterCalls_of_mem (hnodup : (calls.map NotaryCall.id).Nodup) (hcall : call ∈ calls)
    (hfor : r.isFor call.id = true) : r.afterCalls calls = call.onRow r := by
  have hfind : calls.find? (fun call => r.isFor call.id) = some call := by
    cases hfound : calls.find? fun call => r.isFor call.id with
    | none => exact absurd hfor (List.find?_eq_none.mp hfound call hcall)
    | some other =>
        have hother := List.find?_some (p := fun call : NotaryCall => r.isFor call.id) hfound
        rw [List.inj_on_of_nodup_map hnodup (List.mem_of_find?_eq_some hfound) hcall
          (isFor_inj hother hfor)]
  rw [afterCalls, hfind]

/-- The calls concern a row one after the other. -/
theorem afterCalls_cons (hnew : call.id ∉ calls.map NotaryCall.id) (r : Row) :
    r.afterCalls (call :: calls) = (call.onRow r).afterCalls calls := by
  cases hfor : r.isFor call.id with
  | true =>
      have hothers : ∀ other ∈ calls, (call.onRow r).isFor other.id = false := by
        intro other hother
        rw [isFor_onCall]
        refine Bool.eq_false_iff.mpr fun hisFor => hnew ?_
        rw [isFor_inj hfor hisFor]
        exact List.mem_map_of_mem hother
      have hfind : (call :: calls).find? (fun call => r.isFor call.id) = some call :=
        List.find?_cons_of_pos hfor
      rw [afterCalls_of_none hothers, afterCalls, hfind]
  | false =>
      have hfind : (call :: calls).find? (fun call => r.isFor call.id)
          = calls.find? fun call => r.isFor call.id :=
        List.find?_cons_of_neg (Bool.eq_false_iff.mp hfor)
      rw [onCall_of_not_isFor hfor, afterCalls, hfind, afterCalls]

end Row

/-! ## Counting -/

/-- A report that counts calls as well. -/
def JobTally.counting (report : JobTally) (calls : List NotaryCall) : JobTally where
  processed := report.processed + calls.length
  succeeded := report.succeeded + calls.countP NotaryCall.isGranted
  skipped := report.skipped
  failed := report.failed + calls.countP fun call => !call.isGranted

theorem JobTally.counting_cons (report : JobTally) (call : NotaryCall) (calls : List NotaryCall) :
    (if call.isGranted then report.addSucceeded else report.addFailed).counting calls
      = report.counting (call :: calls) := by
  cases hgranted : call.isGranted <;>
    simp [counting, addSucceeded, addFailed, hgranted, Nat.add_assoc,
      Nat.add_comm 1]

/-! ## One entry after the other -/

namespace Caretaker

section

variable {σ β ν : Type} [NotaryService ν]

/-- What comes of one entry that awaits a transaction id: the notarizer is called for
    it, and what it answers is in the row and in the report. -/
theorem settle_eq (e : Entry) (report : JobTally) (w : JobState σ β ν)
    (hawaits : w.stores.records.Awaits e.record.id) :
    ∃ t : RecordStore,
      t.table.rows = w.stores.records.table.rows.map (callFor e w.notary).1.onRow ∧
      (∀ id, id ≠ e.record.id → w.stores.records.Awaits id → t.Awaits id) ∧
      settle e report (submit e w)
        = (if (callFor e w.notary).1.isGranted then report.addSucceeded else report.addFailed,
            { w with
              notary := (callFor e w.notary).2
              stores := { w.stores with records := t } }) := by
  rcases hcall : NotaryService.settle
    (NotaryService.submit w.notary e.record.id (notarizedHash e)) e.record.id (notarizedHash e)
    with ⟨answer, n⟩
  have hfor : callFor e w.notary = (⟨e.record.id, notarizedHash e, answer⟩, n) := by
    rw [callFor, hcall]
  rw [hfor]
  cases answer with
  | error failure =>
      refine ⟨w.stores.records, (List.map_id _).symm, fun _ _ h => h, ?_⟩
      rw [settle, submit, hcall]
      rfl
  | ok tx =>
      obtain ⟨t, hset, -, hothers⟩ := RecordStore.setTransaction_of_awaits hawaits tx
      have hrows := RecordStore.rows_of_change hset
        (EntryUpdate.column_ne_id (.notarized e.record.id tx))
        (EntryUpdate.stored_cell (.notarized e.record.id tx))
      refine ⟨t, hrows, fun id hid h => ?_, ?_⟩
      · exact (hothers id hid).trans h
      · rw [settle, submit, hcall]
        simp only [hset]
        rfl

/-- What comes of entries that await a transaction id, one after the other. -/
theorem notarizeAll_eq (pending : List Entry) (report : JobTally) (w : JobState σ β ν)
    (hnodup : (pending.map fun e => e.record.id).Nodup)
    (hawaits : ∀ e ∈ pending, w.stores.records.Awaits e.record.id) :
    ∃ t : RecordStore,
      t.table.rows
        = w.stores.records.table.rows.map (Row.afterCalls (callAll pending w.notary).1) ∧
      notarizeAll pending report w = (report.counting (callAll pending w.notary).1,
        { w with
          notary := (callAll pending w.notary).2
          stores := { w.stores with records := t } }) := by
  induction pending generalizing report w with
  | nil => exact ⟨w.stores.records, (List.map_id _).symm, rfl⟩
  | cons e pending ih =>
      obtain ⟨hnew, hrest⟩ := List.nodup_cons.mp hnodup
      obtain ⟨s, hrows, hstill, hsettle⟩ := settle_eq e report w (hawaits e List.mem_cons_self)
      have hothers : ∀ other ∈ pending, s.Awaits other.record.id := by
        intro other hother
        have hne : other.record.id ≠ e.record.id := fun heq =>
          hnew (List.mem_map.mpr ⟨other, hother, heq⟩)
        exact hstill _ hne (hawaits other (List.mem_cons_of_mem e hother))
      obtain ⟨t, hafter, hdone⟩ := ih
        (if (callFor e w.notary).1.isGranted then report.addSucceeded else report.addFailed)
        { w with notary := (callFor e w.notary).2, stores := { w.stores with records := s } }
        hrest hothers
      have hids : (callFor e w.notary).1.id ∉
          (callAll pending (callFor e w.notary).2).1.map NotaryCall.id := by
        have hmap := congrArg (List.map Prod.fst) (map_callAll pending (callFor e w.notary).2)
        rw [List.map_map, List.map_map] at hmap
        exact fun hmem => hnew (hmap ▸ hmem)
      refine ⟨t, ?_, ?_⟩
      · rw [hafter]
        show s.table.rows.map _ = _
        rw [hrows, List.map_map]
        exact List.map_congr_left fun r _ => (Row.afterCalls_cons hids r).symm
      · rw [notarizeAll, hsettle]
        exact hdone.trans (by rw [JobTally.counting_cons]; rfl)

end

end Caretaker

/-! ## What is listed -/

namespace RecordStore

/-- What is listed of a row is the entry in it. -/
theorem decode_of_missing? {r : Row} {d : Dated} (h : missing? r = some d) :
    r.decode = .ok d.2 := by
  rw [missing?] at h
  split at h
  · split at h
    · rename_i raw hraw
      obtain ⟨e, hentry, rfl⟩ := Option.map_eq_some_iff.mp h
      rw [Row.decode, hraw, Attempt.ok_bind]
      cases hread : raw.entry with
      | error f =>
          rw [hread] at hentry
          cases hentry
      | ok e' =>
          rw [hread] at hentry
          cases hentry
          rfl
    · cases h
  · cases h

/-- What is listed is what can be read and has no transaction id. -/
theorem mem_unnotarized_iff {s : RecordStore} {e : Entry} :
    e ∈ s.unnotarized ↔
      ∃ r ∈ s.table.rows, r.decode = .ok e ∧ e.record.notarization = none := by
  constructor
  · intro h
    obtain ⟨r, hr, hsome⟩ := List.mem_filterMap.mp (s.unnotarized_perm.mem_iff.mp h)
    obtain ⟨d, hmissing, rfl⟩ := Option.map_eq_some_iff.mp hsome
    obtain ⟨-, hnull⟩ := of_missing? hmissing
    have hdecode := decode_of_missing? hmissing
    exact ⟨r, hr, hdecode, (Row.notarization_eq_none_iff hdecode).mpr hnull⟩
  · rintro ⟨r, hr, hdecode, hnone⟩
    exact mem_unnotarized hr ((Row.notarization_eq_none_iff hdecode).mp hnone) hdecode

end RecordStore

/-! ## The whole run -/

theorem RunLocks.set_set (l : RunLocks) (job : Job) (lock lock' : RunLock) :
    (l.set job lock).set job lock' = l.set job lock' := by
  cases job <;> rfl

theorem RunLocks.set_get (l : RunLocks) (job : Job) : l.set job (l.get job) = l := by
  cases job <;> rfl

/-- A notarizer that gives a transaction id in every call, whatever calls there were
    before. -/
def NotaryService.AlwaysGrants {ν : Type} [NotaryService ν] (n : ν) : Prop :=
  ∃ P : ν → Prop, P n ∧ ∀ m, P m → ∀ id hash, P (NotaryService.submit m id hash) ∧
    P (NotaryService.settle m id hash).2 ∧
    ∃ tx, (NotaryService.settle m id hash).1 = .ok tx

namespace Caretaker

section

variable {ν : Type} [NotaryService ν]

theorem isGranted_of_alwaysGrants {n : ν} (h : NotaryService.AlwaysGrants n)
    (pending : List Entry) : ∀ call ∈ (callAll pending n).1, call.isGranted = true := by
  obtain ⟨P, hn, hP⟩ := h
  induction pending generalizing n with
  | nil => exact fun call hcall => nomatch hcall
  | cons e pending ih =>
      obtain ⟨hsubmitted, -⟩ := hP n hn e.record.id (notarizedHash e)
      obtain ⟨-, hsettled, tx, htx⟩ := hP _ hsubmitted e.record.id (notarizedHash e)
      intro call hcall
      rcases List.mem_cons.mp hcall with rfl | hlater
      · show (NotaryService.settle _ _ _).1.toOption.isSome = true
        rw [htx]
        rfl
      · exact ih hsettled call hlater

/-- The calls of a run: one for each entry that is listed. -/
def callsOf (s : RecordStore) (n : ν) : List NotaryCall := (callAll s.unnotarized n).1

theorem map_callsOf (s : RecordStore) (n : ν) :
    (callsOf s n).map (fun call => (call.id, call.hash))
      = s.unnotarized.map fun e => (e.record.id, notarizedHash e) :=
  map_callAll s.unnotarized n

theorem ids_callsOf (s : RecordStore) (n : ν) :
    (callsOf s n).map NotaryCall.id = s.unnotarized.map fun e => e.record.id := by
  have hmap := congrArg (List.map Prod.fst) (map_callsOf s n)
  rw [List.map_map, List.map_map] at hmap
  exact hmap

theorem nodup_callsOf (s : RecordStore) (n : ν) : ((callsOf s n).map NotaryCall.id).Nodup :=
  ids_callsOf s n ▸ s.nodup_unnotarized

/-- A run makes its calls, puts what they gave into the rows, counts them, and leaves
    everything else alone. -/
theorem run_notarize_eq {σ β : Type} [ContentOrigin σ] [BlobStorage β] (c : Caretaker)
    (now : Instant) (time : Timestamp) (w : JobState σ β ν)
    (hfree : (w.locks.get .notarize).held = false) :
    ∃ t : RecordStore,
      t.table.rows
        = w.stores.records.table.rows.map (Row.afterCalls (callsOf w.stores.records w.notary)) ∧
      c.run now time .notarize w
        = (.finished (JobTally.counting {} (callsOf w.stores.records w.notary)),
          { w with
            notary := (callAll w.stores.records.unnotarized w.notary).2
            stores := { w.stores with records := t } }) := by
  obtain ⟨lock, hlock⟩ : ∃ lock, (w.locks.get .notarize).acquire = some lock :=
    ⟨_, if_neg (Bool.eq_false_iff.mp hfree)⟩
  obtain ⟨t, hrows, hdone⟩ := notarizeAll_eq w.stores.records.unnotarized {}
    { w with locks := w.locks.set .notarize lock } w.stores.records.nodup_unnotarized
    fun e he => RecordStore.awaits_of_mem_unnotarized he
  have hback : (lock.release : RunLock) = w.locks.get .notarize := by
    rw [RunLock.acquire, if_neg (Bool.eq_false_iff.mp hfree)] at hlock
    cases hlock
    rw [RunLock.release, ← hfree]
  have hlocks : (w.locks.set .notarize lock).set .notarize
      ((w.locks.set .notarize lock).get .notarize).release = w.locks := by
    rw [RunLocks.get_set_self, hback, RunLocks.set_set, RunLocks.set_get]
  refine ⟨t, hrows, ?_⟩
  rw [run, begin, hlock]
  show (RunOutcome.finished (notarizeAll w.stores.records.unnotarized {}
      { w with locks := w.locks.set .notarize lock }).1,
    release .notarize (notarizeAll w.stores.records.unnotarized {}
      { w with locks := w.locks.set .notarize lock }).2) = _
  rw [hdone, release]
  simp only [hlocks]
  rfl

/-! ## Calls and rows -/

variable {s : RecordStore} {n : ν}

/-- A call was made for an entry that is listed, and its row is in the table. -/
theorem exists_row_of_call {call : NotaryCall} (hcall : call ∈ callsOf s n) :
    ∃ r ∈ s.table.rows, ∃ e, r.decode = .ok e ∧ e.record.notarization = none ∧
      call.id = e.record.id ∧ call.hash = notarizedHash e := by
  have hmem := List.mem_map_of_mem (f := fun call : NotaryCall => (call.id, call.hash)) hcall
  rw [map_callsOf] at hmem
  obtain ⟨e, he, heq⟩ := List.mem_map.mp hmem
  obtain ⟨r, hr, hdecode, hnone⟩ := RecordStore.mem_unnotarized_iff.mp he
  obtain ⟨hid, hhash⟩ := Prod.mk.inj heq
  exact ⟨r, hr, e, hdecode, hnone, hid.symm, hhash.symm⟩

/-- A call was made for each entry that is listed. -/
theorem exists_call_of_row {r : Row} {e : Entry} (hr : r ∈ s.table.rows)
    (hdecode : r.decode = .ok e) (hnone : e.record.notarization = none) :
    ∃ call ∈ callsOf s n, call.id = e.record.id ∧ call.hash = notarizedHash e := by
  have hmem := List.mem_map_of_mem (f := fun e : Entry => (e.record.id, notarizedHash e))
    (RecordStore.mem_unnotarized_iff.mpr ⟨r, hr, hdecode, hnone⟩)
  rw [← map_callsOf s n] at hmem
  obtain ⟨call, hcall, heq⟩ := List.mem_map.mp hmem
  obtain ⟨hid, hhash⟩ := Prod.mk.inj heq
  exact ⟨call, hcall, hid, hhash⟩

theorem isFor_of_decode {r : Row} {e : Entry} (h : r.decode = .ok e) :
    r.isFor e.record.id = true := by
  rw [Row.isFor, (Row.cells_of_decode h).1, beq_self_eq_true]

/-- The row of a call is the one for its id. -/
theorem row_of_call {call : NotaryCall} (hcall : call ∈ callsOf s n) {r : Row}
    (hr : r ∈ s.table.rows) (hfor : r.isFor call.id = true) :
    ∃ e, r.decode = .ok e ∧ e.record.notarization = none ∧ call.id = e.record.id := by
  obtain ⟨r', hr', e, hdecode, hnone, hid, -⟩ := exists_row_of_call hcall
  have hfound := Table.find?_of_isFor hr' (isFor_of_decode hdecode)
  rw [← hid, Table.find?_of_isFor hr hfor] at hfound
  cases hfound
  exact ⟨e, hdecode, hnone, hid⟩

/-- What is in the column of transaction ids after a call for a row that had nothing
    there. -/
theorem onCall_null {r : Row} {call : NotaryCall} (hnull : r .notarizationTxId = .null)
    (hfor : r.isFor call.id = true) :
    (call.onRow r .notarizationTxId != .null) = call.isGranted := by
  rw [NotaryCall.onRow, NotaryCall.isGranted]
  cases call.answer with
  | ok tx =>
      have hid : r.isFor (EntryUpdate.notarized call.id tx).id = true := hfor
      simp only
      rw [EntryUpdate.onRow, if_pos hid]
      rfl
  | error failure =>
      simp only
      rw [hnull]
      rfl

/-- Whether there was a call for an id that gave a transaction id. -/
def isGrantedFor (calls : List NotaryCall) (id : String) : Bool :=
  calls.any fun call => call.id == id && call.isGranted

theorem isGrantedFor_of_mem {calls : List NotaryCall} {call : NotaryCall}
    (hnodup : (calls.map NotaryCall.id).Nodup) (hcall : call ∈ calls) :
    isGrantedFor calls call.id = call.isGranted := by
  rw [isGrantedFor, Bool.eq_iff_iff, List.any_eq_true]
  constructor
  · rintro ⟨other, hother, hboth⟩
    obtain ⟨hid, hgranted⟩ := Bool.and_eq_true_iff.mp hboth
    rw [← List.inj_on_of_nodup_map hnodup hother hcall (eq_of_beq hid)]
    exact hgranted
  · intro hgranted
    exact ⟨call, hcall, by rw [beq_self_eq_true, hgranted]; rfl⟩

/-- A row that no call is for is not listed. -/
theorem missing?_of_no_call {r : Row} (hr : r ∈ s.table.rows)
    (hnone : ∀ call ∈ callsOf s n, r.isFor call.id = false) : RecordStore.missing? r = none := by
  cases hmissing : RecordStore.missing? r with
  | none => rfl
  | some d =>
      have hdecode := RecordStore.decode_of_missing? hmissing
      have hnull := (RecordStore.of_missing? hmissing).2
      have hawaits := (Row.notarization_eq_none_iff hdecode).mpr hnull
      obtain ⟨call, hcall, hid, -⟩ := exists_call_of_row (n := n) hr hdecode hawaits
      have hfor := isFor_of_decode hdecode
      rw [← hid, hnone call hcall] at hfor
      cases hfor

/-- A row newly has a transaction id if it is listed and the call for it gave one. -/
theorem newly_eq {r : Row} (hr : r ∈ s.table.rows) :
    (r .notarizationTxId == .null && r.afterCalls (callsOf s n) .notarizationTxId != .null)
      = (((RecordStore.missing? r).map Prod.snd).map
          fun e => isGrantedFor (callsOf s n) e.record.id).getD false := by
  have hnodup := nodup_callsOf s n
  by_cases hfor : ∃ call ∈ callsOf s n, r.isFor call.id = true
  · obtain ⟨call, hcall, hfor⟩ := hfor
    obtain ⟨e, hdecode, hnone, hid⟩ := row_of_call hcall hr hfor
    have hnull := (Row.notarization_eq_none_iff hdecode).mp hnone
    obtain ⟨text, hmissing⟩ := RecordStore.missing?_eq_some hnull hdecode
    rw [hmissing, Row.afterCalls_of_mem hnodup hcall hfor, onCall_null hnull hfor, hnull,
      beq_self_eq_true, Bool.true_and, ← isGrantedFor_of_mem hnodup hcall, hid]
    rfl
  · have hnone : ∀ call ∈ callsOf s n, r.isFor call.id = false := by
      intro call hcall
      exact Bool.eq_false_iff.mpr fun h => hfor ⟨call, hcall, h⟩
    rw [missing?_of_no_call hr hnone, Row.afterCalls_of_none hnone]
    exact Bool.and_not_self _

variable (s n) in
/-- As many rows newly have a transaction id as calls gave one. -/
theorem countP_newly :
    (s.table.rows.countP fun r => r .notarizationTxId == .null &&
      r.afterCalls (callsOf s n) .notarizationTxId != .null)
      = (callsOf s n).countP NotaryCall.isGranted := by
  have hnodup := nodup_callsOf s n
  calc
    _ = s.table.rows.countP fun r => (((RecordStore.missing? r).map Prod.snd).map
          fun e => isGrantedFor (callsOf s n) e.record.id).getD false :=
        List.countP_congr fun r hr => Bool.eq_iff_iff.mp (newly_eq hr)
    _ = (s.table.rows.filterMap fun r => (RecordStore.missing? r).map Prod.snd).countP
          fun e => isGrantedFor (callsOf s n) e.record.id := (List.countP_filterMap).symm
    _ = s.unnotarized.countP fun e => isGrantedFor (callsOf s n) e.record.id :=
        s.unnotarized_perm.symm.countP_eq _
    _ = (s.unnotarized.map fun e => e.record.id).countP (isGrantedFor (callsOf s n)) :=
        (List.countP_map (f := fun e : Entry => e.record.id) (p := isGrantedFor _)).symm
    _ = ((callsOf s n).map NotaryCall.id).countP (isGrantedFor (callsOf s n)) := by
        rw [ids_callsOf]
    _ = (callsOf s n).countP fun call => isGrantedFor (callsOf s n) call.id := List.countP_map
    _ = (callsOf s n).countP NotaryCall.isGranted := List.countP_congr fun call hcall => by
        rw [isGrantedFor_of_mem hnodup hcall]

/-- After a run in which each call gave a transaction id, nothing is listed. -/
theorem unnotarized_eq_nil {t : RecordStore}
    (hrows : t.table.rows = s.table.rows.map (Row.afterCalls (callsOf s n)))
    (hall : ∀ call ∈ callsOf s n, call.isGranted = true) : t.unnotarized = [] := by
  refine List.eq_nil_iff_forall_not_mem.mpr fun e he => ?_
  obtain ⟨r', hr', hdecode, hnone⟩ := RecordStore.mem_unnotarized_iff.mp he
  rw [hrows] at hr'
  obtain ⟨r, hr, rfl⟩ := List.mem_map.mp hr'
  have hnull := (Row.notarization_eq_none_iff hdecode).mp hnone
  by_cases hfor : ∃ call ∈ callsOf s n, r.isFor call.id = true
  · obtain ⟨call, hcall, hfor⟩ := hfor
    obtain ⟨e', hdecode', hnone', -⟩ := row_of_call hcall hr hfor
    have hfull := onCall_null ((Row.notarization_eq_none_iff hdecode').mp hnone') hfor
    rw [← Row.afterCalls_of_mem (nodup_callsOf s n) hcall hfor, hnull, hall call hcall] at hfull
    cases hfull
  · have hsame : r.afterCalls (callsOf s n) = r :=
      Row.afterCalls_of_none fun call hcall =>
        Bool.eq_false_iff.mpr fun h => hfor ⟨call, hcall, h⟩
    rw [hsame] at hdecode
    obtain ⟨call, hcall, hid, -⟩ := exists_call_of_row (n := n) hr hdecode hnone
    exact hfor ⟨call, hcall, hid ▸ isFor_of_decode hdecode⟩

/-- What is found under the id of a call. -/
theorem find_of_call {t : RecordStore}
    (hrows : t.table.rows = s.table.rows.map (Row.afterCalls (callsOf s n)))
    {call : NotaryCall} (hcall : call ∈ callsOf s n) :
    ∃ e, s.find call.id = .ok (some e) ∧ e.record.notarization = none ∧
      t.find call.id = .ok (some { e with
        record := { e.record with notarization := call.answer.toOption } }) := by
  obtain ⟨r, hr, e, hdecode, hnone, hid, -⟩ := exists_row_of_call hcall
  have hfor : r.isFor call.id = true := hid ▸ isFor_of_decode hdecode
  have hr' : call.onRow r ∈ t.table.rows := by
    rw [hrows, ← Row.afterCalls_of_mem (nodup_callsOf s n) hcall hfor]
    exact List.mem_map_of_mem hr
  have hafter : (call.onRow r).decode = .ok { e with
      record := { e.record with notarization := call.answer.toOption } } := by
    rw [NotaryCall.onRow]
    cases call.answer with
    | ok tx =>
        have hown : r.isFor (EntryUpdate.notarized call.id tx).id = true := hfor
        simp only
        rw [EntryUpdate.onRow, if_pos hown]
        exact Row.decode_set_notarizationTxId hdecode tx
    | error failure =>
        simp only
        rw [hdecode, Except.toOption, ← hnone]
  refine ⟨e, ?_, hnone, ?_⟩
  · rw [RecordStore.find, Table.find?_of_isFor hr hfor]
    show r.decode.map some = _
    rw [hdecode]
    rfl
  · rw [RecordStore.find, Table.find?_of_isFor hr' ((Row.isFor_onCall call call.id r).trans hfor)]
    show (call.onRow r).decode.map some = _
    rw [hafter]
    rfl

/-! ## Other notarizers -/

section

variable {σ β : Type} [ContentOrigin σ] [BlobStorage β] (c : Caretaker) (now : Instant)
  (time : Timestamp) (w : JobState σ β ν) (hfree : (w.locks.get .notarize).held = false)
include hfree

/-- A run with a notarizer that is overheard comes to the same, and its calls are
    heard. -/
theorem run_overheard :
    ∃ t : RecordStore,
      t.table.rows
        = w.stores.records.table.rows.map (Row.afterCalls (callsOf w.stores.records w.notary)) ∧
      c.run now time .notarize (w.withNotary (⟨w.notary, []⟩ : Overheard ν))
        = (.finished (JobTally.counting {} (callsOf w.stores.records w.notary)),
          { w with
            notary := ⟨(callAll w.stores.records.unnotarized w.notary).2,
              (callsOf w.stores.records w.notary).flatMap NotaryCall.events⟩
            stores := { w.stores with records := t } }) := by
  have hcalls := callAll_overheard w.stores.records.unnotarized w.notary []
  have hsame : callsOf w.stores.records (⟨w.notary, []⟩ : Overheard ν)
      = callsOf w.stores.records w.notary := congrArg Prod.fst hcalls
  obtain ⟨t, hrows, hrun⟩ := c.run_notarize_eq now time
    (w.withNotary (⟨w.notary, []⟩ : Overheard ν)) hfree
  rw [JobState.withNotary, hsame] at hrows hrun
  refine ⟨t, hrows, hrun.trans ?_⟩
  simp only [hcalls, List.nil_append]
  rfl

/-- After a run with a notarizer that always gives a transaction id, nothing is listed. -/
theorem run_granted (h : NotaryService.AlwaysGrants w.notary) :
    ∃ w' report, c.run now time .notarize w = (.finished report, w') ∧
      w'.stores.records.unnotarized = [] := by
  obtain ⟨t, hrows, hrun⟩ := c.run_notarize_eq now time w hfree
  exact ⟨_, _, hrun, unnotarized_eq_nil hrows (isGranted_of_alwaysGrants h _)⟩

end

end

end Caretaker

/-! ## From end to end -/

section

variable {σ β ν : Type}

/-- What a run of the notarization job comes to that made these calls. -/
structure Notarizes (w w' : JobState σ β ν) (report : JobTally) (calls : List NotaryCall) :
    Prop where
  /-- Submitted is what can be read and has no transaction id, under its own id and with
  the digest and the digest algorithm that are kept of it; and nothing else is. -/
  submits : ∀ id hash, (∃ call ∈ calls, call.id = id ∧ call.hash = hash) ↔
    ∃ r ∈ w.stores.records.table.rows, ∃ e, r.decode = .ok e ∧ e.record.notarization = none ∧
      e.record.id = id ∧ ⟨e.content.hashAlgorithm, e.content.hash⟩ = hash
  /-- Nothing is submitted twice. -/
  once : (calls.map NotaryCall.id).Nodup
  /-- What was submitted has the transaction id that came back, or none if none came back;
  for the rest it is as it was. -/
  settles : ∀ call ∈ calls, ∃ e, w.stores.records.find call.id = .ok (some e) ∧
    e.record.notarization = none ∧
    w'.stores.records.find call.id = .ok (some { e with
      record := { e.record with notarization := call.answer.toOption } })
  /-- Each row is as it was but for what the call for it gave. -/
  rows : w'.stores.records.table.rows
    = w.stores.records.table.rows.map (Row.afterCalls calls)
  /-- Nothing else has changed: no blob, and nothing of the repository, the guard, the locks
  and the draws. -/
  spares : w' = { w with
    notary := w'.notary
    stores := { w.stores with records := w'.stores.records } }
  processed : report.processed = calls.length
  adds : report.processed = report.succeeded + report.failed
  /-- What succeeded is counted by the rows that newly have a transaction id. -/
  succeeded : report.succeeded
    = (w.stores.records.table.rows.zip w'.stores.records.table.rows).countP fun p =>
        p.1 .notarizationTxId == .null && p.2 .notarizationTxId != .null
  skipped : report.skipped = 0

open Caretaker in
/-- For every table, whatever is in its rows, and every notarizer, whatever its answers
    depend on, a run of the notarization job comes to its end, if none is in progress:

    * It has submitted what was without a transaction id, each entry once, and kept what
      came back; nothing else has changed, and the report says so (`Notarizes`).
    * A notarizer that is overheard has been told of just these calls, one after the
      other, and has given the same answers.
    * After another run, with a notarizer that always gives a transaction id, nothing is
      listed any more. -/
theorem notarizes_from_end_to_end [ContentOrigin σ] [BlobStorage β] [NotaryService ν]
    (c : Caretaker) (now : Instant) (time : Timestamp) (w : JobState σ β ν)
    (hfree : (w.locks.get .notarize).held = false) :
    ∃ w' report calls, c.run now time .notarize w = (.finished report, w') ∧
      Notarizes w w' report calls ∧
      c.run now time .notarize (w.withNotary (⟨w.notary, []⟩ : Overheard ν))
        = (.finished report,
            w'.withNotary ⟨w'.notary, calls.flatMap NotaryCall.events⟩) ∧
      ∀ {μ : Type} [NotaryService μ] (n : μ), NotaryService.AlwaysGrants n → ∀ now' time',
        ∃ w'' report', c.run now' time' .notarize (w'.withNotary n) = (.finished report', w'') ∧
          w''.stores.records.unnotarized = [] := by
  obtain ⟨t, hrows, hrun⟩ := c.run_notarize_eq now time w hfree
  refine ⟨_, _, callsOf w.stores.records w.notary, hrun, ?_, ?_, ?_⟩
  · constructor
    case submits =>
      intro id hash
      constructor
      · rintro ⟨call, hcall, rfl, rfl⟩
        obtain ⟨r, hr, e, hdecode, hnone, hid, hhash⟩ := exists_row_of_call hcall
        exact ⟨r, hr, e, hdecode, hnone, hid.symm, hhash.symm⟩
      · rintro ⟨r, hr, e, hdecode, hnone, rfl, rfl⟩
        exact exists_call_of_row hr hdecode hnone
    case once => exact nodup_callsOf _ _
    case settles => exact fun call hcall => find_of_call hrows hcall
    case rows => exact hrows
    case spares => rfl
    case processed => exact Nat.zero_add _
    case adds =>
      show 0 + _ = (0 + _) + (0 + _)
      rw [Nat.zero_add, Nat.zero_add, Nat.zero_add]
      simpa only [Bool.not_eq_true, Bool.decide_eq_false] using
        List.length_eq_countP_add_countP NotaryCall.isGranted
    case succeeded =>
      show 0 + _ = _
      rw [Nat.zero_add, ← countP_newly]
      show _ = List.countP _ (List.zip _ t.table.rows)
      rw [hrows, ← List.map_prod_left_eq_zip, List.countP_map]
      rfl
    case skipped => rfl
  · obtain ⟨t', hrows', hrun'⟩ := c.run_overheard now time w hfree
    rw [hrun', RecordStore.ext_rows (hrows'.trans hrows.symm)]
    rfl
  · intro μ _ n hn now' time'
    exact c.run_granted now' time' (JobState.withNotary _ n) hfree hn

end

namespace Sample

/-- A vault with an entry that a notarizer refuses and a row that cannot be read. -/
def refusing : JobState Shelf BlobStore StandInNotary where
  origin := {}
  stores := {
    blobs := .empty
    records := ⟨[Row.ofEntry sealedEntry, Row.ofEntry remoteEntry], by
      refine ⟨List.forall_mem_cons.mpr ⟨Row.isComplete_ofEntry _,
        List.forall_mem_singleton.mpr (Row.isComplete_ofEntry _)⟩,
        List.pairwise_pair.mpr (Row.isApart_ofEntry ?_)⟩
      rw [Row.isFor_ofEntry]
      decide⟩ }
  notary := { refused := ["report"] }
  guard := { threshold := 0 }

theorem alwaysGrants_standIn : NotaryService.AlwaysGrants ({} : StandInNotary) := by
  refine ⟨fun n => n.refused = [], rfl, fun n hn id hash => ⟨hn, hn, ?_⟩⟩
  have hnot : id ∉ n.refused := by
    rw [hn]
    exact List.not_mem_nil
  exact ⟨_, if_neg hnot⟩

end Sample

/-- The entry is submitted, the row that cannot be read is not; and once the notarizer
    refuses nothing, nothing is left to do. -/
theorem notarizes_refusing :
    (Sample.refusing.locks.get .notarize).held = false ∧
    ∃ w' report calls, Sample.hasty.run 0 Sample.draws.now .notarize Sample.refusing
        = (.finished report, w') ∧
      Notarizes Sample.refusing w' report calls ∧
      (∃ call ∈ calls, call.id = "report" ∧
        call.hash = Caretaker.notarizedHash Sample.sealedEntry) ∧
      (∀ call ∈ calls, call.id ≠ "late") ∧
      ∃ w'' report', Sample.hasty.run 1 Sample.draws.now .notarize
          (w'.withNotary ({} : StandInNotary)) = (.finished report', w'') ∧
        w''.stores.records.unnotarized = [] := by
  obtain ⟨w', report, calls, hrun, hdone, -, hagain⟩ :=
    notarizes_from_end_to_end Sample.hasty 0 Sample.draws.now Sample.refusing rfl
  have hreadable : Sample.sealedEntry.IsReadable := by decide
  have hunreadable : ¬ Sample.remoteEntry.IsReadable := by decide
  refine ⟨rfl, w', report, calls, hrun, hdone, ?_, ?_,
    hagain _ Sample.alwaysGrants_standIn 1 Sample.draws.now⟩
  · exact (hdone.submits _ _).mpr ⟨_, List.mem_cons_self, Sample.sealedEntry,
      Row.decode_ofEntry hreadable, rfl, rfl, rfl⟩
  · intro call hcall hid
    obtain ⟨r, hr, e, hdecode, -, he, -⟩ := (hdone.submits _ _).mp ⟨call, hcall, hid, rfl⟩
    rcases List.mem_cons.mp hr with rfl | hr
    · rw [Row.decode_ofEntry hreadable] at hdecode
      cases hdecode
      exact absurd he (by decide)
    · rw [List.mem_singleton.mp hr, Row.decode_ofEntry_eq_error hunreadable] at hdecode
      cases hdecode

end ContentVault
