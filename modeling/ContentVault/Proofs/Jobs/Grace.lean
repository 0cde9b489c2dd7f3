import ContentVault.Proofs.Jobs.Rivals

/-! # The grace period

    A blob is in the directory before the record is saved that names it, so a
    sweep may list it and find no reference to it.  What saves it is its age:
    a sweep that has read the clock before the references deletes only what was
    created a grace period before that.  If a call saves its record within the
    grace period after it created the file of its blob, then either the sweep
    read its reference, or the file is too young for it (`SweepStage.Holds`).

    A blob that is deleted nevertheless is one that no record will name any more:
    its call has ended, or is too late to save one (`IsLost`).

    Main statement: `named_blobs_stay`. -/

namespace ContentVault

/-! ## Names -/

namespace BlobStore

/-- Whether a name, if it spells a UUID at all, is the text of the UUID. -/
def IsOwnName (name : String) : Prop := ∀ u, Uuid.parse? name = some u → name = u.text

theorem isOwnName_text (u : Uuid) : IsOwnName u.text := by
  intro v hv
  rw [Uuid.parse?_text] at hv
  rw [Option.some.inj hv]

theorem isOwnName_temporaryName (u : Uuid) : IsOwnName (temporaryName u) := by
  intro v hv
  rw [parse?_temporaryName] at hv
  cases hv

/-- Whether all names in use are such names. -/
def AreOwnNames (d : Directory) : Prop := ∀ name node, d.get? name = some node → IsOwnName name

theorem AreOwnNames.set {d : Directory} (h : AreOwnNames d) {name : String} (hname : IsOwnName name)
    (node : Node) : AreOwnNames (d.set name node) := by
  intro other node' hother
  by_cases heq : other = name
  · rw [heq]
    exact hname
  · rw [d.get?_set_of_ne node heq] at hother
    exact h other node' hother

theorem AreOwnNames.erase {d : Directory} (h : AreOwnNames d) (name : String) :
    AreOwnNames (d.erase name) := by
  intro other node hother
  by_cases heq : other = name
  · rw [heq, d.get?_erase_self] at hother
    cases hother
  · rw [d.get?_erase_of_ne heq] at hother
    exact h other node hother

/-- What stands under the text of a UUID. -/
def nodeOf (s : BlobStore) (u : Uuid) : Option Node := s.root.get? u.text

theorem nodeOf_erase_of_ne {s : BlobStore} {u v : Uuid} (h : u ≠ v) :
    nodeOf ⟨s.root.erase v.text⟩ u = s.nodeOf u :=
  s.root.get?_erase_of_ne fun htext => h (Uuid.text_injective htext)

end BlobStore

namespace ArchiveCall

variable {call : ArchiveCall} {now : Timestamp} {s t : Stores BlobStore} {stage next : ArchiveStage}

/-- The bytes of the blob. -/
def bytes (call : ArchiveCall) : Bytes :=
  call.archiver.blobFor call.draws call.content call.choices

/-- A stage leaves the blobs alone, but for the one in which the blob of the call
    is completed; that comes before the end, or is the end if the producer
    crashed. -/
theorem Moves.nodeOf (h : call.Moves now s stage next t) (u : Uuid) :
    t.blobs.nodeOf u = s.blobs.nodeOf u ∨
    (u = call.blob ∧ ∃ created, stage = .begun call.key created ∧
      (next = .stored call.key created call.outcome ∨ ∃ e, next = .ended (.error e)) ∧
      t.blobs.nodeOf u = some (.file call.bytes created)) := by
  have htemporary : u.text ≠ BlobStore.temporaryName call.blob :=
    BlobStore.text_ne_temporaryName _ _
  have hfilled : ∀ created, (call.filled created s.blobs).nodeOf u = s.blobs.nodeOf u ∨
      (u = call.blob ∧
        (call.filled created s.blobs).nodeOf u = some (.file call.bytes created)) := by
    intro created
    by_cases hu : u = call.blob
    · subst hu
      exact Or.inr ⟨rfl, Directory.get?_set_self _ _ _⟩
    · have htext : u.text ≠ call.blob.text := fun h => hu (Uuid.text_injective h)
      exact Or.inl ((Directory.get?_set_of_ne _ _ htext).trans
        (s.blobs.root.get?_erase_of_ne htemporary))
  cases h with
  | begun => exact Or.inl (s.blobs.root.get?_set_of_ne _ htemporary)
  | discarded created e hnot => exact Or.inl (s.blobs.root.get?_erase_of_ne htemporary)
  | uncounted created e hcompleted hnot =>
      exact (hfilled created).imp_right fun ⟨hu, hnode⟩ =>
        ⟨hu, created, rfl, Or.inr ⟨e, rfl⟩, hnode⟩
  | stored created hcompleted hbuffer =>
      exact (hfilled created).imp_right fun ⟨hu, hnode⟩ => ⟨hu, created, rfl, Or.inl rfl, hnode⟩
  | _ => exact Or.inl rfl

theorem Moves.areOwnNames (h : call.Moves now s stage next t)
    (hown : BlobStore.AreOwnNames s.blobs.root) : BlobStore.AreOwnNames t.blobs.root := by
  cases h with
  | begun => exact hown.set (BlobStore.isOwnName_temporaryName _) _
  | discarded created e hnot => exact hown.erase _
  | uncounted created e hcompleted hnot =>
      exact (hown.erase _).set (BlobStore.isOwnName_text _) _
  | stored created hcompleted hbuffer =>
      exact (hown.erase _).set (BlobStore.isOwnName_text _) _
  | _ => exact hown

end ArchiveCall

/-! ## Calls -/

namespace ArchiveStage

/-- The moment at which a call created the file of its blob. -/
def created? : ArchiveStage → Option Timestamp
  | begun _ created => some created
  | stored _ created _ => some created
  | _ => none

/-- Whether a call has got so far that its blob was complete, in a file that was
    created at this moment. -/
def HasStored (created : Timestamp) : ArchiveStage → Prop
  | stored _ t _ => t = created
  | ended _ => True
  | _ => False

/-- What holds of a call if `named` says whether a row names its blob, and `node`
    is what stands under the name of the blob. -/
def Holds (call : ArchiveCall) (grace now : Int) (named : Prop) (node : Option Node) :
    ArchiveStage → Prop
  | called => ¬ named ∧ node = none
  | cleared _ => ¬ named ∧ node = none
  | begun _ _ => ¬ named ∧ node = none
  | stored _ created _ => ¬ named ∧ (node = some (.file call.bytes created) ∨
      (node = none ∧ created.nanoseconds + grace ≤ now))
  | ended (.ok _) => named ∧ ∃ created, node = some (.file call.bytes created)
  | ended (.error _) => ¬ named

variable {call : ArchiveCall} {grace now later : Int} {named : Prop} {node : Option Node}
  {stage : ArchiveStage}

theorem Holds.mono (h : stage.Holds call grace now named node) (hle : now ≤ later) :
    stage.Holds call grace later named node := by
  cases stage with
  | stored key created blob =>
      obtain ⟨hnamed, hnode | ⟨hnone, hlate⟩⟩ := h
      · exact ⟨hnamed, Or.inl hnode⟩
      · exact ⟨hnamed, Or.inr ⟨hnone, Int.le_trans hlate hle⟩⟩
  | ended result => cases result <;> exact h
  | _ => exact h

/-- A blob that no row names may be deleted when its call has ended or is late. -/
theorem Holds.deleted (h : stage.Holds call grace now named node) (hnamed : ¬ named)
    {created : Timestamp} (hstored : stage.HasStored created)
    (hlate : created.nanoseconds + grace ≤ now) : stage.Holds call grace now named none := by
  cases stage with
  | stored key t blob =>
      obtain rfl : t = created := hstored
      exact ⟨hnamed, Or.inr ⟨rfl, hlate⟩⟩
  | ended result =>
      cases result with
      | ok receipt => exact absurd h.1 hnamed
      | error e => exact hnamed
  | _ => exact hstored.elim

/-- While there is a file, a call that has not stored its blob has another one. -/
theorem Holds.hasStored {bytes : Bytes} {created : Timestamp}
    (h : stage.Holds call grace now named (some (.file bytes created))) :
    stage.HasStored created := by
  cases stage with
  | stored key t blob =>
      obtain ⟨-, hnode | ⟨hnone, -⟩⟩ := h
      · cases hnode
        rfl
      · cases hnone
  | ended result => trivial
  | _ => cases h.2

end ArchiveStage

namespace ArchiveCall

variable {call : ArchiveCall} {now : Timestamp} {s t : Stores BlobStore} {stage next : ArchiveStage}

theorem Moves.hasStored (h : call.Moves now s stage next t) {created : Timestamp}
    (hstored : stage.HasStored created) : next.HasStored created := by
  cases h with
  | unvouched => trivial
  | late => trivial
  | saved => trivial
  | ended => trivial
  | _ => exact hstored.elim

/-- What holds of a call holds at its next stage, if it does not save its entry
    too late. -/
theorem Moves.holds (h : call.Moves now s stage next t) {grace : Int}
    (hprompt : ∀ created receipt, stage = .stored call.key created call.outcome →
      next = .ended (.ok receipt) → now.nanoseconds < created.nanoseconds + grace)
    (hholds : stage.Holds call grace now.nanoseconds (IsNamed s.records.table.rows call.blob)
      (s.blobs.nodeOf call.blob)) :
    next.Holds call grace now.nanoseconds (IsNamed t.records.table.rows call.blob)
      (t.blobs.nodeOf call.blob) := by
  cases h with
  | refused e hfound hthere => exact hholds.1
  | keyless e hnot => exact hholds.1
  | cleared hnew => exact hholds
  | begun =>
      refine ⟨hholds.1, Eq.trans ?_ hholds.2⟩
      exact s.blobs.root.get?_set_of_ne _ (BlobStore.text_ne_temporaryName _ _)
  | discarded created e hnot => exact hholds.1
  | uncounted created e hcompleted hnot => exact hholds.1
  | stored created hcompleted hbuffer =>
      exact ⟨hholds.1, Or.inl (Directory.get?_set_self _ _ _)⟩
  | unvouched created e hnot => exact hholds.1
  | late created hvouched hfound => exact hholds.1
  | saved created verify records hvouched hnew hrows =>
      have hearly := hprompt created _ rfl rfl
      refine ⟨?_, created, ?_⟩
      · show IsNamed records.table.rows call.blob
        rw [hrows]
        exact isNamed_append_entryAt.mpr (Or.inr rfl)
      · obtain ⟨-, hnode | ⟨-, hlate⟩⟩ := hholds
        · exact hnode
        · exact absurd hearly (Int.not_lt.mpr hlate)
  | ended result => exact hholds

end ArchiveCall

/-! ## Sweeps -/

namespace Caretaker

/-- The grace period, in nanoseconds. -/
def grace (c : Caretaker) : Int := c.rules.orphanGraceSecs.toNat * 1000000000

/-- What is too young was created in the grace period before the clock was read. -/
theorem cutoff_add_grace {c : Caretaker} {now : Timestamp} {cutoff : Int}
    (h : c.cutoff now = .ok cutoff) : cutoff + c.grace = now.nanoseconds := by
  rw [Caretaker.cutoff] at h
  split at h
  · cases h
  · split at h
    · rename_i hplace
      rw [Timestamp.secondsBefore?] at hplace
      split at hplace
      · cases h
        rw [← Option.some.inj hplace, grace]
        omega
      · cases hplace
    · cases h

/-- A sweep leaves the stores alone, or it deletes the blob that is next. -/
theorem advanceSweep_stores (c : Caretaker) (now : Timestamp) (stage : SweepStage)
    (s : Stores BlobStore) :
    (c.advanceSweep now stage s).2 = s ∨
    ∃ cutoff b left report u, stage = .collecting cutoff (b :: left) report ∧
      b.created.nanoseconds ≤ cutoff ∧ Uuid.parse? b.contentRef = some u ∧
      (c.advanceSweep now stage s).2 = { s with blobs := ⟨s.blobs.root.erase u.text⟩ } := by
  cases stage with
  | called =>
      rw [advanceSweep]
      split <;> exact Or.inl rfl
  | timed cutoff =>
      rw [advanceSweep]
      split <;> exact Or.inl rfl
  | informed cutoff known => exact Or.inl rfl
  | ended outcome => exact Or.inl rfl
  | collecting cutoff left report =>
      cases left with
      | nil => exact Or.inl rfl
      | cons b left =>
          rw [advanceSweep]
          rcases collectOne_cases cutoff b report s.blobs
            with ⟨name, bytes, created, ⟨hold, hname⟩, -, hone⟩ | ⟨-, hone⟩
          · obtain ⟨u, hu, rfl⟩ := BlobStore.fileName?_eq_some_iff.mp hname
            rw [hone]
            exact Or.inr ⟨cutoff, b, left, report, u, rfl, hold, hu, rfl⟩
          · rw [hone]
            exact Or.inl rfl

end Caretaker

variable {ι κ : Type} {calls : ι → ArchiveCall} {grace now later : Int} {w w' : Traffic ι κ}

/-- What holds of a sweep.  What it may delete of the blobs that were listed was
    not named when it read the references, and if it is named by now, its file is
    too young. -/
def SweepStage.Holds (calls : ι → ArchiveCall) (grace now : Int) (w : Traffic ι κ) :
    SweepStage → Prop
  | .called => True
  | .timed cutoff => cutoff + grace ≤ now
  | .informed cutoff known => cutoff + grace ≤ now ∧ ∀ u, IsNamed w.rows u → u.text ∈ known ∨
      ∀ bytes created, w.stores.blobs.nodeOf u = some (.file bytes created) →
        cutoff < created.nanoseconds
  | .collecting cutoff left _ => cutoff + grace ≤ now ∧ ∀ b ∈ left, ∃ u, b.contentRef = u.text ∧
      (IsNamed w.rows u → cutoff < b.created.nanoseconds) ∧
      ∀ i, (calls i).blob = u → (w.archives i).HasStored b.created
  | .ended _ => True

namespace SweepStage

variable {stage : SweepStage}

theorem Holds.mono (h : stage.Holds calls grace now w) (hle : now ≤ later) :
    stage.Holds calls grace later w := by
  cases stage with
  | timed cutoff => exact Int.le_trans h hle
  | informed cutoff known => exact ⟨Int.le_trans h.1 hle, h.2⟩
  | collecting cutoff left report => exact ⟨Int.le_trans h.1 hle, h.2⟩
  | _ => trivial

/-- What holds of a sweep holds on while each blob that a row comes to name is too
    young for it. -/
theorem Holds.keep (h : stage.Holds calls grace now w)
    (hnew : ∀ cutoff, cutoff + grace ≤ now → ∀ u, IsNamed w'.rows u → ¬ IsNamed w.rows u →
      (∀ bytes created, w'.stores.blobs.nodeOf u = some (.file bytes created) →
        cutoff < created.nanoseconds) ∧
      ∀ created, (∀ i, (calls i).blob = u → (w.archives i).HasStored created) →
        cutoff < created.nanoseconds)
    (hnodes : ∀ u bytes created, IsNamed w.rows u →
      w'.stores.blobs.nodeOf u = some (.file bytes created) →
      w.stores.blobs.nodeOf u = some (.file bytes created))
    (hstored : ∀ i created, (w.archives i).HasStored created → (w'.archives i).HasStored created) :
    stage.Holds calls grace now w' := by
  cases stage with
  | called => trivial
  | timed cutoff => exact h
  | informed cutoff known =>
      refine ⟨h.1, fun u hu => ?_⟩
      by_cases hnamed : IsNamed w.rows u
      · rcases h.2 u hnamed with hknown | hyoung
        · exact Or.inl hknown
        · exact Or.inr fun bytes created hnode =>
            hyoung bytes created (hnodes u bytes created hnamed hnode)
      · exact Or.inr (hnew cutoff h.1 u hu hnamed).1
  | collecting cutoff left report =>
      refine ⟨h.1, fun b hb => ?_⟩
      obtain ⟨u, href, hyoung, hcalls⟩ := h.2 b hb
      refine ⟨u, href, fun hu => ?_, fun i hi => hstored i b.created (hcalls i hi)⟩
      by_cases hnamed : IsNamed w.rows u
      · exact hyoung hnamed
      · exact (hnew cutoff h.1 u hu hnamed).2 b.created hcalls
  | ended outcome => trivial

end SweepStage

/-! ## Traffic -/

namespace Traffic

/-- What holds of all calls and sweeps. -/
structure Guarded (calls : ι → ArchiveCall) (grace now : Int) (w : Traffic ι κ) : Prop where
  reaches : Reaches calls w
  files : BlobStore.AreOwnNames w.stores.blobs.root
  refs : ∀ r ∈ w.rows, ∀ ref, r .contentRefId = .text ref → BlobStore.IsOwnName ref
  archives : ∀ i, (w.archives i).Holds (calls i) grace now (IsNamed w.rows (calls i).blob)
    (w.stores.blobs.nodeOf (calls i).blob)
  sweeps : ∀ j, (w.sweeps j).Holds calls grace now w

/-- Whether no row names a blob nor will name it: its call has ended, or it is too
    late for it to save a record. -/
structure IsLost (calls : ι → ArchiveCall) (grace now : Int) (w : Traffic ι κ) (u : Uuid) :
    Prop where
  unnamed : ¬ IsNamed w.rows u
  late : ∀ i, (calls i).blob = u → ∃ created, (w.archives i).HasStored created ∧
    created.nanoseconds + grace ≤ now

variable {c : Caretaker} {s : Stores BlobStore} {time : Timestamp} {u : Uuid}

theorem Guarded.mono (h : Guarded calls grace now w) (hle : now ≤ later) :
    Guarded calls grace later w where
  reaches := h.reaches
  files := h.files
  refs := h.refs
  archives := fun i => (h.archives i).mono hle
  sweeps := fun j => (h.sweeps j).mono hle

theorem IsLost.mono (h : IsLost calls grace now w u) (hle : now ≤ later) :
    IsLost calls grace later w u where
  unnamed := h.unnamed
  late := by
    intro i hi
    obtain ⟨created, hstored, hlate⟩ := h.late i hi
    exact ⟨created, hstored, Int.le_trans hlate hle⟩

/-- A blob that a sweep deletes is lost. -/
theorem Guarded.isLost {j : κ} (h : Guarded calls grace now w) {cutoff : Int} {b : FoundBlob}
    {left : List FoundBlob} {report : JobTally}
    (hstage : w.sweeps j = .collecting cutoff (b :: left) report)
    (hold : b.created.nanoseconds ≤ cutoff) (hu : Uuid.parse? b.contentRef = some u) :
    IsLost calls grace now w u := by
  have hsweep := h.sweeps j
  rw [hstage] at hsweep
  obtain ⟨hcutoff, hleft⟩ := hsweep
  obtain ⟨v, href, hyoung, hcalls⟩ := hleft b List.mem_cons_self
  rw [href, Uuid.parse?_text] at hu
  cases hu
  constructor
  case unnamed => exact fun hnamed => absurd hold (Int.not_le.mpr (hyoung hnamed))
  case late => exact fun i hi => ⟨b.created, hcalls i hi, by omega⟩

variable [DecidableEq ι] [DecidableEq κ]

/-- Whether a call that saves its record in an event does so within the grace
    period. -/
def IsInTime (calls : ι → ArchiveCall) (c : Caretaker) (w : Traffic ι κ) :
    TrafficEvent ι κ → Prop
  | .archive i now => ∀ created receipt, (w.archives i).created? = some created →
      (step calls c w (.archive i now)).archives i = .ended (.ok receipt) →
      now.nanoseconds < created.nanoseconds + c.grace
  | .sweep _ _ => True

theorem Saves.inTime {i : ι} {created : Timestamp} (h : Saves calls c w i created time)
    (hprompt : IsInTime calls c w (.archive i time)) :
    time.nanoseconds < created.nanoseconds + c.grace := by
  obtain ⟨verify, hreceipt⟩ := h.receipt
  refine hprompt created _ ?_ hreceipt
  rw [h.ready]
  rfl

/-- What is lost stays so. -/
theorem IsLost.step (h : IsLost calls c.grace time.nanoseconds w u) (hreaches : Reaches calls w)
    {event : TrafficEvent ι κ} (hnow : event.now = time) (hprompt : IsInTime calls c w event) :
    IsLost calls c.grace time.nanoseconds (Traffic.step calls c w event) u where
  unnamed := by
    rcases rows_step_cases hreaches c event with ⟨hrows, -⟩ | ⟨i, created, now, rfl, hsaves⟩
    · rw [hrows]
      exact h.unnamed
    · rw [hsaves.rows, ArchiveCall.isNamed_append_entryAt]
      rintro (hnamed | rfl)
      · exact h.unnamed hnamed
      · -- the call with this blob is too late to save its record
        obtain ⟨t, hstored, hlate⟩ := h.late i rfl
        rw [hsaves.ready] at hstored
        obtain rfl : created = t := hstored
        obtain rfl : now = time := hnow
        exact absurd (hsaves.inTime hprompt) (Int.not_lt.mpr hlate)
  late := by
    intro i hi
    obtain ⟨created, hstored, hlate⟩ := h.late i hi
    refine ⟨created, ?_, hlate⟩
    cases event with
    | sweep j now => exact hstored
    | archive k now =>
        by_cases hik : i = k
        · subst hik
          exact (hreaches.moves c i now).hasStored hstored
        · rw [archives_step_of_ne hik]
          exact hstored

/-! ## One event -/

/-- A blob that a row comes to name is the one of a call that saves its record,
    and younger than the grace period. -/
theorem Guarded.young (h : Guarded calls c.grace time.nanoseconds w) {i : ι} {created : Timestamp}
    (hsaves : Saves calls c w i created time) (hprompt : IsInTime calls c w (.archive i time))
    {cutoff : Int} (hcutoff : cutoff + c.grace ≤ time.nanoseconds) :
    (∀ bytes t, w.stores.blobs.nodeOf (calls i).blob = some (.file bytes t) →
      cutoff < t.nanoseconds) ∧
    ∀ t, (w.archives i).HasStored t → cutoff < t.nanoseconds := by
  have hearly := hsaves.inTime hprompt
  have hstored : ∀ t, (w.archives i).HasStored t → cutoff < t.nanoseconds := by
    intro t ht
    rw [hsaves.ready] at ht
    obtain rfl : created = t := ht
    omega
  refine ⟨fun bytes t hnode => hstored t ?_, hstored⟩
  have harchive := h.archives i
  rw [hnode] at harchive
  exact harchive.hasStored

/-- An event of a call is nothing to a call with another blob. -/
theorem Guarded.holds_of_ne (h : Guarded calls c.grace time.nanoseconds w) {i k : ι}
    (hki : k ≠ i) (hblob : (calls k).blob ≠ (calls i).blob) :
    ((Traffic.step calls c w (.archive i time)).archives k).Holds (calls k) c.grace
      time.nanoseconds (IsNamed (Traffic.step calls c w (.archive i time)).rows (calls k).blob)
      ((Traffic.step calls c w (.archive i time)).stores.blobs.nodeOf (calls k).blob) := by
  have hnamed : IsNamed (Traffic.step calls c w (.archive i time)).rows (calls k).blob
      ↔ IsNamed w.rows (calls k).blob := by
    rcases rows_step_archive h.reaches c i time with ⟨hsame, -⟩ | ⟨created, hsaves⟩
    · rw [hsame]
    · rw [hsaves.rows, ArchiveCall.isNamed_append_entryAt]
      exact or_iff_left hblob
  have hnode := ((h.reaches.moves c i time).nodeOf (calls k).blob).resolve_right
    fun heq => hblob heq.1
  rw [archives_step_of_ne hki, hnode, propext hnamed]
  exact h.archives k

/-- What holds of a sweep holds after an event of a call: the blob that the call
    may have saved a record for is too young. -/
theorem Guarded.keep_archive (h : Guarded calls c.grace time.nanoseconds w) {i : ι}
    (hprompt : IsInTime calls c w (.archive i time)) {stage : SweepStage}
    (hstage : stage.Holds calls c.grace time.nanoseconds w) :
    stage.Holds calls c.grace time.nanoseconds (Traffic.step calls c w (.archive i time)) := by
  have hmoves := h.reaches.moves c i time
  refine hstage.keep (fun cutoff hcutoff u hu hnot => ?_) (fun u bytes t hu hnode => ?_)
    (fun k t hstored => ?_)
  · rcases rows_step_archive h.reaches c i time with ⟨hsame, -⟩ | ⟨created, hsaves⟩
    · rw [hsame] at hu
      exact absurd hu hnot
    · rw [hsaves.rows, ArchiveCall.isNamed_append_entryAt] at hu
      obtain rfl := hu.resolve_left hnot
      obtain ⟨hfile, hstored⟩ := h.young hsaves hprompt hcutoff
      rw [hsaves.blobs]
      exact ⟨hfile, fun t hcalls => hstored t (hcalls i rfl)⟩
  · -- the blob that is completed is not one that a row names
    rcases hmoves.nodeOf u with hsame | ⟨rfl, created, hbegun, -⟩
    · exact hsame.symm.trans hnode
    · have harchive := h.archives i
      rw [hbegun] at harchive
      exact absurd hu harchive.1
  · by_cases hki : k = i
    · subst hki
      exact hmoves.hasStored hstored
    · rw [archives_step_of_ne hki]
      exact hstored

/-- What holds of all holds after an event of a call. -/
theorem Guarded.step_archive (hapart : ∀ i j, (calls i).blob = (calls j).blob → i = j)
    (h : Guarded calls c.grace time.nanoseconds w) {i : ι}
    (hprompt : IsInTime calls c w (.archive i time)) :
    Guarded calls c.grace time.nanoseconds (Traffic.step calls c w (.archive i time)) := by
  have hmoves := h.reaches.moves c i time
  constructor
  case reaches => exact h.reaches.step _
  case files => exact hmoves.areOwnNames h.files
  case refs =>
    rcases rows_step_archive h.reaches c i time with ⟨hsame, -⟩ | ⟨created, hsaves⟩
    · rw [hsame]
      exact h.refs
    · rw [hsaves.rows]
      intro r hr ref href
      rcases List.mem_append.mp hr with hr | hr
      · exact h.refs r hr ref href
      · rw [List.mem_singleton.mp hr] at href
        cases href
        exact BlobStore.isOwnName_text _
  case archives =>
    intro k
    by_cases hki : k = i
    · subst hki
      refine hmoves.holds (fun created receipt hstored => hprompt created receipt ?_) (h.archives k)
      rw [hstored]
      rfl
    · exact h.holds_of_ne hki fun heq => hki (hapart k i heq)
  case sweeps => exact fun j => h.keep_archive hprompt (h.sweeps j)

omit [DecidableEq ι] [DecidableEq κ] in
/-- What holds of a sweep holds at its next stage. -/
theorem Guarded.holds_advanceSweep (h : Guarded calls c.grace time.nanoseconds w) (j : κ) :
    (c.advanceSweep time (w.sweeps j) w.stores).1.Holds calls c.grace time.nanoseconds w := by
  have hsweep := h.sweeps j
  cases hstage : w.sweeps j with
  | called =>
      rw [Caretaker.advanceSweep]
      cases hcutoff : c.cutoff time with
      | error outcome => trivial
      | ok cutoff => exact Int.le_of_eq (Caretaker.cutoff_add_grace hcutoff)
  | timed cutoff =>
      rw [hstage] at hsweep
      rw [Caretaker.advanceSweep]
      cases hknown : w.stores.records.references with
      | error e => trivial
      | ok known =>
          refine ⟨hsweep, fun u hu => Or.inl ?_⟩
          obtain ⟨r, hr, ref, href, hspells⟩ := hu
          rw [← h.refs r hr ref href u hspells]
          exact (RecordStore.mem_references hknown).mpr ⟨r, hr, href⟩
  | informed cutoff known =>
      rw [hstage] at hsweep
      obtain ⟨hcutoff, hknown⟩ := hsweep
      refine ⟨hcutoff, fun b hb => ?_⟩
      -- a blob that is listed is a file, and its name is the text of its UUID
      obtain ⟨hlisted, hunknown⟩ := List.mem_filter.mp hb
      obtain ⟨⟨bytes, hfile⟩, name, hname⟩ := (BlobStore.mem_list_iff _).mp hlisted
      obtain ⟨u, hspells, -⟩ := BlobStore.fileName?_eq_some_iff.mp hname
      have href := h.files b.contentRef _ hfile u hspells
      have hnode : w.stores.blobs.nodeOf u = some (.file bytes b.created) := by
        rw [BlobStore.nodeOf, ← href]
        exact hfile
      refine ⟨u, href, fun hu => ?_, fun i hi => ?_⟩
      · rcases hknown u hu with hmem | hyoung
        · rw [← href] at hmem
          rw [List.contains_iff_mem.mpr hmem] at hunknown
          cases hunknown
        · exact hyoung bytes b.created hnode
      · subst hi
        have harchive := h.archives i
        rw [hnode] at harchive
        exact harchive.hasStored
  | collecting cutoff left report =>
      rw [hstage] at hsweep
      cases left with
      | nil => trivial
      | cons b left => exact ⟨hsweep.1, fun b' hb' => hsweep.2 b' (List.mem_cons_of_mem b hb')⟩
  | ended outcome => trivial

/-- A sweep leaves the blobs alone, or it deletes one that is lost. -/
theorem Guarded.blobs_step_sweep (h : Guarded calls c.grace time.nanoseconds w) (j : κ) :
    (Traffic.step calls c w (.sweep j time)).stores.blobs = w.stores.blobs ∨
    ∃ u, IsLost calls c.grace time.nanoseconds w u ∧
      (Traffic.step calls c w (.sweep j time)).stores.blobs
        = ⟨w.stores.blobs.root.erase u.text⟩ := by
  rcases c.advanceSweep_stores time (w.sweeps j) w.stores
    with hsame | ⟨cutoff, b, left, report, u, hstage, hold, hu, herased⟩
  · exact Or.inl (congrArg Stores.blobs hsame)
  · exact Or.inr ⟨u, h.isLost hstage hold hu, congrArg Stores.blobs herased⟩

/-- What holds of a sweep holds after an event of one. -/
theorem Guarded.keep_sweep (h : Guarded calls c.grace time.nanoseconds w) (j : κ)
    {stage : SweepStage} (hstage : stage.Holds calls c.grace time.nanoseconds w) :
    stage.Holds calls c.grace time.nanoseconds (Traffic.step calls c w (.sweep j time)) := by
  refine hstage.keep (fun cutoff _ u hu hnot => ?_) (fun u bytes t hu hnode => ?_)
    (fun k t hstored => hstored)
  · rw [rows_step_sweep] at hu
    exact absurd hu hnot
  · rcases h.blobs_step_sweep (c := c) j with hsame | ⟨v, hlost, herased⟩
    · rw [hsame] at hnode
      exact hnode
    · have hne : u ≠ v := fun heq => hlost.unnamed (heq ▸ hu)
      rw [herased, BlobStore.nodeOf_erase_of_ne hne] at hnode
      exact hnode

/-- What holds of all holds after an event of a sweep. -/
theorem Guarded.step_sweep (h : Guarded calls c.grace time.nanoseconds w) (j : κ) :
    Guarded calls c.grace time.nanoseconds (Traffic.step calls c w (.sweep j time)) := by
  have hblobs := h.blobs_step_sweep (c := c) j
  constructor
  case reaches => exact h.reaches.step _
  case files =>
    rcases hblobs with hsame | ⟨v, -, herased⟩
    · rw [hsame]
      exact h.files
    · rw [herased]
      exact h.files.erase _
  case refs =>
    rw [rows_step_sweep]
    exact h.refs
  case archives =>
    intro k
    have harchive := h.archives k
    rw [rows_step_sweep, archives_step_sweep]
    rcases hblobs with hsame | ⟨v, hlost, herased⟩
    · rw [hsame]
      exact harchive
    · rw [herased]
      by_cases hk : (calls k).blob = v
      · obtain ⟨created, hstored, hlate⟩ := hlost.late k hk
        have hnone : BlobStore.nodeOf ⟨w.stores.blobs.root.erase v.text⟩ (calls k).blob = none := by
          rw [hk]
          exact w.stores.blobs.root.get?_erase_self _
        rw [hnone]
        exact harchive.deleted (hk ▸ hlost.unnamed) hstored hlate
      · rw [BlobStore.nodeOf_erase_of_ne hk]
        exact harchive
  case sweeps =>
    intro k
    by_cases hkj : k = j
    · subst hkj
      rw [sweeps_step_self]
      exact h.keep_sweep k (h.holds_advanceSweep k)
    · rw [sweeps_step_of_ne hkj]
      exact h.keep_sweep j (h.sweeps k)

theorem Guarded.step (hapart : ∀ i j, (calls i).blob = (calls j).blob → i = j)
    (h : Guarded calls c.grace time.nanoseconds w) {event : TrafficEvent ι κ}
    (hnow : event.now = time) (hprompt : IsInTime calls c w event) :
    Guarded calls c.grace time.nanoseconds (Traffic.step calls c w event) := by
  cases event with
  | archive i now =>
      obtain rfl : now = time := hnow
      exact h.step_archive hapart hprompt
  | sweep j now =>
      obtain rfl : now = time := hnow
      exact h.step_sweep j

/-- What stands under the text of a UUID stays, or the blob is lost. -/
theorem Guarded.nodeOf_step (h : Guarded calls c.grace time.nanoseconds w)
    {event : TrafficEvent ι κ} (hnow : event.now = time) {node : Node}
    (hnode : w.stores.blobs.nodeOf u = some node) :
    (Traffic.step calls c w event).stores.blobs.nodeOf u = some node ∨
      IsLost calls c.grace time.nanoseconds w u := by
  cases event with
  | archive i now =>
      rcases (h.reaches.moves c i now).nodeOf u with hsame | ⟨rfl, created, hbegun, -⟩
      · exact Or.inl (hsame.trans hnode)
      · -- nothing stands there while the call writes its blob
        have harchive := h.archives i
        rw [hbegun] at harchive
        cases harchive.2.symm.trans hnode
  | sweep j now =>
      obtain rfl : now = time := hnow
      rcases h.blobs_step_sweep (c := c) j with hsame | ⟨v, hlost, herased⟩
      · rw [hsame]
        exact Or.inl hnode
      · by_cases huv : u = v
        · exact Or.inr (huv ▸ hlost)
        · rw [herased, BlobStore.nodeOf_erase_of_ne huv]
          exact Or.inl hnode

/-! ## Any order of events -/

/-- Whether stores are in order for calls: the names of blobs and the references to
    them are the texts of their UUIDs, and the blobs of the calls are new. -/
structure AreOrdinary (calls : ι → ArchiveCall) (s : Stores BlobStore) : Prop where
  files : BlobStore.AreOwnNames s.blobs.root
  refs : ∀ r ∈ s.records.table.rows, ∀ ref, r .contentRefId = .text ref →
    BlobStore.IsOwnName ref
  unused : ∀ i, s.blobs.nodeOf (calls i).blob = none
  unnamed : ∀ i, ¬ IsNamed s.records.table.rows (calls i).blob
  apart : ∀ i j, (calls i).blob = (calls j).blob → i = j

/-- The moment at which a call created the file of its blob is that of an event. -/
theorem exists_created {events : List (TrafficEvent ι κ)} {i : ι} {created : Timestamp}
    (h : ((run calls c s events).archives i).created? = some created) :
    ∃ before rest, events = before ++ .archive i created :: rest ∧
      (run calls c s before).archives i = .cleared (calls i).key := by
  induction events using List.reverseRecOn with
  | nil => cases h
  | append_singleton events event ih =>
      have hextend : ((run calls c s events).archives i).created? = some created →
          ∃ before rest, events ++ [event] = before ++ .archive i created :: rest ∧
            (run calls c s before).archives i = .cleared (calls i).key := by
        intro hbefore
        obtain ⟨before, rest, heq, hstage⟩ := ih hbefore
        refine ⟨before, rest ++ [event], ?_, hstage⟩
        rw [heq, List.append_assoc, List.cons_append]
      rw [run_concat] at h
      cases event with
      | sweep j now => exact hextend h
      | archive k now =>
          by_cases hik : i = k
          · subst hik
            have hreaches : Reaches calls (run calls c s events) := reaches_run events
            have hmoves := hreaches.moves c i now
            generalize hstage : (run calls c s events).archives i = stage at hmoves hextend
            generalize (step calls c (run calls c s events) (.archive i now)).archives i = next
              at hmoves h
            generalize (step calls c (run calls c s events) (.archive i now)).stores = t at hmoves
            cases hmoves with
            | begun =>
                cases h
                exact ⟨events, [], rfl, hstage⟩
            | stored created hcompleted => exact hextend h
            | _ => cases h
          · rw [archives_step_of_ne hik] at h
            exact hextend h

/-- Whether the clock does not go back, and every call that saves its record does so
    within the grace period. -/
structure IsTimely (calls : ι → ArchiveCall) (c : Caretaker) (s : Stores BlobStore)
    (events : List (TrafficEvent ι κ)) : Prop where
  forward : events.Pairwise fun e d => e.now.nanoseconds ≤ d.now.nanoseconds
  inTime : ∀ before event rest, events = before ++ event :: rest →
    IsInTime calls c (run calls c s before) event

variable {events : List (TrafficEvent ι κ)}

theorem IsTimely.of_append {rest : List (TrafficEvent ι κ)}
    (h : IsTimely calls c s (events ++ rest)) : IsTimely calls c s events where
  forward := (List.pairwise_append.mp h.forward).1
  inTime := by
    rintro before event after rfl
    exact h.inTime before event (after ++ rest) (by rw [List.append_assoc, List.cons_append])

/-- No event before the last was later. -/
theorem IsTimely.le_last {event : TrafficEvent ι κ} (h : IsTimely calls c s (events ++ [event])) :
    ∀ e ∈ events, e.now.nanoseconds ≤ event.now.nanoseconds :=
  fun e he => (List.pairwise_append.mp h.forward).2.2 e he event (List.mem_singleton_self event)

theorem IsTimely.last_inTime {event : TrafficEvent ι κ}
    (h : IsTimely calls c s (events ++ [event])) : IsInTime calls c (run calls c s events) event :=
  h.inTime events event [] rfl

theorem guarded_run (hstart : AreOrdinary calls s) (htimely : IsTimely calls c s events) {now : Int}
    (hnow : ∀ event ∈ events, event.now.nanoseconds ≤ now) :
    Guarded calls c.grace now (run calls c s events) := by
  induction events using List.reverseRecOn generalizing now with
  | nil =>
      constructor
      case reaches => exact fun i => trivial
      case files => exact hstart.files
      case refs => exact hstart.refs
      case archives => exact fun i => ⟨hstart.unnamed i, hstart.unused i⟩
      case sweeps => exact fun j => trivial
  | append_singleton events event ih =>
      have hbefore := ih htimely.of_append htimely.le_last
      rw [run_concat]
      refine (hbefore.step hstart.apart rfl htimely.last_inTime).mono (hnow event ?_)
      exact List.mem_append_right _ (List.mem_singleton_self event)

omit [DecidableEq ι] [DecidableEq κ] in
theorem exists_latest (events : List (TrafficEvent ι κ)) :
    ∃ now, ∀ event ∈ events, event.now.nanoseconds ≤ now := by
  induction events with
  | nil => exact ⟨0, fun _ h => nomatch h⟩
  | cons event events ih =>
      obtain ⟨now, hnow⟩ := ih
      refine ⟨max event.now.nanoseconds now, List.forall_mem_cons.mpr ⟨Int.le_max_left _ _, ?_⟩⟩
      exact fun e he => Int.le_trans (hnow e he) (Int.le_max_right _ _)

/-- What is lost stays so. -/
theorem isLost_run {before rest : List (TrafficEvent ι κ)}
    (htimely : IsTimely calls c s (before ++ rest))
    (h : IsLost calls c.grace now (run calls c s before) u)
    (hrest : ∀ event ∈ rest, now ≤ event.now.nanoseconds) (hle : now ≤ later)
    (hlater : ∀ event ∈ rest, event.now.nanoseconds ≤ later) :
    IsLost calls c.grace later (run calls c s (before ++ rest)) u := by
  induction rest using List.reverseRecOn generalizing later with
  | nil =>
      rw [List.append_nil]
      exact h.mono hle
  | append_singleton rest event ih =>
      have hmem : event ∈ rest ++ [event] := List.mem_append_right _ (List.mem_singleton_self event)
      rw [← List.append_assoc] at htimely ⊢
      have hlost := ih htimely.of_append (fun e he => hrest e (List.mem_append_left _ he))
        (hrest event hmem) fun e he => htimely.le_last e (List.mem_append_right _ he)
      rw [run_concat]
      exact (hlost.step (reaches_run _) rfl htimely.last_inTime).mono (hlater event hmem)

/-- No row goes away. -/
theorem mem_rows_append {before : List (TrafficEvent ι κ)} (rest : List (TrafficEvent ι κ))
    {r : Row} (h : r ∈ (run calls c s before).rows) : r ∈ (run calls c s (before ++ rest)).rows := by
  induction rest using List.reverseRecOn with
  | nil =>
      rw [List.append_nil]
      exact h
  | append_singleton rest event ih =>
      rw [← List.append_assoc, run_concat]
      rcases rows_step_cases (reaches_run (before ++ rest)) c event
        with ⟨hrows, -⟩ | ⟨i, created, now, rfl, hsaves⟩
      · rw [hrows]
        exact ih
      · rw [hsaves.rows]
        exact List.mem_append_left _ ih

/-- A blob that is named in the end stays where it is. -/
theorem nodeOf_run (hstart : AreOrdinary calls s) {before middle rest : List (TrafficEvent ι κ)}
    (htimely : IsTimely calls c s (before ++ middle ++ rest))
    (hnamed : IsNamed (run calls c s (before ++ middle ++ rest)).rows u) {node : Node}
    (hnode : (run calls c s before).stores.blobs.nodeOf u = some node) :
    (run calls c s (before ++ middle)).stores.blobs.nodeOf u = some node := by
  induction middle using List.reverseRecOn generalizing rest with
  | nil =>
      rw [List.append_nil]
      exact hnode
  | append_singleton middle event ih =>
      have hsplit : before ++ (middle ++ [event]) ++ rest = before ++ middle ++ event :: rest := by
        simp only [List.append_assoc, List.cons_append, List.nil_append]
      rw [hsplit] at htimely hnamed
      have hnode' := ih htimely hnamed
      obtain ⟨-, hforward, hpast⟩ := List.pairwise_append.mp htimely.forward
      have hguarded := guarded_run hstart htimely.of_append
        fun e he => hpast e he event List.mem_cons_self
      rw [← List.append_assoc, run_concat]
      rcases hguarded.nodeOf_step rfl hnode' with hstays | hlost
      · exact hstays
      · -- a blob that is lost is not named in the end
        have hrest : ∀ e ∈ event :: rest, event.now.nanoseconds ≤ e.now.nanoseconds :=
          List.forall_mem_cons.mpr ⟨Int.le_refl _, (List.pairwise_cons.mp hforward).1⟩
        obtain ⟨later, hlater⟩ := exists_latest (event :: rest)
        have hend := isLost_run htimely hlost hrest (hlater event List.mem_cons_self) hlater
        exact absurd hnamed hend.unnamed

/-! ## Named blobs -/

/-- What records keep through this order of events. -/
structure KeepsNamed (calls : ι → ArchiveCall) (c : Caretaker) (s : Stores BlobStore)
    (events : List (TrafficEvent ι κ)) : Prop where
  /-- Once a blob is there that a record names now or later, it stays there. -/
  stays : ∀ before middle rest u node, events = before ++ middle ++ rest →
    IsNamed (run calls c s events).rows u →
    (run calls c s before).stores.blobs.nodeOf u = some node →
    (run calls c s (before ++ middle)).stores.blobs.nodeOf u = some node
  /-- No record goes away. -/
  rows : ∀ before rest r, events = before ++ rest → r ∈ (run calls c s before).rows →
    r ∈ (run calls c s events).rows
  /-- The record of a call that has archived its content names its blob, which is
  there with all its bytes. -/
  complete : ∀ i, (run calls c s events).HasArchived i →
    IsNamed (run calls c s events).rows (calls i).blob ∧
    ∃ created, (run calls c s events).stores.blobs.nodeOf (calls i).blob
      = some (.file (calls i).bytes created)

/-- No blob that a record names is swept, whatever order the stages of calls and
    sweeps come in, if no call saves its record later than a grace period after it
    created the file of its blob. -/
theorem named_blobs_stay (calls : ι → ArchiveCall) (c : Caretaker) (s : Stores BlobStore)
    (events : List (TrafficEvent ι κ)) (hstart : AreOrdinary calls s)
    (htimely : IsTimely calls c s events) : KeepsNamed calls c s events := by
  constructor
  case stays =>
    rintro before middle rest u node rfl hnamed hnode
    exact nodeOf_run hstart htimely hnamed hnode
  case rows =>
    rintro before rest r rfl hr
    exact mem_rows_append rest hr
  case complete =>
    rintro i ⟨receipt, hreceipt⟩
    obtain ⟨now, hnow⟩ := exists_latest events
    have harchive := (guarded_run hstart htimely hnow).archives i
    rw [hreceipt] at harchive
    exact harchive

end Traffic

/-! ## A sweep around a call -/

namespace Sample

/-- A caretaker that gives blobs a minute. -/
def patient : Caretaker where
  archiver := archiver
  rules := ⟨"flagged", 1, {}, false, 60⟩
  draws := fun _ => draws

/-- A sweep reads the references while a call writes its blob, and lists the blobs
    before the call saves its record. -/
def overlap : List (TrafficEvent Unit Unit) :=
  [.archive () draws.now, .archive () draws.now, .sweep () draws.now, .sweep () draws.now,
    .archive () draws.now, .sweep () draws.now, .archive () draws.now, .sweep () draws.now,
    .sweep () draws.now]

theorem now_of_mem_overlap {event : TrafficEvent Unit Unit} (h : event ∈ overlap) :
    event.now = draws.now := by
  simp only [overlap, List.mem_cons, List.not_mem_nil, or_false] at h
  rcases h with rfl | rfl | rfl | rfl | rfl | rfl | rfl | rfl | rfl <;> rfl

/-- The call that archives. -/
def lone (_ : Unit) : ArchiveCall := rivals false

theorem areOrdinary_lone : Traffic.AreOrdinary lone stores where
  files := fun _ _ h => nomatch h
  refs := fun _ h => nomatch h
  unused := fun _ => rfl
  unnamed := fun _ ⟨_, h, _⟩ => nomatch h
  apart := fun _ _ _ => rfl

/-- All of it takes no time at all. -/
theorem isTimely_overlap : Traffic.IsTimely lone patient stores overlap where
  forward := by
    refine List.pairwise_of_forall_mem_list fun e he d hd => ?_
    have hsame : e.now = d.now := (now_of_mem_overlap he).trans (now_of_mem_overlap hd).symm
    exact Int.le_of_eq (congrArg Timestamp.nanoseconds hsame)
  inTime := by
    rintro before event rest hsplit
    cases event with
    | sweep j now => trivial
    | archive i now =>
        intro created receipt hcreated _
        obtain ⟨first, last, heq, -⟩ := Traffic.exists_created hcreated
        have hmem : .archive i now ∈ overlap := hsplit ▸ List.mem_append_right _ List.mem_cons_self
        have hmem' : .archive i created ∈ overlap := by
          rw [hsplit, heq]
          exact List.mem_append_left _ (List.mem_append_right _ List.mem_cons_self)
        have hnow : now = draws.now := now_of_mem_overlap hmem
        have hthen : created = draws.now := now_of_mem_overlap hmem'
        rw [hnow, hthen]
        decide

end Sample

namespace Traffic

/-- The sweep that was around it leaves the blob of a call where it is. -/
theorem named_blobs_stay_of_overlap :
    AreOrdinary Sample.lone Sample.stores ∧
    IsTimely Sample.lone Sample.patient Sample.stores Sample.overlap ∧
    KeepsNamed Sample.lone Sample.patient Sample.stores Sample.overlap ∧
    ∃ created, (run Sample.lone Sample.patient Sample.stores Sample.overlap).stores.blobs.nodeOf
      Sample.draws.blob = some (.file [104, 105, 33] created) := by
  have hkeeps := named_blobs_stay Sample.lone Sample.patient Sample.stores Sample.overlap
    Sample.areOrdinary_lone Sample.isTimely_overlap
  have harchived :
      (run Sample.lone Sample.patient Sample.stores Sample.overlap).HasArchived () := by
    have hid : ∀ i, (Sample.lone i).content.id = "report" := fun _ => rfl
    have hcontest := contest_run (s := Sample.stores) hid rfl Sample.patient Sample.overlap
    have hclock : ∀ event ∈ Sample.overlap, event.now.HasPlainYear := by
      intro event hevent
      rw [Sample.now_of_mem_overlap hevent]
      decide
    obtain ⟨result, hresult⟩ : ∃ result,
        (run Sample.lone Sample.patient Sample.stores Sample.overlap).archives () = .ended result :=
      ended_run (by decide)
    cases result with
    | ok receipt => exact ⟨receipt, hresult⟩
    | error e =>
        have hright := (Sample.rivals_succeed false).right
        exact (hcontest.refusals hclock () e hresult hright).1.elim fun _ h => h
  obtain ⟨-, created, hnode⟩ := hkeeps.complete () harchived
  exact ⟨Sample.areOrdinary_lone, Sample.isTimely_overlap, hkeeps, created, hnode⟩

end Traffic

end ContentVault
