import ContentVault.Proofs.Jobs.Grace

/-! # Blobs that are completed during a sweep

    A sweep reads the references before it lists the blobs.  A blob that gets its
    name in between is listed, and no record names it yet.  What is to save it is
    its age, but that is the age of its file, which the call created when it began
    to write the blob and not when the blob was complete.  So the sweep spares it
    exactly if its file was created less than a grace period before the sweep read
    the clock.  A blob that took longer to write is deleted as soon as it is there,
    and the record that the call saves afterwards names a blob that is gone
    (`late_blob_swept`).

    What carries this is that such a sweep knows no reference to the blob and
    lists it with the moment at which its file was created (`Overlaps`).

    Main statement: `late_blobs_judged_by_creation`. -/

namespace ContentVault

variable {ι κ : Type} {calls : ι → ArchiveCall} {w w' : Traffic ι κ}

/-! ## What sweeps go by -/

namespace SweepStage

/-- The moment up to which files are old enough. -/
def cutoff? : SweepStage → Option Int
  | timed cutoff => some cutoff
  | informed cutoff _ => some cutoff
  | collecting cutoff _ _ => some cutoff
  | _ => none

/-- What a sweep has come to, if it has ended. -/
def outcome? : SweepStage → Option RunOutcome
  | ended outcome => some outcome
  | _ => none

theorem eq_ended_of_outcome? {stage : SweepStage} {outcome : RunOutcome}
    (h : stage.outcome? = some outcome) : stage = .ended outcome := by
  cases stage with
  | ended outcome' => exact congrArg ended (Option.some.inj h)
  | _ => cases h

/-- Whether what a sweep knows is so: each reference stands in a row, and a blob of a
    call that was listed had been stored, in a file of that age. -/
def IsGrounded (calls : ι → ArchiveCall) (w : Traffic ι κ) : SweepStage → Prop
  | informed _ known => ∀ ref ∈ known, ∃ r ∈ w.rows, r .contentRefId = .text ref
  | collecting _ left _ => ∀ b ∈ left, ∀ i, Uuid.parse? b.contentRef = some (calls i).blob →
      (w.archives i).HasStored b.created
  | _ => True

theorem IsGrounded.keep {stage : SweepStage} (h : stage.IsGrounded calls w)
    (hrows : ∀ r ∈ w.rows, r ∈ w'.rows)
    (hstored : ∀ i created, (w.archives i).HasStored created → (w'.archives i).HasStored created) :
    stage.IsGrounded calls w' := by
  cases stage with
  | informed cutoff known =>
      intro ref href
      obtain ⟨r, hr, htext⟩ := h ref href
      exact ⟨r, hrows r hr, htext⟩
  | collecting cutoff left report => exact fun b hb i hi => hstored i b.created (h b hb i hi)
  | _ => trivial

end SweepStage

namespace Caretaker

variable {c : Caretaker} {now : Timestamp} {stage : SweepStage} {s : Stores BlobStore}

/-- What a sweep goes by it goes by to its end, from its reading of the clock on. -/
theorem cutoff?_advanceSweep {cutoff : Int}
    (h : (c.advanceSweep now stage s).1.cutoff? = some cutoff) :
    stage.cutoff? = some cutoff ∨ (stage = .called ∧ cutoff + c.grace = now.nanoseconds) := by
  cases stage with
  | called =>
      rw [advanceSweep] at h
      cases hcutoff : c.cutoff now with
      | error outcome =>
          rw [hcutoff] at h
          cases h
      | ok t =>
          rw [hcutoff] at h
          cases h
          exact Or.inr ⟨rfl, cutoff_add_grace hcutoff⟩
  | timed t =>
      rw [advanceSweep] at h
      split at h
      · cases h
      · exact Or.inl h
  | informed t known => exact Or.inl h
  | collecting t left report =>
      cases left with
      | nil => cases h
      | cons b left => exact Or.inl h
  | ended outcome => cases h

end Caretaker

namespace Traffic

variable [DecidableEq ι] [DecidableEq κ] {c : Caretaker} {s : Stores BlobStore}
  {now : Timestamp} {u : Uuid}

/-- Whether a sweep has read the clock, with this reading. -/
def HasRead (calls : ι → ArchiveCall) (c : Caretaker) (s : Stores BlobStore)
    (events : List (TrafficEvent ι κ)) (j : κ) (reading : Timestamp) : Prop :=
  ∃ before rest, events = before ++ .sweep j reading :: rest ∧
    (run calls c s before).sweeps j = .called

/-- What a sweep goes by follows from its reading of the clock. -/
theorem exists_hasRead {events : List (TrafficEvent ι κ)} {j : κ} {cutoff : Int}
    (h : ((run calls c s events).sweeps j).cutoff? = some cutoff) :
    ∃ reading, HasRead calls c s events j reading ∧ cutoff + c.grace = reading.nanoseconds := by
  induction events using List.reverseRecOn with
  | nil => cases h
  | append_singleton events event ih =>
      have hextend : ((run calls c s events).sweeps j).cutoff? = some cutoff →
          ∃ reading, HasRead calls c s (events ++ [event]) j reading ∧
            cutoff + c.grace = reading.nanoseconds := by
        intro hbefore
        obtain ⟨reading, ⟨before, rest, heq, hcalled⟩, hcutoff⟩ := ih hbefore
        refine ⟨reading, ⟨before, rest ++ [event], ?_, hcalled⟩, hcutoff⟩
        rw [heq, List.append_assoc, List.cons_append]
      rw [run_concat] at h
      cases event with
      | archive i now => exact hextend h
      | sweep k now =>
          by_cases hjk : j = k
          · subst hjk
            rw [sweeps_step_self] at h
            rcases Caretaker.cutoff?_advanceSweep h with hbefore | ⟨hcalled, hcutoff⟩
            · exact hextend hbefore
            · exact ⟨now, ⟨events, [], rfl, hcalled⟩, hcutoff⟩
          · rw [sweeps_step_of_ne hjk] at h
            exact hextend h

/-- What stands under the text of a UUID stays there in an event of a sweep, or the sweep
    deletes it, which was listed and is old enough. -/
theorem nodeOf_step_sweep (calls : ι → ArchiveCall) (c : Caretaker) (w : Traffic ι κ) (j : κ)
    (now : Timestamp) (u : Uuid) :
    (step calls c w (.sweep j now)).stores.blobs.nodeOf u = w.stores.blobs.nodeOf u ∨
    ((step calls c w (.sweep j now)).stores.blobs.nodeOf u = none ∧
      ∃ cutoff b left report, w.sweeps j = .collecting cutoff (b :: left) report ∧
        b.created.nanoseconds ≤ cutoff ∧ Uuid.parse? b.contentRef = some u) := by
  rcases c.advanceSweep_stores now (w.sweeps j) w.stores
    with hsame | ⟨cutoff, b, left, report, v, hstage, hold, hv, herased⟩
  · exact Or.inl (congrArg (fun t => t.blobs.nodeOf u) hsame)
  · have hblobs : (step calls c w (.sweep j now)).stores.blobs
        = ⟨w.stores.blobs.root.erase v.text⟩ := congrArg Stores.blobs herased
    rw [hblobs]
    by_cases huv : u = v
    · subst huv
      exact Or.inr ⟨w.stores.blobs.root.get?_erase_self _, cutoff, b, left, report, hstage, hold, hv⟩
    · exact Or.inl (BlobStore.nodeOf_erase_of_ne huv)

theorem areOwnNames_step_sweep (h : BlobStore.AreOwnNames w.stores.blobs.root) (j : κ) :
    BlobStore.AreOwnNames (step calls c w (.sweep j now)).stores.blobs.root := by
  rcases c.advanceSweep_stores now (w.sweeps j) w.stores
    with hsame | ⟨cutoff, b, left, report, v, -, -, -, herased⟩
  · have hblobs : (step calls c w (.sweep j now)).stores.blobs = w.stores.blobs :=
      congrArg Stores.blobs hsame
    rw [hblobs]
    exact h
  · have hblobs : (step calls c w (.sweep j now)).stores.blobs
        = ⟨w.stores.blobs.root.erase v.text⟩ := congrArg Stores.blobs herased
    rw [hblobs]
    exact h.erase _

/-- A call that has stored its blob has done so for ever. -/
theorem Reaches.hasStored_step (h : Reaches calls w) (event : TrafficEvent ι κ) {i : ι}
    {created : Timestamp} (hstored : (w.archives i).HasStored created) :
    ((Traffic.step calls c w event).archives i).HasStored created := by
  cases event with
  | sweep j now => exact hstored
  | archive k now =>
      by_cases hik : i = k
      · subst hik
        exact (h.moves c i now).hasStored hstored
      · rw [archives_step_of_ne hik]
        exact hstored

/-! ## Before the blob is complete -/

omit [DecidableEq ι] [DecidableEq κ] in
/-- A blob that is listed under its own name is there, in a file of that age. -/
theorem nodeOf_of_mem_list {b : FoundBlob} (h : BlobStore.AreOwnNames w.stores.blobs.root)
    (hb : b ∈ w.stores.blobs.list) (hu : Uuid.parse? b.contentRef = some u) :
    b.contentRef = u.text ∧ ∃ bytes, w.stores.blobs.nodeOf u = some (.file bytes b.created) := by
  obtain ⟨⟨bytes, hfile⟩, -⟩ := (BlobStore.mem_list_iff _).mp hb
  have href := h b.contentRef _ hfile u hu
  refine ⟨href, bytes, ?_⟩
  rw [BlobStore.nodeOf, ← href]
  exact hfile

/-- What holds of calls and sweeps at any time, however long they take. -/
structure IsRegular (calls : ι → ArchiveCall) (w : Traffic ι κ) : Prop where
  reaches : Reaches calls w
  files : BlobStore.AreOwnNames w.stores.blobs.root
  stored : ∀ i bytes created, w.stores.blobs.nodeOf (calls i).blob = some (.file bytes created) →
    (w.archives i).HasStored created
  archived : ∀ i, IsNamed w.rows (calls i).blob → w.HasArchived i
  sweeps : ∀ j, (w.sweeps j).IsGrounded calls w

theorem IsRegular.step_archive (hapart : ∀ i j, (calls i).blob = (calls j).blob → i = j)
    (h : IsRegular calls w) (i : ι) :
    IsRegular calls (Traffic.step calls c w (.archive i now)) := by
  have hmoves := h.reaches.moves c i now
  constructor
  case reaches => exact h.reaches.step _
  case files => exact hmoves.areOwnNames h.files
  case stored =>
    intro k bytes created hnode
    rcases hmoves.nodeOf (calls k).blob with hsame | ⟨hblob, t, -, hnext, hfile⟩
    · exact h.reaches.hasStored_step _ (h.stored k bytes created (hsame.symm.trans hnode))
    · obtain rfl := hapart k i hblob
      cases hfile.symm.trans hnode
      rcases hnext with hnext | ⟨e, hnext⟩
      · rw [hnext]
        rfl
      · rw [hnext]
        trivial
  case archived =>
    intro k hnamed
    rcases rows_step_archive h.reaches c i now with ⟨hsame, -⟩ | ⟨created, hsaves⟩
    · rw [hsame] at hnamed
      exact (h.archived k hnamed).step _
    · rw [hsaves.rows, ArchiveCall.isNamed_append_entryAt] at hnamed
      rcases hnamed with hnamed | hblob
      · exact (h.archived k hnamed).step _
      · obtain rfl := hapart k i hblob
        obtain ⟨verify, hreceipt⟩ := hsaves.receipt
        exact ⟨_, hreceipt⟩
  case sweeps =>
    refine fun j => (h.sweeps j).keep ?_ fun k created => h.reaches.hasStored_step _
    rcases rows_step_archive h.reaches c i now with ⟨hsame, -⟩ | ⟨created, hsaves⟩
    · rw [hsame]
      exact fun r hr => hr
    · rw [hsaves.rows]
      exact fun r hr => List.mem_append_left _ hr

omit [DecidableEq ι] [DecidableEq κ] in
/-- What a sweep gets to know is so. -/
theorem IsRegular.isGrounded_advanceSweep (h : IsRegular calls w) (j : κ) :
    (c.advanceSweep now (w.sweeps j) w.stores).1.IsGrounded calls w := by
  have hsweep := h.sweeps j
  cases hstage : w.sweeps j with
  | called =>
      rw [Caretaker.advanceSweep]
      split <;> trivial
  | timed cutoff =>
      rw [Caretaker.advanceSweep]
      cases hknown : w.stores.records.references with
      | error e => trivial
      | ok known => exact fun ref href => (RecordStore.mem_references hknown).mp href
  | informed cutoff known =>
      intro b hb i hi
      obtain ⟨-, bytes, hnode⟩ := nodeOf_of_mem_list h.files (List.mem_filter.mp hb).1 hi
      exact h.stored i bytes b.created hnode
  | collecting cutoff left report =>
      rw [hstage] at hsweep
      cases left with
      | nil => trivial
      | cons b left => exact fun b' hb' => hsweep b' (List.mem_cons_of_mem b hb')
  | ended outcome => trivial

theorem IsRegular.step_sweep (h : IsRegular calls w) (j : κ) :
    IsRegular calls (Traffic.step calls c w (.sweep j now)) := by
  have hrows : (Traffic.step calls c w (.sweep j now)).rows = w.rows := rows_step_sweep j now
  have hkeep : ∀ stage : SweepStage, stage.IsGrounded calls w →
      stage.IsGrounded calls (step calls c w (.sweep j now)) := by
    refine fun stage hstage => hstage.keep ?_ fun k created => h.reaches.hasStored_step _
    rw [hrows]
    exact fun r hr => hr
  constructor
  case reaches => exact h.reaches.step _
  case files => exact areOwnNames_step_sweep h.files j
  case stored =>
    intro i bytes created hnode
    rcases nodeOf_step_sweep calls c w j now (calls i).blob with hsame | ⟨hnone, -⟩
    · exact h.stored i bytes created (hsame.symm.trans hnode)
    · cases hnone.symm.trans hnode
  case archived =>
    intro i hnamed
    rw [hrows] at hnamed
    exact h.archived i hnamed
  case sweeps =>
    intro k
    by_cases hkj : k = j
    · subst hkj
      rw [sweeps_step_self]
      exact hkeep _ (h.isGrounded_advanceSweep k)
    · rw [sweeps_step_of_ne hkj]
      exact hkeep _ (h.sweeps k)

theorem isRegular_run (hstart : AreOrdinary calls s) (events : List (TrafficEvent ι κ)) :
    IsRegular calls (run calls c s events) := by
  induction events using List.reverseRecOn with
  | nil =>
      constructor
      case reaches => exact fun i => trivial
      case files => exact hstart.files
      case stored =>
        intro i bytes created hnode
        cases (hstart.unused i).symm.trans hnode
      case archived => exact fun i hnamed => absurd hnamed (hstart.unnamed i)
      case sweeps => exact fun j => trivial
  | append_singleton events event ih =>
      rw [run_concat]
      cases event with
      | archive i now => exact ih.step_archive hstart.apart i
      | sweep j now => exact ih.step_sweep j

/-! ## From then on -/

end Traffic

namespace SweepStage

/-- What holds of a sweep that had read the references when the blob `u` was completed,
    if `node` is what stands under its name by now.  It lists the blob with the moment at which
    its file was created, and if that is old enough, the blob is gone or is still to be
    deleted. -/
def Overlaps (u : Uuid) (cutoff : Int) (created : Timestamp) (node : Option Node) :
    SweepStage → Prop
  | informed t known => t = cutoff ∧ u.text ∉ known
  | collecting t left _ => t = cutoff ∧
      (∀ b ∈ left, Uuid.parse? b.contentRef = some u → b.created = created) ∧
      (node = none ∨ cutoff < created.nanoseconds ∨ ∃ b ∈ left, b.contentRef = u.text)
  | ended _ => node = none ∨ cutoff < created.nanoseconds
  | _ => False

variable {u : Uuid} {cutoff : Int} {created : Timestamp} {node : Option Node} {stage : SweepStage}

theorem Overlaps.gone (h : stage.Overlaps u cutoff created node) :
    stage.Overlaps u cutoff created none := by
  cases stage with
  | informed t known => exact h
  | collecting t left report => exact ⟨h.1, h.2.1, Or.inl rfl⟩
  | ended outcome => exact Or.inl rfl
  | _ => exact h

end SweepStage

namespace Traffic

variable [DecidableEq ι] [DecidableEq κ] {c : Caretaker} {s : Stores BlobStore}
  {now created : Timestamp} {cutoff : Int} {i : ι} {j : κ}

/-- What holds from the moment on at which the blob of a call was completed, in a file
    created at this moment, while a sweep had read the references. -/
structure Overlaps (calls : ι → ArchiveCall) (i : ι) (j : κ) (cutoff : Int) (created : Timestamp)
    (w : Traffic ι κ) : Prop where
  reaches : Reaches calls w
  files : BlobStore.AreOwnNames w.stores.blobs.root
  written : (w.archives i).HasStored created
  node : w.stores.blobs.nodeOf (calls i).blob = none ∨
    w.stores.blobs.nodeOf (calls i).blob = some (.file (calls i).bytes created)
  sweep : (w.sweeps j).Overlaps (calls i).blob cutoff created
    (w.stores.blobs.nodeOf (calls i).blob)

/-- A blob that was completed is not completed again. -/
theorem Overlaps.nodeOf_step_archive (h : Overlaps calls i j cutoff created w)
    (hapart : ∀ i j, (calls i).blob = (calls j).blob → i = j) (c : Caretaker) (k : ι)
    (now : Timestamp) :
    (Traffic.step calls c w (.archive k now)).stores.blobs.nodeOf (calls i).blob
      = w.stores.blobs.nodeOf (calls i).blob := by
  rcases (h.reaches.moves c k now).nodeOf (calls i).blob with hsame | ⟨hblob, t, hbegun, -, -⟩
  · exact hsame
  · obtain rfl := hapart i k hblob
    have hwritten := h.written
    rw [hbegun] at hwritten
    exact hwritten.elim

theorem Overlaps.step_archive (h : Overlaps calls i j cutoff created w)
    (hapart : ∀ i j, (calls i).blob = (calls j).blob → i = j) (k : ι) :
    Overlaps calls i j cutoff created (Traffic.step calls c w (.archive k now)) := by
  have hsame := h.nodeOf_step_archive hapart c k now
  constructor
  case reaches => exact h.reaches.step _
  case files => exact (h.reaches.moves c k now).areOwnNames h.files
  case written => exact h.reaches.hasStored_step _ h.written
  case node =>
    rw [hsame]
    exact h.node
  case sweep =>
    rw [hsame]
    exact h.sweep

omit [DecidableEq ι] [DecidableEq κ] in
/-- What is gone stays so when the next blob is collected. -/
theorem nodeOf_collectOne_of_none {u : Uuid} {b : FoundBlob} {report : JobTally}
    (h : w.stores.blobs.nodeOf u = none) :
    (Caretaker.collectOne cutoff b report w.stores.blobs).2.nodeOf u = none := by
  have hall := Caretaker.get?_collectAll_of_none cutoff [b] report w.stores.blobs h
  rwa [Caretaker.collectAll_cons] at hall

omit [DecidableEq ι] [DecidableEq κ] in
/-- When the blob comes up it is deleted, unless it is too young. -/
theorem Overlaps.nodeOf_collectOne (h : Overlaps calls i j cutoff created w) {b : FoundBlob}
    {report : JobTally} (hspells : Uuid.parse? b.contentRef = some (calls i).blob)
    (hsame : b.created = created) :
    (Caretaker.collectOne cutoff b report w.stores.blobs).2.nodeOf (calls i).blob = none ∨
      cutoff < created.nanoseconds := by
  by_cases hyoung : cutoff < created.nanoseconds
  · exact Or.inr hyoung
  · refine Or.inl ?_
    have htakes : Caretaker.Takes cutoff b (calls i).blob.text := by
      refine ⟨?_, BlobStore.fileName?_eq_some_iff.mpr ⟨_, hspells, rfl⟩⟩
      rw [hsame]
      exact Int.not_lt.mp hyoung
    rcases h.node with hnone | hfile
    · exact nodeOf_collectOne_of_none hnone
    · rcases Caretaker.get?_collectOne cutoff b report w.stores.blobs hfile
        with ⟨-, hgone⟩ | ⟨hnot, -⟩
      · exact hgone
      · exact absurd htakes hnot

omit [DecidableEq ι] [DecidableEq κ] in
/-- The sweep lists the blob, and deletes it when it is old enough. -/
theorem Overlaps.overlaps_advanceSweep (h : Overlaps calls i j cutoff created w) :
    (c.advanceSweep now (w.sweeps j) w.stores).1.Overlaps (calls i).blob cutoff created
      ((c.advanceSweep now (w.sweeps j) w.stores).2.blobs.nodeOf (calls i).blob) := by
  have hsweep := h.sweep
  cases hstage : w.sweeps j with
  | called =>
      rw [hstage] at hsweep
      exact hsweep.elim
  | timed t =>
      rw [hstage] at hsweep
      exact hsweep.elim
  | informed t known =>
      rw [hstage] at hsweep
      obtain ⟨rfl, hunknown⟩ := hsweep
      refine ⟨rfl, fun b hb hu => ?_, ?_⟩
      · -- what is listed under the name of the blob is its file
        obtain ⟨-, bytes, hnode⟩ := nodeOf_of_mem_list h.files (List.mem_filter.mp hb).1 hu
        rcases h.node with hnone | hfile
        · cases hnone.symm.trans hnode
        · cases hfile.symm.trans hnode
          rfl
      · refine h.node.imp_right fun hfile => Or.inr ⟨⟨(calls i).blob.text, created⟩, ?_, rfl⟩
        refine List.mem_filter.mpr ⟨(BlobStore.mem_list_iff _).mpr ⟨⟨_, hfile⟩, _,
          BlobStore.fileName?_text _⟩, ?_⟩
        rw [Bool.not_eq_true', List.contains_eq_mem, decide_eq_false_iff_not]
        exact hunknown
  | collecting t left report =>
      rw [hstage] at hsweep
      obtain ⟨rfl, hcreated, hleft⟩ := hsweep
      cases left with
      | nil =>
          rcases hleft with hnone | hyoung | ⟨b, hb, -⟩
          · exact Or.inl hnone
          · exact Or.inr hyoung
          · cases hb
      | cons b left =>
          refine ⟨rfl, fun b' hb' => hcreated b' (List.mem_cons_of_mem b hb'), ?_⟩
          rw [Caretaker.advanceSweep]
          rcases hleft with hnone | hyoung | ⟨b', hb', href⟩
          · exact Or.inl (nodeOf_collectOne_of_none hnone)
          · exact Or.inr (Or.inl hyoung)
          · rcases List.mem_cons.mp hb' with rfl | hb'
            · have hspells : Uuid.parse? b'.contentRef = some (calls i).blob := by
                rw [href]
                exact Uuid.parse?_text _
              have hsame := hcreated b' List.mem_cons_self hspells
              exact (h.nodeOf_collectOne hspells hsame).imp_right Or.inl
            · exact Or.inr (Or.inr ⟨b', hb', href⟩)
  | ended outcome =>
      rw [hstage] at hsweep
      exact hsweep

theorem Overlaps.step_sweep (h : Overlaps calls i j cutoff created w) (k : κ) :
    Overlaps calls i j cutoff created (Traffic.step calls c w (.sweep k now)) := by
  have hnode := nodeOf_step_sweep calls c w k now (calls i).blob
  constructor
  case reaches => exact h.reaches.step _
  case files => exact areOwnNames_step_sweep h.files k
  case written => exact h.written
  case node =>
    rcases hnode with hsame | ⟨hnone, -⟩
    · rw [hsame]
      exact h.node
    · exact Or.inl hnone
  case sweep =>
    by_cases hjk : j = k
    · subst hjk
      rw [sweeps_step_self]
      exact h.overlaps_advanceSweep
    · rw [sweeps_step_of_ne hjk]
      rcases hnode with hsame | ⟨hnone, -⟩
      · rw [hsame]
        exact h.sweep
      · rw [hnone]
        exact h.sweep.gone

theorem overlaps_run (hapart : ∀ i j, (calls i).blob = (calls j).blob → i = j)
    {events : List (TrafficEvent ι κ)} (h : Overlaps calls i j cutoff created w) :
    Overlaps calls i j cutoff created (events.foldl (step calls c) w) := by
  induction events using List.reverseRecOn with
  | nil => exact h
  | append_singleton events event ih =>
      rw [List.foldl_append]
      cases event with
      | archive k now => exact ih.step_archive hapart (c := c) k
      | sweep k now => exact ih.step_sweep (c := c) k

/-! ## Any order of events -/

variable {before : List (TrafficEvent ι κ)} {known : List String}

theorem run_append_cons (event : TrafficEvent ι κ) (rest : List (TrafficEvent ι κ)) :
    run calls c s (before ++ event :: rest)
      = rest.foldl (step calls c) (run calls c s (before ++ [event])) := by
  rw [← run_append, List.append_assoc]
  rfl

/-- When its call has written it, the blob is in its place. -/
theorem stored_of_begun (now : Timestamp)
    (hbegun : (run calls c s before).archives i = .begun (calls i).key created)
    (hcompleted : (calls i).IsCompleted) :
    ((run calls c s (before ++ [.archive i now])).archives i).HasStored created ∧
    (run calls c s (before ++ [.archive i now])).stores.blobs.nodeOf (calls i).blob
      = some (.file (calls i).bytes created) := by
  have hreaches : Reaches calls (run calls c s before) := reaches_run before
  have hmoves := hreaches.moves c i now
  rw [run_concat]
  generalize step calls c (run calls c s before) (.archive i now) = w' at hmoves
  rw [hbegun] at hmoves
  generalize hnext : w'.archives i = next at hmoves
  generalize hstores : w'.stores = t at hmoves
  cases hmoves with
  | discarded t e hnot => exact absurd hcompleted hnot
  | uncounted t e _ _ => exact ⟨trivial, Directory.get?_set_self _ _ _⟩
  | stored t _ _ => exact ⟨rfl, Directory.get?_set_self _ _ _⟩

theorem overlaps_of_begun (hstart : AreOrdinary calls s) (now : Timestamp)
    (hinformed : (run calls c s before).sweeps j = .informed cutoff known)
    (hbegun : (run calls c s before).archives i = .begun (calls i).key created)
    (hcompleted : (calls i).IsCompleted) :
    Overlaps calls i j cutoff created (run calls c s (before ++ [.archive i now])) := by
  have hregular : IsRegular calls (run calls c s before) := isRegular_run hstart before
  obtain ⟨hstored, hnode⟩ := stored_of_begun now hbegun hcompleted
  constructor
  case reaches => exact reaches_run _
  case files => exact (isRegular_run hstart (before ++ [.archive i now])).files
  case written => exact hstored
  case node => exact Or.inr hnode
  case sweep =>
    rw [run_concat]
    show ((run calls c s before).sweeps j).Overlaps _ _ _ _
    rw [hinformed]
    refine ⟨rfl, fun hmem => ?_⟩
    -- no row names a blob that its call is still writing
    have hsweep := hregular.sweeps j
    rw [hinformed] at hsweep
    obtain ⟨r, hr, href⟩ := hsweep _ hmem
    obtain ⟨receipt, harchived⟩ :=
      hregular.archived i ⟨r, hr, _, href, Uuid.parse?_text (calls i).blob⟩
    cases hbegun.symm.trans harchived

/-- A sweep that has listed the blobs before goes on with what is left of them. -/
theorem collecting_run {left : List FoundBlob} {report : JobTally}
    (h : w.sweeps j = .collecting cutoff left report) (events : List (TrafficEvent ι κ)) :
    (∃ left' report', (events.foldl (step calls c) w).sweeps j = .collecting cutoff left' report' ∧
      left' <:+ left) ∨
    ∃ outcome, (events.foldl (step calls c) w).sweeps j = .ended outcome := by
  induction events using List.reverseRecOn with
  | nil => exact Or.inl ⟨left, report, h, List.suffix_refl left⟩
  | append_singleton events event ih =>
      rw [List.foldl_append, List.foldl_cons, List.foldl_nil]
      cases event with
      | archive k now => exact ih
      | sweep k now =>
          by_cases hjk : j = k
          · subst hjk
            rw [sweeps_step_self]
            rcases ih with ⟨left', report', hstage, hsuffix⟩ | ⟨outcome, hstage⟩
            · rw [hstage]
              cases left' with
              | nil => exact Or.inr ⟨_, rfl⟩
              | cons b left' =>
                  exact Or.inl ⟨left', _, rfl, (List.suffix_cons b left').trans hsuffix⟩
            · rw [hstage]
              exact Or.inr ⟨outcome, rfl⟩
          · rw [sweeps_step_of_ne hjk]
            exact ih

/-- Whether the next event of a sweep deletes a blob. -/
def Deletes (calls : ι → ArchiveCall) (c : Caretaker) (w : Traffic ι κ) (j : κ) (now : Timestamp)
    (u : Uuid) : Prop :=
  w.stores.blobs.nodeOf u ≠ none ∧ (step calls c w (.sweep j now)).stores.blobs.nodeOf u = none

theorem Deletes.exists_collecting {u : Uuid} (h : Deletes calls c w j now u) :
    ∃ cutoff b left report, w.sweeps j = .collecting cutoff (b :: left) report ∧
      b.created.nanoseconds ≤ cutoff ∧ Uuid.parse? b.contentRef = some u := by
  rcases nodeOf_step_sweep calls c w j now u with hsame | ⟨-, hcollecting⟩
  · exact absurd (hsame.symm.trans h.2) h.1
  · exact hcollecting

/-- A sweep that had listed the blobs before does not delete one that is completed
    afterwards. -/
theorem not_deletes_of_listed (hstart : AreOrdinary calls s) {left : List FoundBlob}
    {report : JobTally} (hlisted : (run calls c s before).sweeps j = .collecting cutoff left report)
    (hbegun : (run calls c s before).archives i = .begun (calls i).key created)
    (rest : List (TrafficEvent ι κ)) :
    ¬ Deletes calls c (run calls c s (before ++ rest)) j now (calls i).blob := by
  intro hdeletes
  obtain ⟨t, b, left', report', hstage, -, hspells⟩ := hdeletes.exists_collecting
  rw [run_append] at hstage
  rcases collecting_run hlisted rest with ⟨left'', report'', hstage', hsuffix⟩ | ⟨_, hended⟩
  · cases hstage.symm.trans hstage'
    have hsweep := (isRegular_run (c := c) hstart before).sweeps j
    rw [hlisted] at hsweep
    have hstored := hsweep b (hsuffix.subset List.mem_cons_self) i hspells
    rw [hbegun] at hstored
    exact hstored
  · cases hstage.symm.trans hended

/-- What a sweep that had read the references makes of a blob that is completed then, in a
    file that was created at one moment, when the sweep goes by this reading of the clock. -/
structure JudgesByCreation (calls : ι → ArchiveCall) (c : Caretaker) (s : Stores BlobStore)
    (before : List (TrafficEvent ι κ)) (i : ι) (j : κ) (now created reading : Timestamp) :
    Prop where
  /-- The blob is in its place with all its bytes. -/
  complete : (run calls c s (before ++ [.archive i now])).stores.blobs.nodeOf (calls i).blob
    = some (.file (calls i).bytes created)
  /-- The sweep deletes it only if it lists the blobs after that, and the file was created a
  grace period before it read the clock. -/
  spared : ∀ middle later,
    Deletes calls c (run calls c s (before ++ .archive i now :: middle)) j later (calls i).blob →
    (∃ cutoff known, (run calls c s before).sweeps j = .informed cutoff known) ∧
      created.nanoseconds + c.grace ≤ reading.nanoseconds
  /-- Then the blob is gone when the sweep has ended. -/
  gone : (∃ cutoff known, (run calls c s before).sweeps j = .informed cutoff known) →
    created.nanoseconds + c.grace ≤ reading.nanoseconds → ∀ rest outcome,
    (run calls c s (before ++ .archive i now :: rest)).sweeps j = .ended outcome →
    (run calls c s (before ++ .archive i now :: rest)).stores.blobs.nodeOf (calls i).blob = none
  /-- So on a clock that does not go back, the sweep spares what took less than a grace
  period to write. -/
  quick : List.Pairwise (fun e d : TrafficEvent ι κ => e.now.nanoseconds ≤ d.now.nanoseconds)
      (before ++ [.archive i now]) →
    now.nanoseconds < created.nanoseconds + c.grace → ∀ middle later,
    ¬ Deletes calls c (run calls c s (before ++ .archive i now :: middle)) j later (calls i).blob

/-- No event of a clock that does not go back read more than the last. -/
theorem HasRead.le_last {event : TrafficEvent ι κ} {reading : Timestamp}
    (h : HasRead calls c s before j reading)
    (hforward : (before ++ [event]).Pairwise fun e d => e.now.nanoseconds ≤ d.now.nanoseconds) :
    reading.nanoseconds ≤ event.now.nanoseconds := by
  obtain ⟨first, rest, rfl, -⟩ := h
  refine (List.pairwise_append.mp hforward).2.2 (.sweep j reading) ?_ event
    (List.mem_singleton_self event)
  exact List.mem_append_right _ List.mem_cons_self

/-- A sweep that lists the blobs after a blob was completed deletes it only if it is old enough
    by its creation. -/
theorem Overlaps.le_of_deletes (h : Overlaps calls i j cutoff created w)
    (hdeletes : Deletes calls c w j now (calls i).blob) : created.nanoseconds ≤ cutoff := by
  obtain ⟨t, b, left, report, hstage, hold, hspells⟩ := hdeletes.exists_collecting
  have hsweep := h.sweep
  rw [hstage] at hsweep
  obtain ⟨rfl, hcreated, -⟩ := hsweep
  rwa [← hcreated b List.mem_cons_self hspells]

/-- Whether a blob that is completed while a sweep goes on is deleted by it goes by the moment at
    which its file was created, not by the one at which it was complete. -/
theorem late_blobs_judged_by_creation (calls : ι → ArchiveCall) (c : Caretaker)
    (s : Stores BlobStore) (before : List (TrafficEvent ι κ)) (i : ι) (j : κ)
    (now created : Timestamp) (hstart : AreOrdinary calls s)
    (hread : (∃ cutoff known, (run calls c s before).sweeps j = .informed cutoff known) ∨
      ∃ cutoff left report, (run calls c s before).sweeps j = .collecting cutoff left report)
    (hbegun : (run calls c s before).archives i = .begun (calls i).key created)
    (hcompleted : (calls i).IsCompleted) :
    ∃ reading, HasRead calls c s before j reading ∧
      JudgesByCreation calls c s before i j now created reading := by
  obtain ⟨cutoff, hcutoff⟩ : ∃ cutoff, ((run calls c s before).sweeps j).cutoff? = some cutoff := by
    rcases hread with ⟨cutoff, known, hstage⟩ | ⟨cutoff, left, report, hstage⟩
    all_goals exact ⟨cutoff, congrArg SweepStage.cutoff? hstage⟩
  obtain ⟨reading, hreading, hgrace⟩ := exists_hasRead hcutoff
  have hoverlaps : ∀ t known, (run calls c s before).sweeps j = .informed t known → ∀ rest,
      Overlaps calls i j cutoff created
        (run calls c s (before ++ .archive i now :: rest)) := by
    intro t known hinformed rest
    rw [hinformed] at hcutoff
    cases hcutoff
    rw [run_append_cons]
    exact overlaps_run hstart.apart (overlaps_of_begun hstart now hinformed hbegun hcompleted)
  have hspared : ∀ middle later,
      Deletes calls c (run calls c s (before ++ .archive i now :: middle)) j later (calls i).blob →
      (∃ cutoff known, (run calls c s before).sweeps j = .informed cutoff known) ∧
        created.nanoseconds + c.grace ≤ reading.nanoseconds := by
    intro middle later hdeletes
    rcases hread with ⟨t, known, hinformed⟩ | ⟨t, left, report, hlisted⟩
    · have hold := (hoverlaps t known hinformed middle).le_of_deletes hdeletes
      exact ⟨⟨t, known, hinformed⟩, by omega⟩
    · exact absurd hdeletes (not_deletes_of_listed hstart hlisted hbegun _)
  refine ⟨reading, hreading, ?_⟩
  constructor
  case complete => exact (stored_of_begun now hbegun hcompleted).2
  case spared => exact hspared
  case gone =>
    rintro ⟨t, known, hinformed⟩ hold rest outcome hended
    have hsweep := (hoverlaps t known hinformed rest).sweep
    rw [hended] at hsweep
    refine hsweep.resolve_right fun hyoung => ?_
    omega
  case quick =>
    intro hforward hquick middle later hdeletes
    have hold := (hspared middle later hdeletes).2
    have hpast := hreading.le_last hforward
    exact absurd hquick (Int.not_lt.mpr (Int.le_trans hold hpast))

end Traffic

/-! ## A blob that takes a minute -/

namespace Sample

/-- A minute later. -/
def minuteLater : Timestamp := { draws.now with minute := 1, minute_lt := by decide }

/-- A call begins to write its blob, and a minute later a sweep reads the references. -/
def slowStart : List (TrafficEvent Unit Unit) :=
  [.archive () draws.now, .archive () draws.now, .sweep () minuteLater, .sweep () minuteLater]

/-- When the blob is complete, the sweep lists it and comes to its end, and the call saves its
    record. -/
def slowUpload : List (TrafficEvent Unit Unit) :=
  slowStart ++ .archive () minuteLater ::
    [.sweep () minuteLater, .sweep () minuteLater, .sweep () minuteLater, .archive () minuteLater]

/-- The call is not told that its blob is gone. -/
theorem archived_slowUpload : (Traffic.run lone patient stores slowUpload).HasArchived () ∧
    IsNamed (Traffic.run lone patient stores slowUpload).rows (lone ()).blob := by
  have hid : ∀ i, (lone i).content.id = "report" := fun _ => rfl
  have hcontest := Traffic.contest_run (s := stores) hid rfl patient slowUpload
  have hclock : ∀ event ∈ slowUpload, event.now.HasPlainYear := by decide
  have harchived : ∃ i, (Traffic.run lone patient stores slowUpload).HasArchived i := by
    obtain ⟨result, hresult⟩ : ∃ result,
        (Traffic.run lone patient stores slowUpload).archives () = .ended result :=
      Traffic.ended_run (by decide)
    cases result with
    | ok receipt => exact ⟨(), receipt, hresult⟩
    | error e =>
        exact (hcontest.refusals hclock () e hresult (rivals_succeed false).right).1
  obtain ⟨_, harchived⟩ := harchived
  refine ⟨harchived, ?_⟩
  rcases hcontest.standing with ⟨-, hnobody⟩ | ⟨_, hleads⟩
  · exact absurd harchived (hnobody ())
  · obtain ⟨now, -, -, -, hrows⟩ := hleads.saved
    rw [hrows]
    exact ArchiveCall.isNamed_append_entryAt.mpr (Or.inr rfl)

end Sample

namespace Traffic

/-- The sweep deletes a blob that took a minute to write and was complete after it had read the
    references, and the call saves a record that names it. -/
theorem late_blob_swept :
    AreOrdinary Sample.lone Sample.stores ∧
    ((∃ cutoff known, (run Sample.lone Sample.patient Sample.stores Sample.slowStart).sweeps ()
        = .informed cutoff known) ∨
      ∃ cutoff left report, (run Sample.lone Sample.patient Sample.stores
        Sample.slowStart).sweeps () = .collecting cutoff left report) ∧
    (run Sample.lone Sample.patient Sample.stores Sample.slowStart).archives ()
      = .begun (Sample.lone ()).key Sample.draws.now ∧
    (Sample.lone ()).IsCompleted ∧
    (∃ reading, HasRead Sample.lone Sample.patient Sample.stores Sample.slowStart () reading ∧
      JudgesByCreation Sample.lone Sample.patient Sample.stores Sample.slowStart () ()
        Sample.minuteLater Sample.draws.now reading) ∧
    0 < Sample.patient.grace ∧
    Sample.slowUpload.Pairwise (fun e d => e.now.nanoseconds ≤ d.now.nanoseconds) ∧
    (run Sample.lone Sample.patient Sample.stores Sample.slowUpload).sweeps ()
      = .ended (.finished { processed := 1, succeeded := 1 }) ∧
    (run Sample.lone Sample.patient Sample.stores Sample.slowUpload).stores.blobs.nodeOf
      (Sample.lone ()).blob = none ∧
    (run Sample.lone Sample.patient Sample.stores Sample.slowUpload).HasArchived () ∧
    IsNamed (run Sample.lone Sample.patient Sample.stores Sample.slowUpload).rows
      (Sample.lone ()).blob := by
  have hinformed : ∃ cutoff known, (run Sample.lone Sample.patient Sample.stores
      Sample.slowStart).sweeps () = .informed cutoff known := ⟨_, _, rfl⟩
  have hbegun : (run Sample.lone Sample.patient Sample.stores Sample.slowStart).archives ()
      = .begun (Sample.lone ()).key Sample.draws.now := rfl
  have hcompleted : (Sample.lone ()).IsCompleted := (Sample.rivals_succeed false).right.completed
  have hended : (run Sample.lone Sample.patient Sample.stores Sample.slowUpload).sweeps ()
      = .ended (.finished { processed := 1, succeeded := 1 }) := by
    refine SweepStage.eq_ended_of_outcome? ?_
    decide +kernel
  obtain ⟨reading, hread, hjudges⟩ := late_blobs_judged_by_creation Sample.lone Sample.patient
    Sample.stores Sample.slowStart () () Sample.minuteLater Sample.draws.now
    Sample.areOrdinary_lone (Or.inl hinformed) hbegun hcompleted
  have hold : Sample.draws.now.nanoseconds + Sample.patient.grace ≤ reading.nanoseconds := by
    obtain ⟨first, rest, hsplit, -⟩ := hread
    have hmem : .sweep () reading ∈ Sample.slowStart :=
      hsplit ▸ List.mem_append_right _ List.mem_cons_self
    have hreading : reading = Sample.minuteLater := by
      simpa [Sample.slowStart] using hmem
    rw [hreading]
    decide
  refine ⟨Sample.areOrdinary_lone, Or.inl hinformed, hbegun, hcompleted,
    ⟨reading, hread, hjudges⟩, by decide, by decide, hended, ?_, Sample.archived_slowUpload⟩
  exact hjudges.gone hinformed hold _ _ hended

end Traffic

end ContentVault
