import ContentVault.Proofs.Archiver.Archiving

/-! # Archiving, one stage after the other

    Archiving waits for the stores three times: it looks whether there is an
    entry, it writes the blob, and it saves the entry.  The blob is written under
    a name of its own first, so its file is older than its reference.  Others may
    use the stores in between, and time goes on; an `ArchiveCall` is therefore cut
    into stages, and `advance` takes it from one to the next.

    What a stage can come to depends on the call alone (`Moves`), but for the two
    questions that the records are asked.  A call that nobody comes in between of
    is archived just as `Archiver.archive` does it (`proceed_eq_archive`). -/

namespace ContentVault

/-- The draws with another reading of the clock. -/
def Draws.at (draws : Draws) (now : Timestamp) : Draws := { draws with now }

/-- Content that is to be archived, with all that it takes. -/
structure ArchiveCall where
  archiver : Archiver
  draws : Draws
  content : OfferedContent
  choices : ArchiveChoices

/-- How far a call has come. -/
inductive ArchiveStage where
  | called
  /-- There was no entry under the id. -/
  | cleared (key : Option Key)
  /-- The file of the blob was created under the name for writing. -/
  | begun (key : Option Key) (created : Timestamp)
  /-- The blob is complete and has its own name. -/
  | stored (key : Option Key) (created : Timestamp) (blob : StoredContent)
  | ended (result : Attempt ArchiveReceipt)

/-- Whether a row names the blob with a UUID, in whatever spelling. -/
def IsNamed (rows : List Row) (u : Uuid) : Prop :=
  ∃ r ∈ rows, ∃ ref, r .contentRefId = .text ref ∧ Uuid.parse? ref = some u

theorem IsNamed.mono {rows more : List Row} {u : Uuid} (h : IsNamed rows u) :
    IsNamed (rows ++ more) u := by
  obtain ⟨r, hr, ref, href, hu⟩ := h
  exact ⟨r, List.mem_append_left _ hr, ref, href, hu⟩

namespace ArchiveCall

/-- The UUID of the blob. -/
def blob (c : ArchiveCall) : Uuid := c.draws.blob

/-- The store with a file that the blob is going to be written to. -/
def opened (c : ArchiveCall) (now : Timestamp) (s : BlobStore) : BlobStore :=
  ⟨s.root.set (BlobStore.temporaryName c.blob) (.file [] now)⟩

/-- Takes a call to its next stage. -/
def advance (c : ArchiveCall) (now : Timestamp) (stage : ArchiveStage) (s : Stores BlobStore) :
    ArchiveStage × Stores BlobStore :=
  match stage with
  | .called =>
    match s.records.contains c.content.id with
    | .error e => (.ended (.error e), s)
    | .ok true => (.ended (.error (.alreadyArchived c.content.id)), s)
    | .ok false =>
      match c.archiver.contentKey c.draws c.choices with
      | .error e => (.ended (.error e), s)
      | .ok key => (.cleared key, s)
  | .cleared key => (.begun key now, { s with blobs := c.opened now s.blobs })
  | .begun key created =>
    match c.archiver.storeContent (c.draws.at created) key c.content s.blobs with
    | (.error e, blobs) => (.ended (.error e), { s with blobs })
    | (.ok blob, blobs) => (.stored key created blob, { s with blobs })
  | .stored key _ blob =>
    match Archiver.checkContent c.choices c.content blob with
    | .error e => (.ended (.error e), s)
    | .ok verify =>
      match s.records.save (c.archiver.newEntry (c.draws.at now) key c.content blob) with
      | .error e => (.ended (.error e), s)
      | .ok records =>
        (.ended (.ok (c.archiver.receipt key c.content blob verify)), { s with records })
  | .ended result => (.ended result, s)

/-- Takes a call a number of stages further, with nothing in between. -/
def proceed (c : ArchiveCall) (now : Timestamp) :
    Nat → ArchiveStage × Stores BlobStore → ArchiveStage × Stores BlobStore
  | 0, reached => reached
  | k + 1, reached => c.proceed now k (c.advance now reached.1 reached.2)

/-! ## A call by itself -/

@[simp] theorem proceed_ended (c : ArchiveCall) (now : Timestamp) (k : Nat)
    (result : Attempt ArchiveReceipt) (s : Stores BlobStore) :
    c.proceed now k (.ended result, s) = (.ended result, s) := by
  induction k with
  | zero => rfl
  | succ k ih => exact ih

/-- The file that is written to leaves no trace when the blob is stored. -/
theorem storeContent_opened (c : ArchiveCall) (now : Timestamp) (key : Option Key)
    (s : BlobStore) :
    c.archiver.storeContent c.draws key c.content (c.opened now s)
      = c.archiver.storeContent c.draws key c.content s := by
  have hdiscarded : Archiver.discarded c.draws (c.opened now s) = Archiver.discarded c.draws s :=
    congrArg BlobStore.mk (s.root.erase_set _ _)
  have hadded : ∀ bytes, Archiver.added c.draws (c.opened now s) bytes
      = Archiver.added c.draws s bytes := by
    intro bytes
    rw [Archiver.added, Archiver.added, hdiscarded]
  rw [Archiver.storeContent_eq, Archiver.storeContent_eq, hdiscarded]
  simp only [hadded]

/-- With nothing in between, content is archived stage by stage as it is archived
    at once. -/
theorem proceed_eq_archive (c : ArchiveCall) (s : Stores BlobStore) :
    c.proceed c.draws.now 4 (.called, s)
      = (.ended (c.archiver.archive c.draws c.content c.choices s).1,
          (c.archiver.archive c.draws c.content c.choices s).2) := by
  rw [proceed, advance, Archiver.archive]
  cases s.records.contains c.content.id with
  | error e => exact c.proceed_ended _ 3 _ _
  | ok present =>
      cases present with
      | true => exact c.proceed_ended _ 3 _ _
      | false =>
          simp only
          cases c.archiver.contentKey c.draws c.choices with
          | error e => exact c.proceed_ended _ 3 _ _
          | ok key =>
              simp only
              rw [proceed, advance, proceed, advance]
              have hat : c.draws.at c.draws.now = c.draws := rfl
              simp only [hat, storeContent_opened]
              rcases c.archiver.storeContent c.draws key c.content s.blobs with ⟨result, blobs⟩
              cases result with
              | error e => rfl
              | ok blob =>
                  simp only
                  rw [proceed, advance]
                  cases Archiver.checkContent c.choices c.content blob with
                  | error e => rfl
                  | ok verify =>
                      simp only [hat]
                      cases s.records.save (c.archiver.newEntry c.draws key c.content blob) with
                      | error e => rfl
                      | ok records => rfl

/-! ## What a stage can come to -/

/-- The key of a call. -/
def key (c : ArchiveCall) : Option Key := c.archiver.keyFor c.draws c.choices

/-- What is stored of the content, if it is. -/
def outcome (c : ArchiveCall) : StoredContent := c.archiver.storedAs c.draws c.content.stream.data

/-- The entry of a call that saves it at this moment. -/
def entryAt (c : ArchiveCall) (now : Timestamp) : Entry :=
  c.archiver.entryFor (c.draws.at now) c.content c.choices

/-- The store with the blob of a call, whose file was created at this moment. -/
def filled (c : ArchiveCall) (created : Timestamp) (s : BlobStore) : BlobStore :=
  Archiver.added (c.draws.at created) s (c.archiver.blobFor c.draws c.content c.choices)

/-- Whether a blob is completed for a call. -/
def IsCompleted (c : ArchiveCall) : Prop := c.archiver.IsCompleted c.choices c.content

/-- Whether the content is counted and what was said about it in advance is right. -/
def IsVouched (c : ArchiveCall) : Prop := c.archiver.IsVouched c.choices c.content

/-- Whether nothing is wrong with a call: it has its key, completes its blob, and is
    vouched for. -/
structure IsRight (c : ArchiveCall) : Prop where
  key : c.archiver.HasKey c.choices
  completed : c.IsCompleted
  vouched : c.IsVouched

@[simp] theorem id_entryAt (c : ArchiveCall) (now : Timestamp) :
    (c.entryAt now).record.id = c.content.id := c.archiver.id_entryFor _ _ _

/-- The row of a new entry names the blob of its call and no other. -/
theorem isNamed_append_entryAt {c : ArchiveCall} {now : Timestamp} {rows : List Row} {u : Uuid} :
    IsNamed (rows ++ [Row.ofEntry (c.entryAt now)]) u ↔ IsNamed rows u ∨ u = c.blob := by
  constructor
  · rintro ⟨r, hr, ref, href, hu⟩
    rcases List.mem_append.mp hr with hr | hr
    · exact Or.inl ⟨r, hr, ref, href, hu⟩
    · rw [List.mem_singleton.mp hr] at href
      cases href
      have hblob := (Uuid.parse?_text c.blob).symm.trans hu
      exact Or.inr (Option.some.inj hblob).symm
  · rintro (h | rfl)
    · exact h.mono
    · exact ⟨_, List.mem_append_right _ (List.mem_singleton_self _), c.blob.text, rfl,
        Uuid.parse?_text c.blob⟩

/-- All that a stage can come to. -/
inductive Moves (c : ArchiveCall) (now : Timestamp) (s : Stores BlobStore) :
    ArchiveStage → ArchiveStage → Stores BlobStore → Prop where
  /-- There is an entry under the id, or one that cannot be read. -/
  | refused (e : VaultFailure) (hfound : s.records.table.find? c.content.id ≠ none)
      (hthere : s.records.contains c.content.id = .ok true → e = .alreadyArchived c.content.id) :
      Moves c now s .called (.ended (.error e)) s
  /-- The key is refused. -/
  | keyless (e : VaultFailure) (hnot : ¬ c.archiver.HasKey c.choices) :
      Moves c now s .called (.ended (.error e)) s
  | cleared (hnew : s.records.table.find? c.content.id = none) :
      Moves c now s .called (.cleared c.key) s
  | begun : Moves c now s (.cleared c.key) (.begun c.key now)
      { s with blobs := c.opened now s.blobs }
  /-- The blob is not completed. -/
  | discarded (created : Timestamp) (e : VaultFailure) (hnot : ¬ c.IsCompleted) :
      Moves c now s (.begun c.key created) (.ended (.error e))
        { s with blobs := Archiver.discarded c.draws s.blobs }
  /-- The blob is complete, but the producer crashed. -/
  | uncounted (created : Timestamp) (e : VaultFailure) (hcompleted : c.IsCompleted)
      (hnot : ¬ c.IsVouched) :
      Moves c now s (.begun c.key created) (.ended (.error e))
        { s with blobs := c.filled created s.blobs }
  | stored (created : Timestamp) (hcompleted : c.IsCompleted)
      (hbuffer : Tee.Bufferable c.archiver.branchBuffer) :
      Moves c now s (.begun c.key created) (.stored c.key created c.outcome)
        { s with blobs := c.filled created s.blobs }
  /-- Something that was said in advance is wrong. -/
  | unvouched (created : Timestamp) (e : VaultFailure) (hnot : ¬ c.IsVouched) :
      Moves c now s (.stored c.key created c.outcome) (.ended (.error e)) s
  /-- Someone else has saved an entry in the meantime. -/
  | late (created : Timestamp) (hvouched : c.IsVouched)
      (hfound : s.records.table.find? c.content.id ≠ none) :
      Moves c now s (.stored c.key created c.outcome)
        (.ended (.error (.alreadyArchived c.content.id))) s
  | saved (created : Timestamp) (verify : Stage) (records : RecordStore) (hvouched : c.IsVouched)
      (hnew : s.records.table.find? c.content.id = none)
      (hrows : records.table.rows = s.records.table.rows ++ [Row.ofEntry (c.entryAt now)]) :
      Moves c now s (.stored c.key created c.outcome)
        (.ended (.ok (c.archiver.receipt c.key c.content c.outcome verify))) { s with records }
  | ended (result : Attempt ArchiveReceipt) : Moves c now s (.ended result) (.ended result) s

/-- Whether a stage has the key and the outcome of the call; there is an outcome
    only if the tee has its buffer. -/
def Reaches (c : ArchiveCall) : ArchiveStage → Prop
  | .called => True
  | .cleared key => key = c.key
  | .begun key _ => key = c.key
  | .stored key _ blob =>
    key = c.key ∧ blob = c.outcome ∧ Tee.Bufferable c.archiver.branchBuffer
  | .ended _ => True

theorem Moves.reaches {c : ArchiveCall} {now : Timestamp} {s t : Stores BlobStore}
    {stage next : ArchiveStage} (h : c.Moves now s stage next t) : c.Reaches next := by
  cases h with
  | cleared => rfl
  | begun => rfl
  | stored _ _ hbuffer => exact ⟨rfl, rfl, hbuffer⟩
  | _ => trivial

/-- A call moves on as it can. -/
theorem moves_advance {c : ArchiveCall} {stage : ArchiveStage} (h : c.Reaches stage)
    (now : Timestamp) (s : Stores BlobStore) :
    c.Moves now s stage (c.advance now stage s).1 (c.advance now stage s).2 := by
  cases stage with
  | called =>
      rw [advance]
      cases hcontains : s.records.contains c.content.id with
      | error e =>
          refine .refused e (fun hfind => ?_) fun h => nomatch hcontains.symm.trans h
          cases hcontains.symm.trans (RecordStore.contains_eq_ok_false_iff.mpr hfind)
      | ok present =>
          cases present with
          | true =>
              refine .refused _ (fun hfind => ?_) fun _ => rfl
              cases hcontains.symm.trans (RecordStore.contains_eq_ok_false_iff.mpr hfind)
          | false =>
              dsimp only
              by_cases hkey : c.archiver.HasKey c.choices
              · rw [Archiver.contentKey_eq c.draws hkey]
                exact .cleared (RecordStore.contains_eq_ok_false_iff.mp hcontains)
              · obtain ⟨reason, hreason⟩ := Archiver.contentKey_refused hkey
                rw [hreason]
                exact .keyless _ hkey
  | cleared key =>
      obtain rfl : key = c.key := h
      exact .begun
  | begun key created =>
      obtain rfl : key = c.key := h
      rw [advance]
      by_cases hcompleted : c.IsCompleted
      · have hstore := c.archiver.storeContent_of_completed (c.draws.at created) s.blobs hcompleted
        have hkey : c.archiver.keyFor (c.draws.at created) c.choices = c.key := rfl
        rw [hkey] at hstore
        rw [hstore]
        by_cases hbuffer : Tee.Bufferable c.archiver.branchBuffer
        · rw [Archiver.countedAs_of_bufferable hbuffer]
          exact .stored created hcompleted hbuffer
        · rw [Archiver.countedAs, if_neg hbuffer]
          exact .uncounted created _ hcompleted fun h => hbuffer h.1
      · obtain ⟨e, hstore⟩ :=
          c.archiver.storeContent_of_not_completed (c.draws.at created) s.blobs hcompleted
        have hkey : c.archiver.keyFor (c.draws.at created) c.choices = c.key := rfl
        rw [hkey] at hstore
        rw [hstore]
        exact .discarded created e hcompleted
  | stored key created blob =>
      obtain ⟨rfl, rfl, hbuffer⟩ := h
      rw [advance]
      by_cases hvouched : c.IsVouched
      · obtain ⟨verify, hcheck⟩ := Archiver.checkContent_of_vouched c.draws hvouched
        have houtcome : c.archiver.storedAs c.draws c.content.stream.data = c.outcome := rfl
        rw [houtcome] at hcheck
        simp only [hcheck]
        have hentry : c.archiver.newEntry (c.draws.at now) c.key c.content c.outcome
            = c.entryAt now := rfl
        rw [hentry]
        rcases s.records.save_cases (c.entryAt now) with ⟨hnew, t, hsave, hrows⟩ | ⟨hfound, hsave⟩
        · rw [id_entryAt] at hnew
          rw [hsave]
          exact .saved created verify t hvouched hnew hrows
        · rw [id_entryAt] at hfound hsave
          rw [hsave]
          exact .late created hvouched hfound
      · obtain ⟨e, hcheck⟩ := Archiver.checkContent_of_not_vouched c.draws hbuffer hvouched
        have houtcome : c.archiver.storedAs c.draws c.content.stream.data = c.outcome := rfl
        rw [houtcome] at hcheck
        simp only [hcheck]
        exact .unvouched created e hvouched
  | ended result => exact .ended result

end ArchiveCall

end ContentVault
