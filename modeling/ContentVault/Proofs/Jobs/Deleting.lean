import ContentVault.Origin.Shelf
import ContentVault.Proofs.Archiver.Restoring
import ContentVault.Proofs.Jobs.Errands

/-! # What is deleted where it came from is on record

    The repository is told to delete an item after its content was archived, and
    also when there turns out to be an entry for the content already.  The item
    has the id that was asked for, the entry that of the content that was given,
    and in the second case the bytes of this content were not looked at.  So
    what is on record when an item is deleted is content that was given before,
    under the id that it was given with (`deleting_recorded`); whether this is
    what the repository holds for the item depends on the repository.

    The invariant says of each stage what is known there (`ErrandStage.Holds`).
    It is kept by one stage of one errand (`isNext_advance`), by one event
    (`holds_step`), and so in any order of events (`holds_run`). -/

namespace ContentVault

/-! ## Rows -/

namespace Row

/-- Whether a row has the digest of these bytes. -/
structure HasDigest (r : Row) (a : DigestAlgorithm) (data : Bytes) : Prop where
  algorithm : r .hashAlgorithm = .text a.id
  hash : r .hash = .text (Fingerprint.ofBytes a data).value

/-- Whether a row records content: it is under the id of the content, which was
    delivered to the end and has the digest of the row. -/
structure Records (r : Row) (a : DigestAlgorithm) (content : OfferedContent) : Prop where
  id : r .id = .text content.id
  complete : content.stream.failure = none
  digest : r.HasDigest a content.stream.data

end Row

/-- The rows of the table. -/
def JobState.rows {σ β ν : Type} (w : JobState σ β ν) : List Row := w.stores.records.table.rows

/-- What is found for an id is a row under it. -/
theorem RecordStore.exists_row {s : RecordStore} {id : String} (h : s.table.find? id ≠ none) :
    ∃ r ∈ s.table.rows, r .id = .text id := by
  obtain ⟨r, hr⟩ := Option.ne_none_iff_exists'.mp h
  have hfor : r.isFor id = true := List.find?_some hr
  exact ⟨r, List.mem_of_find?_eq_some hr, eq_of_beq hfor⟩

/-- A readable entry in the table is found. -/
theorem RecordStore.contains_of_mem {s : RecordStore} {e : Entry} (he : e.IsReadable)
    (h : Row.ofEntry e ∈ s.table.rows) : s.contains e.record.id = .ok true := by
  rw [contains, find, Table.find?_of_mem h]
  simp only [Row.decode_ofEntry he]
  rfl

/-! ## Errors -/

/-- Whether an error says that there is an entry. -/
def VaultFailure.IsAboutEntry (e : VaultFailure) : Prop := ∃ id, e = .alreadyArchived id

theorem VaultFailure.not_isAboutEntry_ofIo (e : IoError) : ¬ (ofIo e).IsAboutEntry := by
  rintro ⟨id, h⟩
  cases e with
  | system kind text => cases h
  | fault f => cases f <;> cases h

theorem BlobStore.not_isAboutEntry_checkLength {length : Option UInt64} {written : Nat}
    {e : VaultFailure} (h : checkLength length written = .error e) : ¬ e.IsAboutEntry := by
  rintro ⟨id, rfl⟩
  cases length with
  | none => cases h
  | some n =>
      rw [checkLength] at h
      split at h <;> cases h

namespace Archiver

/-- Storing content fails, never with an entry in the way, or all of it was
    delivered and digested. -/
theorem storeContent_cases (a : Archiver) (draws : Draws) (key : Option Key) (c : OfferedContent)
    (s : BlobStore) :
    (∃ e, ¬ e.IsAboutEntry ∧ (a.storeContent draws key c s).1 = .error e) ∨
    (c.stream.failure = none ∧
      (a.storeContent draws key c s).1 = .ok (a.storedAs draws c.stream.data)) := by
  rw [storeContent_eq]
  cases hfailure : (a.seen c).failure with
  | some e => exact Or.inl ⟨_, VaultFailure.not_isAboutEntry_ofIo e, rfl⟩
  | none =>
      cases hcheck : BlobStore.checkLength (blobLength key c.length) (a.seen c).data.length with
      | error e => exact Or.inl ⟨e, BlobStore.not_isAboutEntry_checkLength hcheck, rfl⟩
      | ok u =>
          by_cases hbuffer : Tee.Bufferable a.branchBuffer
          · rw [seen_of_bufferable hbuffer] at hfailure
            exact Or.inr ⟨hfailure, countedAs_of_bufferable hbuffer draws c⟩
          · have hcrashed : ¬ (VaultFailure.ofProducer .crashed).IsAboutEntry := by
              rintro ⟨id, h⟩
              cases h
            exact Or.inl ⟨_, hcrashed, if_neg hbuffer⟩

/-- Content that turns out wrong has no entry in the way. -/
theorem not_isAboutEntry_checkContent {o : ArchiveChoices} {c : OfferedContent}
    {blob : StoredContent} {e : VaultFailure} (h : checkContent o c blob = .error e) :
    ¬ e.IsAboutEntry := by
  rintro ⟨id, rfl⟩
  rw [checkContent] at h
  cases hdeclared : checkDeclared c.length blob.bytes with
  | error f =>
      rw [hdeclared, Attempt.error_bind] at h
      cases h
      rw [checkDeclared.eq_def] at hdeclared
      split at hdeclared
      · cases hdeclared
      · split at hdeclared <;> cases hdeclared
  | ok u =>
      rw [hdeclared, Attempt.ok_bind, checkExpected] at h
      split at h
      · split at h <;> cases h
      · cases h

/-- The row of a new entry records the content that was digested for it. -/
theorem records_newEntry (a : Archiver) (draws : Draws) (key : Option Key) {c : OfferedContent}
    {d : DigestAlgorithm} {blob : StoredContent} (hcomplete : c.stream.failure = none)
    (hhash : blob.hash = Fingerprint.ofBytes d c.stream.data) :
    (Row.ofEntry (a.newEntry draws key c blob)).Records d c := by
  have hid : (a.newEntry draws key c blob).record.id = c.id := by
    cases key <;> rfl
  refine ⟨congrArg Cell.text hid, hcomplete, ?_, ?_⟩
  · show Cell.text blob.hash.algorithm = _
    rw [hhash]
    rfl
  · show Cell.text blob.hash.value = _
    rw [hhash]

end Archiver

/-! ## One stage -/

/-- Whether a row is for the content of an item of which this came: one is, and
    unless an entry was there already it records the content. -/
def OnRecord (a : DigestAlgorithm) (rows : List Row) (content : OfferedContent)
    (outcome : ItemOutcome) : Prop :=
  ∃ r ∈ rows, r .id = .text content.id ∧ (outcome = .alreadyArchived ∨ r.Records a content)

/-- What holds of an errand if `Given` is what the repository gave for its id
    and these are the rows of the table. -/
def ErrandStage.Holds (a : DigestAlgorithm) (Given : OfferedContent → Prop) (rows : List Row) :
    ErrandStage → Prop
  | .asked => True
  | .admitted => True
  | .fetched content _ => Given content
  | .cleared content _ _ => Given content
  | .stored content _ _ blob => Given content ∧ content.stream.failure = none ∧
      blob.hash = Fingerprint.ofBytes a content.stream.data
  | .settling content outcome => Given content ∧ OnRecord a rows content outcome
  | .deleting content outcome => Given content ∧ OnRecord a rows content outcome
  | .ended _ => True

theorem ErrandStage.Holds.mono {a : DigestAlgorithm} {Given Given' : OfferedContent → Prop}
    {rows rows' : List Row} {stage : ErrandStage} (h : stage.Holds a Given rows)
    (hgiven : ∀ content, Given content → Given' content) (hrows : ∀ r ∈ rows, r ∈ rows') :
    stage.Holds a Given' rows' := by
  have honRecord : ∀ {content outcome}, OnRecord a rows content outcome →
      OnRecord a rows' content outcome :=
    fun ⟨r, hr, hrecord⟩ => ⟨r, hrows r hr, hrecord⟩
  cases stage with
  | asked => trivial
  | admitted => trivial
  | fetched content n => exact hgiven _ h
  | cleared content n key => exact hgiven _ h
  | stored content n key blob => exact ⟨hgiven _ h.1, h.2⟩
  | settling content outcome => exact ⟨hgiven _ h.1, honRecord h.2⟩
  | deleting content outcome => exact ⟨hgiven _ h.1, honRecord h.2⟩
  | ended outcome => trivial

namespace Caretaker

variable {σ ν : Type} {a : DigestAlgorithm} {Given : OfferedContent → Prop}
  {w w' : JobState σ BlobStore ν}

/-- Whether an errand can be at a stage next: what holds there does, and all that
    may have happened to the table is that content which was given is
    recorded. -/
structure IsNext (a : DigestAlgorithm) (Given : OfferedContent → Prop) (w : JobState σ BlobStore ν)
    (reached : ErrandStage × JobState σ BlobStore ν) : Prop where
  holds : reached.1.Holds a Given reached.2.rows
  rows : reached.2.rows = w.rows ∨
    ∃ r content, Given content ∧ r.Records a content ∧ reached.2.rows = w.rows ++ [r]

/-- No row goes away. -/
theorem IsNext.mem {reached : ErrandStage × JobState σ BlobStore ν}
    (h : IsNext a Given w reached) {r : Row} (hr : r ∈ w.rows) : r ∈ reached.2.rows := by
  rcases h.rows with hsame | ⟨new, content, -, -, hnew⟩
  · rw [hsame]
    exact hr
  · rw [hnew]
    exact List.mem_append_left _ hr

theorem isNext_ended (outcome : ItemOutcome) (hrows : w'.rows = w.rows) :
    IsNext a Given w (.ended outcome, w') :=
  ⟨trivial, Or.inl hrows⟩

/-- Content that could not be archived is told about if there is an entry for
    it, and only then. -/
theorem isNext_refused {content : OfferedContent} {e : VaultFailure} (hgiven : Given content)
    (hrows : w'.rows = w.rows)
    (hentry : e.IsAboutEntry → ∃ r ∈ w.rows, r .id = .text content.id) :
    IsNext a Given w (refused content e, w') := by
  cases e with
  | alreadyArchived id =>
      obtain ⟨r, hr, hid⟩ := hentry ⟨id, rfl⟩
      refine ⟨⟨hgiven, r, ?_, hid, Or.inl rfl⟩, Or.inl hrows⟩
      exact hrows.symm ▸ hr
  | _ => exact isNext_ended _ hrows

section

variable [ContentOrigin σ] (c : Caretaker) (now : Instant) (id : String)

/-- That there is an entry is said where there is a row for it, or one that
    cannot be read. -/
theorem isNext_fetched {content : OfferedContent} (n : Nat) (hgiven : Given content) :
    IsNext a Given w (c.advance now id (.fetched content n) w) := by
  have hentry : w.stores.records.contains content.id ≠ .ok false →
      ∃ r ∈ w.rows, r .id = .text content.id := fun hcontains =>
    RecordStore.exists_row fun hfind =>
      hcontains (RecordStore.contains_eq_ok_false_iff.mpr hfind)
  rw [advance]
  cases hcontains : w.stores.records.contains content.id with
  | error e => exact isNext_refused hgiven rfl fun _ => hentry (by rw [hcontains]; simp)
  | ok present =>
      cases present with
      | true => exact isNext_refused hgiven rfl fun _ => hentry (by rw [hcontains]; simp)
      | false =>
          dsimp only
          by_cases hkey : c.archiver.HasKey (c.choicesFor content)
          · rw [Archiver.contentKey_eq (c.draws n) hkey]
            exact ⟨hgiven, Or.inl rfl⟩
          · obtain ⟨reason, hreason⟩ := Archiver.contentKey_refused hkey
            rw [hreason]
            refine isNext_refused hgiven rfl fun hpresent => ?_
            obtain ⟨_, hentry⟩ := hpresent
            cases hentry

theorem isNext_cleared {content : OfferedContent} (n : Nat) (key : Option Key)
    (hgiven : Given content) :
    IsNext c.archiver.hashAlgorithm Given w (c.advance now id (.cleared content n key) w) := by
  have hcases := c.archiver.storeContent_cases (c.draws n) key content w.stores.blobs
  rw [advance]
  rcases hstore : c.archiver.storeContent (c.draws n) key content w.stores.blobs
    with ⟨result, blobs⟩
  rw [hstore] at hcases
  rcases hcases with ⟨e, he, rfl⟩ | ⟨hcomplete, rfl⟩
  · exact isNext_refused hgiven rfl fun hentry => absurd hentry he
  · exact ⟨⟨hgiven, hcomplete, rfl⟩, Or.inl rfl⟩

/-- An entry is saved, unless someone else saved one under its id in the
    meantime. -/
theorem isNext_stored {content : OfferedContent} (n : Nat) (key : Option Key)
    {blob : StoredContent} (hgiven : Given content) (hcomplete : content.stream.failure = none)
    (hhash : blob.hash = Fingerprint.ofBytes a content.stream.data) :
    IsNext a Given w (c.advance now id (.stored content n key blob) w) := by
  rw [advance]
  cases hcheck : Archiver.checkContent (c.choicesFor content) content blob with
  | error e =>
      exact isNext_refused hgiven rfl fun hentry =>
        absurd hentry (Archiver.not_isAboutEntry_checkContent hcheck)
  | ok verify =>
      have hrecords := c.archiver.records_newEntry (c.draws n) key hcomplete hhash
      simp only
      rcases w.stores.records.save_cases (c.archiver.newEntry (c.draws n) key content blob)
        with ⟨-, t, hsave, hrows⟩ | ⟨hfound, hsave⟩
      · rw [hsave]
        refine ⟨⟨hgiven, _, ?_, hrecords.id, Or.inr hrecords⟩,
          Or.inr ⟨_, content, hgiven, hrecords, hrows⟩⟩
        show _ ∈ t.table.rows
        rw [hrows]
        exact List.mem_append_right _ (List.mem_singleton_self _)
      · rw [hsave]
        obtain ⟨r, hr, hid⟩ := RecordStore.exists_row hfound
        have hsame : Cell.text (c.archiver.newEntry (c.draws n) key content blob).record.id
            = .text content.id := hrecords.id
        exact isNext_refused hgiven rfl fun _ => ⟨r, hr, hid.trans hsame⟩

theorem isNext_settling {content : OfferedContent} {outcome : ItemOutcome}
    (hgiven : Given content) (hrecord : OnRecord a w.rows content outcome) :
    IsNext a Given w (c.advance now id (.settling content outcome) w) := by
  rw [advance]
  rcases ContentOrigin.acknowledge w.origin id with ⟨answer, origin⟩
  cases answer with
  | error e => exact isNext_ended outcome rfl
  | ok u =>
      cases c.rules.deleteSource with
      | false => exact isNext_ended outcome rfl
      | true => exact ⟨⟨hgiven, hrecord⟩, Or.inl rfl⟩

/-- What holds of an errand holds at its next stage. -/
theorem isNext_advance {stage : ErrandStage} (h : stage.Holds c.archiver.hashAlgorithm Given w.rows)
    (hgives : ∀ content, stage = .admitted → (ContentOrigin.fetch w.origin id).1 = .ok content →
      Given content) :
    IsNext c.archiver.hashAlgorithm Given w (c.advance now id stage w) := by
  cases stage with
  | asked =>
      rw [advance]
      rcases w.guard.test now id with ⟨verdict, guard⟩
      cases verdict with
      | accepted => exact ⟨trivial, Or.inl rfl⟩
      | _ => exact isNext_ended _ rfl
  | admitted =>
      rw [advance]
      rcases hfetch : ContentOrigin.fetch w.origin id with ⟨answer, origin⟩
      rw [hfetch] at hgives
      cases answer with
      | error e => exact isNext_ended _ rfl
      | ok content => exact ⟨hgives content rfl rfl, Or.inl rfl⟩
  | fetched content n => exact c.isNext_fetched now id n h
  | cleared content n key => exact c.isNext_cleared now id n key h
  | stored content n key blob => exact c.isNext_stored now id n key h.1 h.2.1 h.2.2
  | settling content outcome => exact c.isNext_settling now id h.1 h.2
  | deleting content outcome => exact isNext_ended outcome rfl
  | ended outcome => exact isNext_ended outcome rfl

end

section

variable [ContentOrigin σ]

/-- Looking at what there is to do leaves the stores alone. -/
theorem stores_survey (c : Caretaker) (time : Timestamp) (job : Job) (w : JobState σ BlobStore ν) :
    (c.survey time job w).2.stores = w.stores := by
  rw [survey.eq_def]
  cases job with
  | archive =>
      simp only
      rcases ContentOrigin.flagged w.origin c.rules.query with ⟨listed, origin⟩
      cases listed <;> rfl
  | notarize => rfl
  | orphans =>
      simp only
      cases c.cutoff time with
      | error outcome => rfl
      | ok cutoff => cases w.stores.records.references <;> rfl

/-- A run that begins leaves the stores alone. -/
theorem stores_begin (c : Caretaker) (time : Timestamp) (job : Job) (w : JobState σ BlobStore ν) :
    (c.begin time job w).2.stores = w.stores := by
  rw [begin]
  cases (w.locks.get job).acquire with
  | none => rfl
  | some lock =>
      have hsurvey := c.stores_survey time job { w with locks := w.locks.set job lock }
      simp only
      rcases hfound : c.survey time job { w with locks := w.locks.set job lock } with ⟨found, w'⟩
      rw [hfound] at hsurvey
      cases found with
      | error outcome => exact hsurvey
      | ok begun => exact hsurvey

end

end Caretaker

/-! ## Any order of events -/

namespace Intake

variable {σ ν : Type} [ContentOrigin σ]

/-- Whether content was given for an id: an errand asked the repository for it,
    and this was the answer. -/
def Gave (c : Caretaker) (w : JobState σ BlobStore ν) (events : List (IntakeEvent σ))
    (id : String) (content : OfferedContent) : Prop :=
  ∃ before i now after, events = before ++ .work i now :: after ∧
    (run c w before).errands[i]? = some ⟨id, .admitted⟩ ∧
    (ContentOrigin.fetch (run c w before).world.origin id).1 = .ok content

variable {c : Caretaker} {w : JobState σ BlobStore ν} {events : List (IntakeEvent σ)}

theorem Gave.append {id : String} {content : OfferedContent} (h : Gave c w events id content)
    (more : List (IntakeEvent σ)) : Gave c w (events ++ more) id content := by
  obtain ⟨before, i, now, after, rfl, hstage, hfetch⟩ := h
  refine ⟨before, i, now, after ++ more, ?_, hstage, hfetch⟩
  rw [List.append_assoc, List.cons_append]

/-- What holds after any events: every row was there or records what was given,
    and every errand is what its stage says. -/
structure Holds (c : Caretaker) (w : JobState σ BlobStore ν) (events : List (IntakeEvent σ)) :
    Prop where
  rows : ∀ r ∈ (run c w events).world.rows, r ∈ w.rows ∨
    ∃ id content, Gave c w events id content ∧ r.Records c.archiver.hashAlgorithm content
  stages : ∀ e ∈ (run c w events).errands,
    e.stage.Holds c.archiver.hashAlgorithm (Gave c w events e.id) (run c w events).world.rows

theorem Holds.rows_append (h : Holds c w events) (more : List (IntakeEvent σ)) {r : Row}
    (hr : r ∈ (run c w events).world.rows) : r ∈ w.rows ∨ ∃ id content,
      Gave c w (events ++ more) id content ∧ r.Records c.archiver.hashAlgorithm content := by
  rcases h.rows r hr with hstart | ⟨id, content, hgave, hrecords⟩
  · exact Or.inl hstart
  · exact Or.inr ⟨id, content, hgave.append more, hrecords⟩

/-- What holds goes on to hold where the table stays and no errand is worked
    on. -/
theorem Holds.next (h : Holds c w events) {event : IntakeEvent σ}
    (hrows : (step c (run c w events) event).world.rows = (run c w events).world.rows)
    (herrands : ∀ e ∈ (step c (run c w events) event).errands,
      e ∈ (run c w events).errands ∨ e.stage = .asked) : Holds c w (events ++ [event]) := by
  have hrun : run c w (events ++ [event]) = step c (run c w events) event :=
    run_append c w events [event]
  constructor
  case rows =>
    intro r hr
    rw [hrun, hrows] at hr
    exact h.rows_append _ hr
  case stages =>
    intro e he
    rw [hrun] at he ⊢
    rcases herrands e he with he | hasked
    · refine (h.stages e he).mono (fun _ hgave => hgave.append _) fun r hr => ?_
      rw [hrows]
      exact hr
    · rw [hasked]
      trivial

/-- What holds goes on to hold when an errand gets to its next stage. -/
theorem holds_work (h : Holds c w events) (i : Nat) (now : Instant) :
    Holds c w (events ++ [.work i now]) := by
  have hrun : run c w (events ++ [.work i now]) = step c (run c w events) (.work i now) :=
    run_append c w events [.work i now]
  cases hget : (run c w events).errands[i]? with
  | none =>
      have hstep := step_work_none (c := c) now hget
      refine h.next ?_ fun e he => Or.inl ?_
      · rw [hstep]
      · rw [hstep] at he
        exact he
  | some e =>
      have hstage := (h.stages e (List.mem_of_getElem? hget)).mono
        (fun _ hgave => hgave.append [.work i now]) (fun _ hr => hr)
      have hnext := c.isNext_advance now e.id hstage fun content hadmitted hfetch =>
        ⟨events, i, now, [], rfl, by rw [hget, ← hadmitted], hfetch⟩
      have hstep := step_work (c := c) now hget
      constructor
      case rows =>
        intro r hr
        rw [hrun, hstep] at hr
        rcases hnext.rows with hsame | ⟨new, content, hgave, hrecords, hnew⟩
        · exact h.rows_append _ (hsame ▸ hr)
        · rcases List.mem_append.mp (hnew ▸ hr) with hr | hr
          · exact h.rows_append _ hr
          · rw [List.mem_singleton.mp hr]
            exact Or.inr ⟨e.id, content, hgave, hrecords⟩
      case stages =>
        intro f hf
        rw [hrun, hstep] at hf ⊢
        rcases List.mem_or_eq_of_mem_set hf with hf | rfl
        · exact (h.stages f hf).mono (fun _ hgave => hgave.append _) fun r hr => hnext.mem hr
        · exact hnext.holds

/-- What holds goes on to hold whatever happens. -/
theorem holds_step (h : Holds c w events) (event : IntakeEvent σ) :
    Holds c w (events ++ [event]) := by
  cases event with
  | ask id =>
      refine h.next rfl fun e he => ?_
      rcases List.mem_append.mp he with he | he
      · exact Or.inl he
      · rw [List.mem_singleton.mp he]
        exact Or.inr rfl
  | sweep time =>
      have hstores := c.stores_begin time .archive (run c w events).world
      rcases hbegin : c.begin time .archive (run c w events).world with ⟨answer, world⟩
      rw [hbegin] at hstores
      have hrows : world.rows = (run c w events).world.rows :=
        congrArg (fun s => s.records.table.rows) hstores
      cases answer with
      | error outcome =>
          have hstep := step_sweep_refused hbegin
          refine h.next (by rw [hstep, hrows]) fun e he => Or.inl ?_
          rw [hstep] at he
          exact he
      | ok begun =>
          obtain ⟨ids, rfl⟩ := begin_archive hbegin
          have hstep := step_sweep_begun hbegin
          refine h.next (by rw [hstep, hrows]) fun e he => ?_
          rw [hstep] at he
          rcases List.mem_append.mp he with he | he
          · exact Or.inl he
          · obtain ⟨id, -, rfl⟩ := List.mem_map.mp he
            exact Or.inr rfl
  | release => exact h.next rfl fun e he => Or.inl he
  | work i now => exact holds_work h i now
  | change origin => exact h.next rfl fun e he => Or.inl he

/-- What holds in the beginning holds after any events. -/
theorem holds_append (h : Holds c w events) (more : List (IntakeEvent σ)) :
    Holds c w (events ++ more) := by
  induction more generalizing events with
  | nil =>
      rw [List.append_nil]
      exact h
  | cons event more ih =>
      rw [List.append_cons]
      exact ih (holds_step h event)

theorem holds_run (c : Caretaker) (w : JobState σ BlobStore ν) (events : List (IntakeEvent σ)) :
    Holds c w events := by
  have hstart : Holds c w [] := ⟨fun _ hr => Or.inl hr, fun _ he => by cases he⟩
  exact holds_append hstart events

/-! ## What is on record when an item is deleted -/

/-- Whether the repository was faithful to an item: what it gave has the id of
    this item if and only if it was asked for it, all that it delivered to the
    end for it are these bytes, and what was on record for it already are these
    bytes too. -/
structure IsFaithful (c : Caretaker) (w : JobState σ BlobStore ν) (events : List (IntakeEvent σ))
    (id : String) (data : Bytes) : Prop where
  named : ∀ asked content, Gave c w events asked content → (content.id = id ↔ asked = id)
  steady : ∀ content, Gave c w events id content → content.stream.failure = none →
    content.stream.data = data
  prior : ∀ r ∈ w.rows, r .id = .text id → r.HasDigest c.archiver.hashAlgorithm data

/-- When the repository is about to be told to delete an item, it gave content
    for the item, and there is a row under the id of this content.  The row was
    there in the beginning or records content that was given; it records the
    very content if this was archived for the item.  So if the repository is
    faithful to the item, the row is under the id of the item and has the digest
    of its bytes. -/
theorem deleting_recorded (c : Caretaker) (w : JobState σ BlobStore ν)
    (events : List (IntakeEvent σ)) {e : Errand} {content : OfferedContent}
    {outcome : ItemOutcome} (he : e ∈ (run c w events).errands)
    (hstage : e.stage = .deleting content outcome) :
    Gave c w events e.id content ∧
    (∃ r ∈ (run c w events).world.rows, r .id = .text content.id ∧
      (outcome = .alreadyArchived ∨ r.Records c.archiver.hashAlgorithm content) ∧
      (r ∈ w.rows ∨ ∃ asked given, Gave c w events asked given ∧
        r.Records c.archiver.hashAlgorithm given)) ∧
    ∀ data, IsFaithful c w events e.id data →
      ∃ r ∈ (run c w events).world.rows, r .id = .text e.id ∧
        r.HasDigest c.archiver.hashAlgorithm data := by
  have hholds := holds_run c w events
  have hdeleting := hholds.stages e he
  rw [hstage] at hdeleting
  obtain ⟨hgave, r, hr, hid, hrecords⟩ := hdeleting
  have hwhence := hholds.rows r hr
  refine ⟨hgave, ⟨r, hr, hid, hrecords, hwhence⟩, fun data hfaithful => ?_⟩
  rw [(hfaithful.named e.id content hgave).mpr rfl] at hid
  refine ⟨r, hr, hid, ?_⟩
  rcases hwhence with hstart | ⟨asked, given, hgiven, hof⟩
  · exact hfaithful.prior r hstart hid
  · -- what the row records was given under the id of the item
    have hsame : given.id = e.id := Cell.text.inj (hof.id.symm.trans hid)
    rw [(hfaithful.named asked given hgiven).mp hsame] at hgiven
    rw [← hfaithful.steady given hgiven hof.complete]
    exact hof.digest

/-- A repository is faithful to an item if in some respect it stays as it is, and
    as long as it does it gives the item and these bytes for its id only. -/
theorem isFaithful_of_keeps {P : σ → Prop} (hkeeps : ContentOrigin.Keeps P) {id : String}
    {data : Bytes} (hstart : P w.origin) (hchange : ∀ origin, .change origin ∈ events → P origin)
    (hgives : ∀ s, P s → ∀ asked content, (ContentOrigin.fetch s asked).1 = .ok content →
      (content.id = id ↔ asked = id) ∧ (asked = id → content.stream.data = data))
    (hprior : ∀ r ∈ w.rows, r .id = .text id → r.HasDigest c.archiver.hashAlgorithm data) :
    IsFaithful c w events id data := by
  have hgave : ∀ asked content, Gave c w events asked content →
      (content.id = id ↔ asked = id) ∧ (asked = id → content.stream.data = data) := by
    rintro asked content ⟨before, i, now, after, rfl, -, hfetch⟩
    refine hgives _ (origin_run hkeeps c hstart fun origin ho => ?_) asked content hfetch
    exact hchange origin (List.mem_append_left _ ho)
  exact ⟨fun asked content h => (hgave asked content h).1,
    fun content h _ => (hgave id content h).2 rfl, hprior⟩

end Intake

/-! ## Two ways to a deletion -/

namespace Caretaker

variable {σ ν : Type} [ContentOrigin σ] (c : Caretaker) (now : Instant) (id : String)
  (w : JobState σ BlobStore ν) {content : OfferedContent} {guard : RepeatGuard} {origin told : σ}

/-- Content without an entry that is delivered to the end and vouched for is
    archived, and then the item is to be deleted. -/
theorem proceed_archived (hguard : w.guard.test now id = (.accepted, guard))
    (hfetch : ContentOrigin.fetch w.origin id = (.ok content, origin))
    (hbegins : c.archiver.Begins content (c.choicesFor content) w.stores.records)
    (hclean : content.stream.failure = none)
    (hvouched : c.archiver.IsVouched (c.choicesFor content) content)
    (htold : ContentOrigin.acknowledge origin id = (.ok (), told))
    (hrules : c.rules.deleteSource = true) :
    ∃ receipt w', c.proceed now id 6 (.asked, w) = (.deleting content (.archived receipt), w') ∧
      w'.origin = told ∧ w'.guard = guard ∧ w'.rows = w.rows ++
        [Row.ofEntry (c.archiver.entryFor (c.draws w.drawn) content (c.choicesFor content))] := by
  have hseen := Archiver.seen_of_bufferable hvouched.1 content
  have hcompleted : c.archiver.IsCompleted (c.choicesFor content) content :=
    ⟨hseen ▸ hclean, Or.inr (hseen ▸ hvouched.2.1)⟩
  have hkey := Archiver.contentKey_eq (c.draws w.drawn) hbegins.2
  have hstore := c.archiver.storeContent_of_completed (c.draws w.drawn) w.stores.blobs hcompleted
  rw [Archiver.countedAs_of_bufferable hvouched.1] at hstore
  obtain ⟨verify, hverify⟩ := Archiver.checkContent_of_vouched (c.draws w.drawn) hvouched
  rcases w.stores.records.save_cases
      (c.archiver.entryFor (c.draws w.drawn) content (c.choicesFor content))
    with ⟨-, t, hsave, hrows⟩ | ⟨hfound, -⟩
  · rw [Archiver.entryFor] at hsave
    let receipt := c.archiver.receipt (c.archiver.keyFor (c.draws w.drawn) (c.choicesFor content))
      content (c.archiver.storedAs (c.draws w.drawn) content.stream.data) verify
    let blobs := Archiver.added (c.draws w.drawn) w.stores.blobs
      (c.archiver.blobFor (c.draws w.drawn) content (c.choicesFor content))
    refine ⟨receipt, { w with origin := told, guard, drawn := w.drawn + 1, stores := ⟨blobs, t⟩ }, ?_,
      rfl, rfl, hrows⟩
    simp only [proceed, advance, hguard, hfetch, hbegins.1, hkey, hstore, hverify, hsave, htold,
      hrules, if_true]
    rfl
  · rw [Archiver.id_entryFor] at hfound
    exact absurd (RecordStore.contains_eq_ok_false_iff.mp hbegins.1) hfound

/-- Content that there is an entry for is not looked at, and the item is to be
    deleted. -/
theorem proceed_present (hguard : w.guard.test now id = (.accepted, guard))
    (hfetch : ContentOrigin.fetch w.origin id = (.ok content, origin))
    (hfound : w.stores.records.contains content.id = .ok true)
    (htold : ContentOrigin.acknowledge origin id = (.ok (), told))
    (hrules : c.rules.deleteSource = true) :
    c.proceed now id 4 (.asked, w) = (.deleting content .alreadyArchived,
      { w with origin := told, guard, drawn := w.drawn + 1 }) := by
  simp only [proceed, advance, hguard, hfetch, hfound, refused, htold, hrules]
  rfl

end Caretaker

/-! ## A shelf to delete from -/

/-- Whatever a shelf is asked, the items stay on it. -/
theorem Shelf.keeps_items (items : List (String × ShelfItem)) :
    ContentOrigin.Keeps fun s : Shelf => s.items = items := by
  constructor
  case fetch =>
    intro s id h
    show (Shelf.fetch s id).2.items = items
    rw [Shelf.fetch]
    cases s.items.lookup id <;> exact h
  case flagged => exact fun _ _ h => h
  case acknowledge =>
    intro s id h
    show (Shelf.acknowledge s id).2.items = items
    rw [Shelf.acknowledge]
    split <;> exact h
  case delete =>
    intro s id h
    show (Shelf.delete s id).2.items = items
    rw [Shelf.delete]
    split <;> exact h

/-- A shelf with one item gives this one, when it is asked for it. -/
theorem Shelf.fetch_single {s : Shelf} {id asked : String} {item : ShelfItem}
    {content : OfferedContent} (hitems : s.items = [(id, item)])
    (h : (ContentOrigin.fetch s asked).1 = .ok content) : asked = id ∧ content = item.content := by
  have hfetch : (Shelf.fetch s asked).1 = .ok content := h
  rw [Shelf.fetch, hitems, List.lookup_cons] at hfetch
  by_cases hasked : asked = id
  · rw [hasked, beq_self_eq_true] at hfetch
    simp only at hfetch
    split at hfetch
    · cases hfetch
    · cases hfetch
      exact ⟨hasked, rfl⟩
  · rw [beq_false_of_ne hasked] at hfetch
    cases hfetch

namespace Sample

/-- Deletes whatever is archived. -/
def tidy : Caretaker := ⟨archiver, ⟨"flagged", 1, {}, true, 0⟩, fun _ => draws⟩

/-- A shelf with one item. -/
def shelf (id : String) (content : OfferedContent) : Shelf := { items := [(id, { content })] }

/-- Nothing was archived yet. -/
def stocked (id : String) : JobState Shelf BlobStore StandInNotary where
  origin := shelf id content
  stores := stores
  notary := {}
  guard := { threshold := 0 }

/-- Content under the same id with other bytes. -/
def altered : OfferedContent := { content with stream := { data := [98, 121, 101] } }

/-- An item is archived, its bytes change, and it is asked for once more. -/
def rewriting : List (IntakeEvent Shelf) :=
  Intake.asking "report" 0 0 6 ++ [.work 0 0, .change (shelf "report" altered)] ++
    Intake.asking "report" 1 0 4

theorem vouched_content : archiver.IsVouched (tidy.choicesFor content) content := by
  refine ⟨by decide, fun n hn => ?_, fun hrefuses => nomatch hrefuses.1⟩
  cases hn
  rfl

/-- What the table has when the content was archived. -/
def row : Row := .ofEntry (archiver.entryFor draws content {})

/-- Whatever the item is called, its content is archived, and it is to be
    deleted. -/
theorem run_archived (id : String) :
    ∃ (receipt : ArchiveReceipt) (w : JobState Shelf BlobStore StandInNotary),
      Intake.run tidy (stocked id) (Intake.asking id 0 0 6)
        = ⟨w, [⟨id, .deleting content (.archived receipt)⟩]⟩ ∧
      w.guard = { threshold := 0, windows := [(id, 0)] } ∧ w.rows = [row] := by
  have hfetch : ContentOrigin.fetch (shelf id content) id
      = (.ok content, { shelf id content with fetched := [id] }) := by
    show Shelf.fetch (shelf id content) id = _
    simp [Shelf.fetch, shelf]
  have htold : ContentOrigin.acknowledge { shelf id content with fetched := [id] } id
      = (.ok (), { shelf id content with fetched := [id], marked := [id] }) := by
    show Shelf.acknowledge { shelf id content with fetched := [id] } id = _
    simp [Shelf.acknowledge, shelf]
  obtain ⟨receipt, w, hproceed, -, hguard, hrows⟩ :=
    tidy.proceed_archived 0 id (stocked id) rfl hfetch ⟨rfl, hasKey _⟩ rfl vouched_content htold rfl
  refine ⟨receipt, w, ?_, hguard, hrows⟩
  rw [Intake.run_asking, hproceed]

/-- It is not archived again when its bytes have changed, but still to be
    deleted. -/
theorem run_rewriting :
    ∃ (w : JobState Shelf BlobStore StandInNotary) (first : Errand),
      Intake.run tidy (stocked "report") rewriting
        = ⟨w, [first, ⟨"report", .deleting altered .alreadyArchived⟩]⟩ ∧
      (ContentOrigin.fetch w.origin "report").1 = .ok altered ∧ w.rows = [row] := by
  obtain ⟨receipt, w, hfirst, hguard, hrows⟩ := run_archived "report"
  -- the shelf after the item was deleted and is there again with other bytes
  have hmeanwhile : [.work 0 0, .change (shelf "report" altered)].foldl (Intake.step tidy)
        ⟨w, [⟨"report", .deleting content (.archived receipt)⟩]⟩
      = ⟨{ w with origin := shelf "report" altered }, [⟨"report", .ended (.archived receipt)⟩]⟩ :=
    rfl
  have hmem : row ∈ w.stores.records.table.rows := by
    show row ∈ w.rows
    rw [hrows]
    exact List.mem_singleton_self _
  have hreadable : (archiver.entryFor draws content {}).IsReadable :=
    archiver.isReadable_entryFor content {} (by decide)
  have hfound := RecordStore.contains_of_mem hreadable hmem
  have hguard' : w.guard.test 0 "report" = (.accepted, w.guard) := by
    rw [hguard]
    rfl
  have hfetch : ContentOrigin.fetch (shelf "report" altered) "report"
      = (.ok altered, { shelf "report" altered with fetched := ["report"] }) := rfl
  have hagain := tidy.proceed_present 0 "report" { w with origin := shelf "report" altered }
    hguard' hfetch hfound rfl rfl
  have hlast := Intake.foldl_asking tidy 0 "report" 4
    ⟨{ w with origin := shelf "report" altered }, [⟨"report", .ended (.archived receipt)⟩]⟩
  rw [hagain, ← hmeanwhile, ← hfirst, ← Intake.run_append] at hlast
  exact ⟨_, _, (Intake.run_append _ _ _ _).trans hlast, rfl, hrows⟩

end Sample

namespace Intake

/-- The item is deleted when its bytes are on record under its id. -/
theorem deleting_recorded_report :
    ∃ receipt : ArchiveReceipt,
      ⟨"report", .deleting Sample.content (.archived receipt)⟩
        ∈ (run Sample.tidy (Sample.stocked "report") (asking "report" 0 0 6)).errands ∧
      ∃ r ∈ (run Sample.tidy (Sample.stocked "report") (asking "report" 0 0 6)).world.rows,
        r .id = .text "report" ∧ r.HasDigest .sha256 [104, 105, 33] := by
  obtain ⟨receipt, w, hrun, -, -⟩ := Sample.run_archived "report"
  have hmem : ⟨"report", .deleting Sample.content (.archived receipt)⟩
      ∈ (run Sample.tidy (Sample.stocked "report") (asking "report" 0 0 6)).errands := by
    rw [hrun]
    exact List.mem_singleton_self _
  refine ⟨receipt, hmem, ?_⟩
  have hkept : IsFaithful Sample.tidy (Sample.stocked "report") (asking "report" 0 0 6) "report"
      [104, 105, 33] := by
    refine isFaithful_of_keeps (Shelf.keeps_items [("report", { content := Sample.content })]) rfl
      (fun origin h => ?_) (fun s hs asked content hfetch => ?_) (fun r hr => ?_)
    · rcases List.mem_cons.mp h with h | h
      · cases h
      · cases (List.mem_replicate.mp h).2
    · obtain ⟨rfl, rfl⟩ := Shelf.fetch_single hs hfetch
      exact ⟨iff_of_true rfl rfl, fun _ => rfl⟩
    · cases hr
  exact (deleting_recorded Sample.tidy (Sample.stocked "report") _ hmem rfl).2.2 _ hkept

/-- The bytes of an item need not be on record under its id: content may be given
    under another id, and other content may be given than was archived. -/
theorem deleting_unrecorded :
    (∃ receipt : ArchiveReceipt,
      ⟨"draft", .deleting Sample.content (.archived receipt)⟩
        ∈ (run Sample.tidy (Sample.stocked "draft") (asking "draft" 0 0 6)).errands ∧
      ∀ r ∈ (run Sample.tidy (Sample.stocked "draft") (asking "draft" 0 0 6)).world.rows,
        r .id ≠ .text "draft") ∧
    (⟨"report", .deleting Sample.altered .alreadyArchived⟩
        ∈ (run Sample.tidy (Sample.stocked "report") Sample.rewriting).errands ∧
      (ContentOrigin.fetch (run Sample.tidy (Sample.stocked "report") Sample.rewriting).world.origin
        "report").1 = .ok Sample.altered ∧
      ∀ r ∈ (run Sample.tidy (Sample.stocked "report") Sample.rewriting).world.rows,
        ¬ r.HasDigest .sha256 Sample.altered.stream.data) := by
  constructor
  · obtain ⟨receipt, w, hrun, -, hrows⟩ := Sample.run_archived "draft"
    rw [hrun]
    refine ⟨receipt, List.mem_singleton_self _, fun r hr hid => ?_⟩
    have hone : r ∈ [Sample.row] := hrows ▸ hr
    rw [List.mem_singleton.mp hone] at hid
    exact absurd (Cell.text.inj hid) (by decide)
  · obtain ⟨w, first, hrun, hfetch, hrows⟩ := Sample.run_rewriting
    rw [hrun]
    refine ⟨List.mem_cons_of_mem _ (List.mem_singleton_self _), hfetch, fun r hr hdigest => ?_⟩
    have hone : r ∈ [Sample.row] := hrows ▸ hr
    have hhash := hdigest.hash
    rw [List.mem_singleton.mp hone] at hhash
    have hother : (Fingerprint.ofBytes .sha256 [104, 105, 33]).value
        ≠ (Fingerprint.ofBytes .sha256 [98, 121, 101]).value := by
      decide +kernel
    exact hother (Cell.text.inj hhash)

end Intake

end ContentVault
