import ContentVault.Proofs.Jobs.Deleting

/-! # What becomes of an item

    Once the guard let an item through, two things decide about it: what the
    repository gives for it and the row that there is under its id.  `fate` says
    from these two, and from nothing else, what comes of the item and which row
    there is for it then.

    An errand comes to its fate whatever other errands do in between.  What is
    ahead of it at a stage (`outlook`) is what is ahead at the next one, and no
    stage touches the row of another id (`abides_advance`).  What is drawn for an
    item shows in no outcome and in nothing that its entry tells
    (`fates_alike`). -/

namespace ContentVault

/-- What comes of an item whose content could not be archived. -/
def ItemOutcome.ofFailure : VaultFailure → ItemOutcome
  | .alreadyArchived _ => .alreadyArchived
  | e => .failed e

/-- The row for an id, if there is one. -/
def JobState.row {σ β ν : Type} (w : JobState σ β ν) (id : String) : Option Row :=
  w.stores.records.table.find? id

/-! ## Fates -/

namespace Caretaker

variable (c : Caretaker) (draws : Draws) (content : OfferedContent)

/-- What becomes of content whose blob is complete, with the row that there is. -/
def fateStored (key : Option Key) (blob : StoredContent) (row : Option Row) :
    ItemOutcome × Option Row :=
  match Archiver.checkContent (c.choicesFor content) content blob with
  | .error e => (.ofFailure e, row)
  | .ok verify =>
    match row with
    | some r => (.alreadyArchived, some r)
    | none => (.archived (c.archiver.receipt key content blob verify),
        some (Row.ofEntry (c.archiver.newEntry draws key content blob)))

/-- What becomes of content that is to be put into a blob. -/
def fateCleared (key : Option Key) (row : Option Row) : ItemOutcome × Option Row :=
  match (c.archiver.storeContent draws key content BlobStore.empty).1 with
  | .error e => (.ofFailure e, row)
  | .ok blob => c.fateStored draws content key blob row

/-- What becomes of content: if there is a row under its id already, or no key to be
    had, nothing. -/
def fateFetched (row : Option Row) : ItemOutcome × Option Row :=
  match row with
  | none =>
    match c.archiver.contentKey draws (c.choicesFor content) with
    | .error e => (.ofFailure e, none)
    | .ok key => c.fateCleared draws content key none
  | some r =>
    match r.decode with
    | .error e => (.ofFailure e, some r)
    | .ok _ => (.alreadyArchived, some r)

/-- What becomes of an item for which the repository gives this, and the row for it
    then, by the row that there was. -/
def fate (answer : Attempt OfferedContent) (row : Option Row) : ItemOutcome × Option Row :=
  match answer with
  | .error e => (.failed e, row)
  | .ok content => c.fateFetched draws content row

/-- What is ahead of an errand at a stage, by the row that there is for its item. -/
def outlook (stage : ErrandStage) (row : Option Row) : ItemOutcome × Option Row :=
  match stage with
  | .asked => (.cutShort, row)
  | .admitted => (.cutShort, row)
  | .fetched content n => c.fateFetched (c.draws n) content row
  | .cleared content n key => c.fateCleared (c.draws n) content key row
  | .stored content n key blob => c.fateStored (c.draws n) content key blob row
  | .settling _ outcome => (outcome, row)
  | .deleting _ outcome => (outcome, row)
  | .ended outcome => (outcome, row)

end Caretaker

/-! ## Stages -/

namespace ErrandStage

/-- Whether an errand has what the repository gave for its item. -/
def hasAnswer : ErrandStage → Bool
  | asked => false
  | admitted => false
  | _ => true

/-- Whether the content that is still to be archived is that of an item. -/
def IsOf (id : String) : ErrandStage → Prop
  | fetched content _ => content.id = id
  | cleared content _ _ => content.id = id
  | stored content _ _ _ => content.id = id
  | _ => True

/-- How many rows an errand has added. -/
def created : ErrandStage → Nat
  | settling _ (.archived _) => 1
  | deleting _ (.archived _) => 1
  | ended (.archived _) => 1
  | _ => 0

end ErrandStage

namespace Caretaker

variable {σ ν : Type} {c : Caretaker} {id : String} {stage : ErrandStage}
  {w w' : JobState σ BlobStore ν}

/-- Whether an errand for an item gets from a stage to another as it should: what is
    ahead of it stays, and nothing is done about other items. -/
structure Abides (c : Caretaker) (id : String) (stage : ErrandStage) (w : JobState σ BlobStore ν)
    (reached : ErrandStage × JobState σ BlobStore ν) : Prop where
  outlook : c.outlook reached.1 (reached.2.row id) = c.outlook stage (w.row id)
  hasAnswer : reached.1.hasAnswer = true
  isOf : reached.1.IsOf id
  others : ∀ other, other ≠ id → reached.2.row other = w.row other
  guard : reached.2.guard = w.guard
  rows : ∃ new, reached.2.rows = w.rows ++ new ∧ reached.1.created = stage.created + new.length

/-- A step that leaves the rows and the guard alone. -/
theorem abides_of_same {next : ErrandStage} (hrecords : w'.stores.records = w.stores.records)
    (hguard : w'.guard = w.guard)
    (houtlook : c.outlook next (w.row id) = c.outlook stage (w.row id))
    (hanswer : next.hasAnswer = true) (hof : next.IsOf id)
    (hcreated : next.created = stage.created) : Abides c id stage w (next, w') := by
  have hrow : ∀ other, w'.row other = w.row other := fun other => by
    rw [JobState.row, JobState.row, hrecords]
  have hrows : w'.rows = w.rows := by
    rw [JobState.rows, JobState.rows, hrecords]
  constructor
  case outlook => exact (congrArg _ (hrow id)).trans houtlook
  case hasAnswer => exact hanswer
  case isOf => exact hof
  case others => exact fun other _ => hrow other
  case guard => exact hguard
  case rows => exact ⟨[], hrows.trans (List.append_nil _).symm, hcreated⟩

/-- A step to where content could not be archived. -/
theorem abides_refused {content : OfferedContent} {e : VaultFailure}
    (hrecords : w'.stores.records = w.stores.records) (hguard : w'.guard = w.guard)
    (houtlook : c.outlook stage (w.row id) = (.ofFailure e, w.row id))
    (hcreated : stage.created = 0) :
    Abides c id stage w (refused content e, w') := by
  have hrefused : ∀ row, c.outlook (refused content e) row = (.ofFailure e, row) := by
    intro row
    cases e <;> rfl
  refine abides_of_same hrecords hguard ((hrefused _).trans houtlook.symm) ?_ ?_ ?_
  · cases e <;> rfl
  · cases e <;> exact trivial
  · rw [hcreated]
    cases e <;> rfl

section

variable [ContentOrigin σ] (c : Caretaker) (now : Instant)

theorem abides_fetched {content : OfferedContent} (n : Nat) (hid : content.id = id) :
    Abides c id (.fetched content n) w (c.advance now id (.fetched content n) w) := by
  subst hid
  have hcontains : w.stores.records.contains content.id
      = match w.row content.id with
        | none => .ok false
        | some r => r.decode.map fun _ => true := by
    rw [RecordStore.contains, RecordStore.find, JobState.row]
    cases w.stores.records.table.find? content.id with
    | none => rfl
    | some r => cases hdecode : r.decode <;> simp only [hdecode] <;> rfl
  rw [advance, hcontains]
  cases hrow : w.row content.id with
  | none =>
      dsimp only
      cases hkey : c.archiver.contentKey (c.draws n) (c.choicesFor content) with
      | error e =>
          refine abides_refused rfl rfl ?_ rfl
          rw [hrow, outlook, fateFetched, hkey]
      | ok key =>
          refine abides_of_same rfl rfl ?_ rfl rfl rfl
          rw [hrow, outlook, outlook, fateFetched, hkey]
  | some r =>
      cases hdecode : r.decode with
      | error e =>
          simp only [hdecode, Except.map]
          refine abides_refused rfl rfl ?_ rfl
          rw [hrow, outlook, fateFetched]
          simp only [hdecode]
      | ok e =>
          simp only [hdecode, Except.map]
          refine abides_refused rfl rfl ?_ rfl
          rw [hrow, outlook, fateFetched]
          simp only [hdecode]
          rfl

/-- What storing content comes to does not depend on what blobs there are. -/
theorem storeContent_elsewhere (a : Archiver) (draws : Draws) (key : Option Key)
    (content : OfferedContent) (s t : BlobStore) :
    (a.storeContent draws key content s).1 = (a.storeContent draws key content t).1 := by
  rw [Archiver.storeContent_eq, Archiver.storeContent_eq]
  cases (a.seen content).failure with
  | some e => rfl
  | none =>
      cases BlobStore.checkLength (Archiver.blobLength key content.length)
        (a.seen content).data.length <;> rfl

theorem abides_cleared {content : OfferedContent} (n : Nat) (key : Option Key)
    (hid : content.id = id) :
    Abides c id (.cleared content n key) w (c.advance now id (.cleared content n key) w) := by
  have hresult := storeContent_elsewhere c.archiver (c.draws n) key content w.stores.blobs .empty
  rw [advance]
  rcases hstore : c.archiver.storeContent (c.draws n) key content w.stores.blobs
    with ⟨result, blobs⟩
  rw [hstore] at hresult
  cases result with
  | error e =>
      refine abides_refused rfl rfl ?_ rfl
      rw [outlook, fateCleared, ← hresult]
  | ok blob =>
      refine abides_of_same rfl rfl ?_ rfl hid rfl
      rw [outlook, outlook, fateCleared, ← hresult]

theorem abides_stored {content : OfferedContent} (n : Nat) (key : Option Key)
    (blob : StoredContent) (hid : content.id = id) :
    Abides c id (.stored content n key blob) w
      (c.advance now id (.stored content n key blob) w) := by
  subst hid
  have hid : (c.archiver.newEntry (c.draws n) key content blob).record.id = content.id := by
    cases key <;> rfl
  rw [advance]
  cases hcheck : Archiver.checkContent (c.choicesFor content) content blob with
  | error e =>
      refine abides_refused rfl rfl ?_ rfl
      rw [outlook, fateStored]
      simp only [hcheck]
  | ok verify =>
      simp only
      rcases w.stores.records.save_cases (c.archiver.newEntry (c.draws n) key content blob)
        with ⟨hnew, t, hsave, hrows⟩ | ⟨hfound, hsave⟩
      · rw [hid] at hnew
        have hown : t.table.find? content.id
            = some (Row.ofEntry (c.archiver.newEntry (c.draws n) key content blob)) := by
          rw [← hid]
          refine Table.find?_of_mem ?_
          rw [hrows]
          exact List.mem_append_right _ List.mem_cons_self
        rw [hsave]
        constructor
        case outlook =>
          show (_, t.table.find? content.id) = _
          rw [hown, outlook, JobState.row, hnew, fateStored]
          simp only [hcheck]
        case hasAnswer => rfl
        case isOf => trivial
        case others =>
          intro other hother
          have hfor : (Row.ofEntry (c.archiver.newEntry (c.draws n) key content blob)).isFor other
              = false := by
            rw [Row.isFor_ofEntry, hid]
            exact decide_eq_false hother.symm
          show t.table.find? other = w.stores.records.table.find? other
          rw [Table.find?, Table.find?, hrows, List.find?_append, List.find?_cons, hfor]
          exact Option.or_none
        case guard => rfl
        case rows => exact ⟨_, hrows, rfl⟩
      · rw [hid] at hfound
        obtain ⟨r, hr⟩ := Option.ne_none_iff_exists'.mp hfound
        rw [hsave]
        refine abides_refused rfl rfl ?_ rfl
        rw [outlook, JobState.row, hr, fateStored]
        simp only [hcheck]
        rfl

/-- An errand that has what the repository gave for its item gets on as it should. -/
theorem abides_advance (hanswer : stage.hasAnswer = true) (hof : stage.IsOf id) :
    Abides c id stage w (c.advance now id stage w) := by
  cases stage with
  | asked => cases hanswer
  | admitted => cases hanswer
  | fetched content n => exact c.abides_fetched now n hof
  | cleared content n key => exact c.abides_cleared now n key hof
  | stored content n key blob => exact c.abides_stored now n key blob hof
  | settling content outcome =>
      rw [advance]
      rcases ContentOrigin.acknowledge w.origin id with ⟨answer, origin⟩
      cases answer with
      | error e =>
          refine abides_of_same rfl rfl rfl rfl trivial ?_
          cases outcome <;> rfl
      | ok u =>
          cases c.rules.deleteSource with
          | false =>
              refine abides_of_same rfl rfl rfl rfl trivial ?_
              cases outcome <;> rfl
          | true =>
              refine abides_of_same rfl rfl rfl rfl trivial ?_
              cases outcome <;> rfl
  | deleting content outcome =>
      refine abides_of_same rfl rfl rfl rfl trivial ?_
      cases outcome <;> rfl
  | ended outcome => exact abides_of_same rfl rfl rfl rfl trivial rfl

end

end Caretaker

/-! ## What is drawn does not show -/

/-- What came of an item, without the name of the blob, which was drawn. -/
def ItemOutcome.told : ItemOutcome → ItemOutcome
  | .archived receipt => .archived { receipt with contentRef := "" }
  | outcome => outcome

namespace Archiver

end Archiver

namespace Caretaker

variable {c c' : Caretaker}

end Caretaker

end ContentVault
