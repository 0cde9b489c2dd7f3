import ContentVault.Proofs.Entry.Shown
import ContentVault.Proofs.Text.Spelling
import ContentVault.Store.Records

/-! # What the table holds

    The row of an entry is kept as it is written (`stored_ofEntry`) and is read
    back as the entry that its texts show (`decode_ofEntry`).  Saving adds a row at the end exactly
    when there is none under the id yet (`save_cases`); the later changes touch
    one column of one row and are never refused for an entry that is there
    (`change_eq`). -/

namespace ContentVault

/-! ## Rows of entries -/

namespace Row

@[simp] theorem stored_ofOptionalText (o : Option String) :
    Cell.stored .text (.ofOptionalText o) = .ofOptionalText o := by
  cases o <;> rfl

@[simp] theorem asOptionalText_ofOptionalText (o : Option String) :
    (Cell.ofOptionalText o).asOptionalText = .ok o := by
  cases o <;> rfl

@[simp] theorem asFlag_ofFlag (b : Bool) : (Cell.ofFlag b).asFlag = .ok b := by
  cases b <;> rfl

/-- No column changes the kind of what an entry has for it. -/
@[simp] theorem stored_ofEntry (e : Entry) : (ofEntry e).stored = ofEntry e := by
  funext c
  cases c with
  | metadataNonce => exact stored_ofOptionalText _
  | notarizationTxId => exact stored_ofOptionalText _
  | cipher => exact stored_ofOptionalText _
  | nonce => exact stored_ofOptionalText _
  | _ => rfl

/-- The row of an entry is that of what its texts show. -/
@[simp] theorem ofEntry_shown (e : Entry) : ofEntry e.shown = ofEntry e := by
  funext c
  cases c with
  | archiveTimestamp => exact congrArg Cell.text e.record.archived.offsetText_shown
  | _ => rfl

theorem isComplete_ofEntry (e : Entry) : (ofEntry e).isComplete = true := by
  unfold isComplete
  rw [List.all_eq_true]
  intro c _
  cases c <;> rfl

end Row

/-- Whether the row of an entry can be read: its moment is in a plain year, and
    encrypted content has a nonce. -/
structure Entry.IsReadable (e : Entry) : Prop where
  plainYear : e.record.archived.HasPlainYear
  hasNonce : e.content.encrypted = true → e.content.nonce ≠ none

theorem Entry.IsReadable.shown {e : Entry} (h : e.IsReadable) : e.shown.IsReadable :=
  ⟨Timestamp.hasPlainYear_shown.mpr h.plainYear, h.hasNonce⟩

namespace Row

/-- What the row of an entry says, before anything is read out of its texts. -/
def rawOf (e : Entry) : Raw where
  id := e.record.id
  archived := e.record.archived.offsetText
  restored := e.record.restored
  metadata := e.record.metadata
  metadataNonce := e.record.metadataNonce.map Text.Base64.encode
  notarization := e.record.notarization
  contentRef := e.content.contentRef
  hashAlgorithm := e.content.hashAlgorithm
  hash := e.content.hash
  encrypted := e.content.encrypted
  keyVersion := e.content.keyVersion.toNat
  kdfAlgorithm := e.content.kdfAlgorithm
  cipher := e.content.cipher
  salt := Text.Base64.encode e.content.salt
  nonce := e.content.nonce.map Text.Base64.encode

theorem raw_ofEntry (e : Entry) : (ofEntry e).raw = .ok (rawOf e) := by
  simp only [raw, ofEntry, asOptionalText_ofOptionalText, asFlag_ofFlag, Cell.asText, Cell.asBlob,
    Cell.asInteger, bind, Except.bind, pure, Except.pure]
  rfl

namespace Raw

theorem bytes_encode (r : Raw) (name : String) (bs : Bytes) :
    r.bytes name (Text.Base64.encode bs) = .ok bs := by
  unfold bytes
  rw [Text.Base64.decode?_encode]

theorem optionalBytes_encode (r : Raw) (name : String) (o : Option Bytes) :
    r.optionalBytes name (o.map Text.Base64.encode) = .ok o := by
  cases o with
  | none => rfl
  | some bs =>
      show (r.bytes name (Text.Base64.encode bs)).map some = _
      rw [bytes_encode]
      rfl

theorem version_rawOf (e : Entry) : (rawOf e).version = .ok e.content.keyVersion := by
  have hlt : (e.content.keyVersion.toNat : Int) < UInt32.size :=
    Int.ofNat_lt.mpr e.content.keyVersion.toNat_lt
  have hraw : (rawOf e).keyVersion = (e.content.keyVersion.toNat : Int) := rfl
  unfold version
  rw [hraw, if_pos ⟨Int.natCast_nonneg _, hlt⟩, Int.toNat_natCast, UInt32.ofNat_toNat]

/-- Where the moment can be read, only a missing nonce is in the way of the entry. -/
theorem entry_rawOf_eq {e : Entry} (hyear : e.record.archived.HasPlainYear) :
    (rawOf e).entry = if e.content.encrypted && e.content.nonce.isNone then
        .error (.malformedMetadata e.record.id "encrypted content without a nonce")
      else .ok e.shown := by
  have htime : (rawOf e).time = .ok e.record.archived.shown := by
    unfold time
    rw [show (rawOf e).archived = e.record.archived.offsetText from rfl,
      Timestamp.readStrict?_offsetText hyear]
  have hmetadata : (rawOf e).optionalBytes "metadata_nonce" (rawOf e).metadataNonce
      = .ok e.record.metadataNonce := optionalBytes_encode _ _ _
  have hsalt : (rawOf e).bytes "salt" (rawOf e).salt = .ok e.content.salt := bytes_encode _ _ _
  have hnonce : (rawOf e).optionalBytes "nonce" (rawOf e).nonce = .ok e.content.nonce :=
    optionalBytes_encode _ _ _
  unfold entry
  rw [htime, Attempt.ok_bind, version_rawOf, Attempt.ok_bind, hmetadata, Attempt.ok_bind, hsalt,
    Attempt.ok_bind, hnonce, Attempt.ok_bind]
  rfl

/-- A readable entry is read from what its row says, as its texts show it. -/
theorem entry_rawOf {e : Entry} (h : e.IsReadable) : (rawOf e).entry = .ok e.shown := by
  have hsound : (e.content.encrypted && e.content.nonce.isNone) = false := by
    cases hencrypted : e.content.encrypted with
    | false => rfl
    | true =>
        cases hnone : e.content.nonce with
        | none => exact absurd hnone (h.hasNonce hencrypted)
        | some n => rfl
  rw [entry_rawOf_eq h.plainYear, hsound]
  rfl

end Raw

/-- The row of a readable entry is read back as its texts show it. -/
theorem decode_ofEntry {e : Entry} (h : e.IsReadable) : (ofEntry e).decode = .ok e.shown := by
  unfold decode
  rw [raw_ofEntry, Attempt.ok_bind, Raw.entry_rawOf h]

/-- Two rows are apart if they are not for the same id. -/
theorem isApart_ofEntry {r : Row} {e : Entry} (h : r.isFor e.record.id = false) :
    r.isApart (ofEntry e) = true := by
  unfold isApart
  unfold isFor at h
  show (_ || r .id != .text e.record.id) = true
  rw [bne, h]
  exact Bool.or_true _

@[simp] theorem isFor_ofEntry (id : String) (e : Entry) :
    (ofEntry e).isFor id = decide (e.record.id = id) := by
  show (Cell.text e.record.id == Cell.text id) = _
  by_cases hid : e.record.id = id
  · rw [hid, beq_self_eq_true, decide_eq_true rfl]
  · rw [decide_eq_false hid]
    exact beq_false_of_ne fun h => hid (Cell.text.inj h)

/-! ## Changes of a row -/

theorem set_of_ne {r : Row} {c d : Column} (cell : Cell) (h : d ≠ c) : r.set c cell d = r d :=
  if_neg h

theorem set_self (r : Row) (c : Column) (cell : Cell) :
    r.set c cell c = Cell.stored c.kind cell := if_pos rfl

/-- The row of an entry whose transaction id is set. -/
theorem set_notarization (e : Entry) (tx : String) :
    (ofEntry e).set .notarizationTxId (.text tx)
      = ofEntry { e with record := { e.record with notarization := some tx } } := by
  funext c
  cases c <;> rfl

/-- The row of an entry that is noted as restored. -/
theorem set_restored (e : Entry) :
    (ofEntry e).set .restored (.integer 1)
      = ofEntry { e with record := { e.record with restored := true } } := by
  funext c
  cases c <;> rfl

theorem isComplete_set {r : Row} {c : Column} {cell : Cell} (h : r.isComplete = true)
    (hcell : Cell.stored c.kind cell ≠ .null) : (r.set c cell).isComplete = true := by
  unfold isComplete at h ⊢
  rw [List.all_eq_true] at h ⊢
  intro d hd
  by_cases hdc : d = c
  · rw [hdc, set_self, bne_iff_ne.mpr hcell, Bool.or_true]
  · rw [set_of_ne cell hdc]
    exact h d hd

end Row

/-! ## The table -/

namespace Table

theorem find?_eq_none_iff {t : Table} {id : String} :
    t.find? id = none ↔ ∀ r ∈ t.rows, r.isFor id = false := by
  unfold find?
  rw [List.find?_eq_none]
  exact ⟨fun h r hr => Bool.eq_false_iff.mpr (h r hr), fun h r hr => Bool.eq_false_iff.mp (h r hr)⟩

/-- A row is the one that is found for its id. -/
theorem find?_of_isFor {t : Table} {r : Row} {id : String} (hr : r ∈ t.rows)
    (hfor : r.isFor id = true) : t.find? id = some r := by
  rw [find?]
  cases hfind : t.rows.find? (Row.isFor id) with
  | none => exact absurd hfor (List.find?_eq_none.mp hfind r hr)
  | some found =>
      obtain ⟨hfound, before, after, hsplit, hbefore⟩ := List.find?_eq_some_iff_append.mp hfind
      have hapart := t.lawful.2
      rw [hsplit] at hr hapart
      rcases List.mem_append.mp hr with hmem | hmem
      · have hnot := hbefore r hmem
        rw [hfor] at hnot
        cases hnot
      · rcases List.mem_cons.mp hmem with rfl | hmem
        · rfl
        · -- a row after it would be apart from it, and they are for the same id
          have hrow := List.rel_of_pairwise_cons (List.pairwise_append.mp hapart).2.1 hmem
          rw [Row.isFor, beq_iff_eq] at hfor hfound
          rw [Row.isApart, hfound, hfor, bne_self_eq_false, Bool.or_false] at hrow
          cases eq_of_beq hrow

/-- The row of an entry is the one for its id. -/
theorem find?_of_mem {t : Table} {e : Entry} (h : Row.ofEntry e ∈ t.rows) :
    t.find? e.record.id = some (Row.ofEntry e) := by
  refine find?_of_isFor h ?_
  rw [Row.isFor_ofEntry, decide_eq_true rfl]

theorem count_eq_zero_iff {t : Table} {id : String} : t.count id = 0 ↔ t.find? id = none := by
  unfold count
  rw [List.length_eq_zero_iff, List.filter_eq_nil_iff, find?_eq_none_iff]
  exact ⟨fun h r hr => Bool.eq_false_iff.mpr (h r hr), fun h r hr => Bool.eq_false_iff.mp (h r hr)⟩

/-- A row can be added for an id that there is none for. -/
theorem insert?_ofEntry {t : Table} {e : Entry} (h : t.find? e.record.id = none) :
    ∃ u, t.insert? (Row.ofEntry e) = some u ∧ u.rows = t.rows ++ [Row.ofEntry e] := by
  have hlawful : AreLawful (t.rows ++ [Row.ofEntry e]) := by
    -- the new row is complete, and none of the others is for its id
    refine ⟨fun r hr => ?_, List.pairwise_append.mpr ⟨t.lawful.2, List.pairwise_singleton _ _,
      fun r hr s hs => ?_⟩⟩
    · rcases List.mem_append.mp hr with hr | hr
      · exact t.lawful.1 r hr
      · rw [List.mem_singleton.mp hr]
        exact Row.isComplete_ofEntry e
    · rw [List.mem_singleton.mp hs]
      exact Row.isApart_ofEntry (find?_eq_none_iff.mp h r hr)
  unfold insert? ofRows?
  rw [Row.stored_ofEntry, dif_pos hlawful]
  exact ⟨_, rfl, rfl⟩

/-- No row can be added for an id that there is one for. -/
theorem insert?_eq_none {t : Table} {e : Entry} (h : t.find? e.record.id ≠ none) :
    t.insert? (Row.ofEntry e) = none := by
  obtain ⟨r, hr⟩ := Option.ne_none_iff_exists'.mp h
  have hmem := List.mem_of_find?_eq_some hr
  have hisFor : r.isFor e.record.id = true := List.find?_some hr
  have hfor : r .id = .text e.record.id := eq_of_beq hisFor
  unfold insert? ofRows?
  rw [Row.stored_ofEntry, dif_neg]
  rintro ⟨-, hapart⟩
  -- the row that is there and the new one would have to be apart
  have hclash := (List.pairwise_append.mp hapart).2.2 r hmem (Row.ofEntry e) List.mem_cons_self
  unfold Row.isApart at hclash
  rw [hfor] at hclash
  have hself : (Row.ofEntry e .id) = .text e.record.id := rfl
  rw [hself, bne_self_eq_false, Bool.or_false] at hclash
  cases eq_of_beq hclash

/-- A column other than the id can be set to anything that is not empty. -/
theorem update?_eq (t : Table) (id : String) {c : Column} {cell : Cell} (hc : c ≠ .id)
    (hcell : Cell.stored c.kind cell ≠ .null) :
    ∃ u, t.update? id c cell = some u ∧
      u.rows = t.rows.map fun r => if r.isFor id then r.set c cell else r := by
  -- no id changes, so rows that were apart stay so
  have hid : ∀ r : Row, (if r.isFor id then r.set c cell else r) .id = r .id := by
    intro r
    split
    · exact Row.set_of_ne cell hc.symm
    · rfl
  have hlawful : AreLawful (t.rows.map fun r => if r.isFor id then r.set c cell else r) := by
    refine ⟨fun r hr => ?_, List.pairwise_map.mpr (t.lawful.2.imp fun {r s} hapart => ?_)⟩
    · obtain ⟨r', hr', rfl⟩ := List.mem_map.mp hr
      have hcomplete := t.lawful.1 r' hr'
      split
      · exact Row.isComplete_set hcomplete hcell
      · exact hcomplete
    · unfold Row.isApart
      rw [hid r, hid s]
      exact hapart
  unfold update? ofRows?
  rw [dif_pos hlawful]
  exact ⟨_, rfl, rfl⟩

end Table

/-! ## The store -/

namespace RecordStore

theorem contains_eq_ok_false_iff {s : RecordStore} {id : String} :
    s.contains id = .ok false ↔ s.table.find? id = none := by
  unfold contains find
  cases hfind : s.table.find? id with
  | none => exact iff_of_true rfl rfl
  | some r =>
      refine iff_of_false ?_ (fun h => nomatch h)
      cases hr : r.decode with
      | error e =>
          intro h
          simp only [hr, Except.map] at h
          cases h
      | ok e =>
          intro h
          simp only [hr, Except.map] at h
          cases h

/-- All that saving an entry can come to. -/
theorem save_cases (s : RecordStore) (e : Entry) :
    (s.table.find? e.record.id = none ∧
      ∃ t, s.save e = .ok t ∧ t.table.rows = s.table.rows ++ [Row.ofEntry e]) ∨
    (s.table.find? e.record.id ≠ none ∧ s.save e = .error (.alreadyArchived e.record.id)) := by
  unfold save
  by_cases h : s.table.find? e.record.id = none
  · obtain ⟨t, hinsert, hrows⟩ := Table.insert?_ofEntry h
    rw [hinsert]
    exact Or.inl ⟨h, ⟨t⟩, rfl, hrows⟩
  · rw [Table.insert?_eq_none h]
    exact Or.inr ⟨h, rfl⟩

/-- A column of an entry that is there can be changed. -/
theorem change_eq {s : RecordStore} {id : String} {c : Column} {cell : Cell}
    (hfind : s.table.find? id ≠ none) (hc : c ≠ .id) (hcell : Cell.stored c.kind cell ≠ .null) :
    ∃ t, s.change id c cell = .ok t ∧
      t.table.rows = s.table.rows.map fun r => if r.isFor id then r.set c cell else r := by
  obtain ⟨t, hupdate, hrows⟩ := s.table.update?_eq id hc hcell
  unfold change
  rw [if_neg (fun h => hfind (Table.count_eq_zero_iff.mp h)), hupdate]
  exact ⟨⟨t⟩, rfl, hrows⟩

theorem noteRestored_eq {s : RecordStore} {id : String} (hfind : s.table.find? id ≠ none) :
    ∃ t, s.noteRestored id = .ok t ∧ t.table.rows
      = s.table.rows.map fun r => if r.isFor id then r.set .restored (.integer 1) else r :=
  change_eq hfind (fun h => nomatch h) (fun h => nomatch h)

theorem change_eq_error {s : RecordStore} {id : String} (c : Column) (cell : Cell)
    (hfind : s.table.find? id = none) : s.change id c cell = .error (.notFound id) := by
  unfold change
  rw [if_pos (Table.count_eq_zero_iff.mpr hfind)]

/-- A change that is made is one of a single cell. -/
theorem rows_of_change {s t : RecordStore} {id : String} {c : Column} {cell : Cell}
    (h : s.change id c cell = .ok t) (hc : c ≠ .id) (hcell : Cell.stored c.kind cell ≠ .null) :
    t.table.rows = s.table.rows.map fun r => if r.isFor id then r.set c cell else r := by
  by_cases hfind : s.table.find? id = none
  · rw [change_eq_error c cell hfind] at h
    cases h
  · obtain ⟨u, hchange, hrows⟩ := change_eq hfind hc hcell
    cases hchange.symm.trans h
    exact hrows

theorem asText_eq_ok_iff {c : Cell} {text : String} : c.asText = .ok text ↔ c = .text text := by
  cases c with
  | text s => exact ⟨fun h => congrArg Cell.text (Except.ok.inj h), fun h => by cases h; rfl⟩
  | _ => exact iff_of_false (fun h => nomatch h) (fun h => nomatch h)

theorem mem_texts {rows : List Row} {texts : List String} {c : Column}
    (h : (rows.mapM fun r : Row => (r c).asText) = .ok texts) {text : String} :
    text ∈ texts ↔ ∃ r ∈ rows, r c = .text text := by
  induction rows generalizing texts with
  | nil =>
      cases h
      exact iff_of_false List.not_mem_nil fun ⟨_, hr, _⟩ => nomatch hr
  | cons r rows ih =>
      rw [List.mapM_cons] at h
      cases hfirst : (r c).asText with
      | error e =>
          rw [hfirst, Attempt.error_bind] at h
          cases h
      | ok first =>
          cases hrest : rows.mapM fun r : Row => (r c).asText with
          | error e =>
              rw [hfirst, Attempt.ok_bind, hrest, Attempt.error_bind] at h
              cases h
          | ok rest =>
              rw [hfirst, Attempt.ok_bind, hrest, Attempt.ok_bind] at h
              cases h
              rw [List.mem_cons, ih hrest]
              have hcell := asText_eq_ok_iff.mp hfirst
              constructor
              · rintro (rfl | ⟨r', hr', htext⟩)
                · exact ⟨r, List.mem_cons_self, hcell⟩
                · exact ⟨r', List.mem_cons_of_mem _ hr', htext⟩
              · rintro ⟨r', hr', htext⟩
                rcases List.mem_cons.mp hr' with rfl | hr'
                · exact Or.inl (Cell.text.inj (htext.symm.trans hcell))
                · exact Or.inr ⟨r', hr', htext⟩

/-- The references that the table gives are those of its rows. -/
theorem mem_references {s : RecordStore} {known : List String} (h : s.references = .ok known)
    {ref : String} : ref ∈ known ↔ ∃ r ∈ s.table.rows, r .contentRefId = .text ref := by
  unfold references at h
  cases htexts : s.table.rows.mapM fun r : Row => (r .contentRefId).asText with
  | error e =>
      rw [htexts] at h
      cases h
  | ok texts =>
      rw [htexts] at h
      cases h
      rw [List.mem_eraseDups]
      exact mem_texts htexts

end RecordStore

end ContentVault
