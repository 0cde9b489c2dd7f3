import ContentVault.Proofs.Store.Mapping

/-! # Transaction ids in the table

    What the table has in its column of transaction ids is asked and changed by
    the id of an entry.  New entries have nothing there and to note that an entry
    was restored leaves it alone, so that all that these do is to add entries that
    await one (`GrowsTo`).  Each entry that is listed as unnotarized awaits one and
    is listed once (`awaits_of_mem_unnotarized`, `nodup_unnotarized`). -/

namespace ContentVault

namespace RecordStore

/-- What the column of transaction ids has for an id, if there is a row for it. -/
def transaction? (s : RecordStore) (id : String) : Option Cell :=
  (s.table.find? id).map fun r => r .notarizationTxId

/-- Whether there is an entry under an id, and it has no transaction id. -/
def Awaits (s : RecordStore) (id : String) : Prop := s.transaction? id = some .null

/-- Whether there is an entry under an id, and it has a transaction id. -/
def IsNotarized (s : RecordStore) (id : String) : Prop :=
  ∃ cell, s.transaction? id = some cell ∧ cell ≠ .null

/-- Whether a store becomes another one with nothing but more entries that await a
    transaction id. -/
def GrowsTo (s t : RecordStore) : Prop :=
  ∀ id, t.transaction? id = s.transaction? id ∨ (s.transaction? id = none ∧ t.Awaits id)

variable {s t : RecordStore} {id : String}

theorem IsNotarized.not_awaits (h : s.IsNotarized id) : ¬ s.Awaits id := by
  obtain ⟨cell, hcell, hnull⟩ := h
  intro hawaits
  exact hnull (Option.some.inj (hcell.symm.trans hawaits))

theorem GrowsTo.refl (s : RecordStore) : s.GrowsTo s := fun _ => Or.inl rfl

theorem GrowsTo.awaits (h : s.GrowsTo t) (hawaits : s.Awaits id) : t.Awaits id := by
  rcases h id with heq | ⟨hnone, -⟩
  · exact heq.trans hawaits
  · cases hnone.symm.trans hawaits

theorem GrowsTo.transaction?_eq (h : s.GrowsTo t) (hset : s.IsNotarized id) :
    t.transaction? id = s.transaction? id := by
  rcases h id with heq | ⟨hnone, -⟩
  · exact heq
  · obtain ⟨cell, hcell, -⟩ := hset
    cases hnone.symm.trans hcell

/-! ## New entries -/

theorem grows_of_save {e : Entry} (he : e.record.notarization = none) (h : s.save e = .ok t) :
    s.GrowsTo t := by
  intro id
  rcases s.save_cases e with ⟨hnew, t', hsave, hrows⟩ | ⟨-, hsave⟩
  · cases hsave.symm.trans h
    have hfind : t.table.find? id
        = (s.table.find? id).or ([Row.ofEntry e].find? (Row.isFor id)) := by
      rw [Table.find?, hrows, List.find?_append]
      rfl
    by_cases hid : e.record.id = id
    · subst hid
      have hrow : [Row.ofEntry e].find? (Row.isFor e.record.id) = some (Row.ofEntry e) := by
        rw [List.find?_cons_of_pos]
        rw [Row.isFor_ofEntry]
        exact decide_eq_true rfl
      refine Or.inr ⟨?_, ?_⟩
      · rw [transaction?, hnew]
        rfl
      · rw [Awaits, transaction?, hfind, hnew, hrow, Option.none_or, Option.map_some,
          Row.ofEntry, he]
        rfl
    · have hrow : [Row.ofEntry e].find? (Row.isFor id) = none := by
        rw [List.find?_cons_of_neg, List.find?_nil]
        rw [Row.isFor_ofEntry, decide_eq_true_eq]
        exact hid
      refine Or.inl ?_
      rw [transaction?, hfind, hrow, Option.or_none]
      rfl
  · cases hsave.symm.trans h

/-! ## Updates -/

/-- What is found after an update. -/
theorem find?_of_onRow {u : EntryUpdate} (hrows : t.table.rows = s.table.rows.map u.onRow)
    (id : String) : t.table.find? id = (s.table.find? id).map u.onRow := by
  have hsame : Row.isFor id ∘ u.onRow = Row.isFor id := funext fun r => u.isFor_onRow id r
  rw [Table.find?, hrows, List.find?_map, hsame]
  rfl

/-- An update of another column leaves the transaction ids alone. -/
theorem grows_of_noteRestored (h : s.noteRestored id = .ok t) : s.GrowsTo t := by
  intro other
  have hrows : t.table.rows = s.table.rows.map (EntryUpdate.restored id).onRow :=
    rows_of_change h (EntryUpdate.column_ne_id (.restored id))
      (EntryUpdate.stored_cell (.restored id))
  have hcell : ∀ r : Row, (EntryUpdate.restored id).onRow r .notarizationTxId
      = r .notarizationTxId := by
    intro r
    rw [EntryUpdate.onRow]
    split
    · exact Row.set_of_ne _ (show Column.notarizationTxId ≠ .restored by decide)
    · rfl
  refine Or.inl ?_
  rw [transaction?, find?_of_onRow hrows, Option.map_map]
  exact congrArg (Option.map · (s.table.find? other)) (funext hcell)

/-- The transaction id of an entry that is there can be set, and no other changes. -/
theorem setTransaction_of_awaits (h : s.Awaits id) (tx : String) :
    ∃ t, s.setTransaction id tx = .ok t ∧ t.transaction? id = some (.text tx) ∧
      ∀ other, other ≠ id → t.transaction? other = s.transaction? other := by
  obtain ⟨r, hr, -⟩ := Option.map_eq_some_iff.mp h
  rcases s.update_cases (.notarized id tx) with ⟨hnone, -⟩ | ⟨-, t, ht, hrows⟩
  · cases hnone.symm.trans hr
  · refine ⟨t, ht, ?_, fun other hother => ?_⟩
    · have hfor : r.isFor (EntryUpdate.notarized id tx).id = true := List.find?_some hr
      rw [transaction?, find?_of_onRow hrows, hr, Option.map_some, Option.map_some,
        EntryUpdate.onRow, if_pos hfor]
      rfl
    · rw [transaction?, find?_of_onRow hrows, transaction?]
      cases hfind : s.table.find? other with
      | none => rfl
      | some row =>
          have hfor : row.isFor other = true := List.find?_some hfind
          have hnot : ¬ row.isFor (EntryUpdate.notarized id tx).id = true := fun hid =>
            hother (EntryUpdate.eq_of_isFor hfor hid)
          rw [Option.map_some, EntryUpdate.onRow, if_neg hnot]

/-! ## What is listed as unnotarized -/

/-- The row of an entry that is listed as unnotarized is one for its id, without a
    transaction id. -/
theorem of_missing? {r : Row} {d : Dated} (h : missing? r = some d) :
    r.isFor d.2.record.id = true ∧ r .notarizationTxId = .null := by
  rw [missing?] at h
  split at h
  · rename_i hnull
    split at h
    · rename_i raw hraw
      obtain ⟨e, hentry, rfl⟩ := Option.map_eq_some_iff.mp h
      refine ⟨?_, eq_of_beq hnull⟩
      have hid : (r .id).asText = .ok raw.id := by
        rw [Row.raw, Attempt.bind_eq_ok] at hraw
        obtain ⟨text, htext, hraw⟩ := hraw
        simp only [Attempt.bind_eq_ok] at hraw
        obtain ⟨_, -, _, -, _, -, _, -, _, -, _, -, _, -, _, -, _, -, _, -, _, -, _, -, _, -, _, -,
          heq⟩ := hraw
        cases heq
        exact htext
      have he : e.record.id = raw.id := by
        cases hdone : raw.entry with
        | error f =>
            rw [hdone] at hentry
            cases hentry
        | ok e' =>
            rw [hdone] at hentry
            cases hentry
            simp only [Row.Raw.entry, Attempt.bind_eq_ok] at hdone
            obtain ⟨_, -, _, -, _, -, _, -, _, -, hrow⟩ := hdone
            split at hrow
            · cases hrow
            · cases hrow
              rfl
      rw [Row.isFor, asText_eq_ok_iff.mp hid, he]
      exact beq_self_eq_true _
    · cases h
  · cases h

/-- The ids of the entries that are listed, before they are brought into order. -/
theorem perm_unnotarized (s : RecordStore) :
    (s.unnotarized.map fun e => e.record.id).Perm
      ((s.table.rows.filterMap missing?).map fun d => d.2.record.id) := by
  rw [unnotarized, List.map_map]
  exact (List.mergeSort_perm _ _).map _

theorem awaits_of_mem_unnotarized {e : Entry} (h : e ∈ s.unnotarized) : s.Awaits e.record.id := by
  have hmem := s.perm_unnotarized.subset (List.mem_map_of_mem h)
  obtain ⟨d, hd, hid⟩ := List.mem_map.mp hmem
  obtain ⟨r, hr, hmissing⟩ := List.mem_filterMap.mp hd
  obtain ⟨hfor, hnull⟩ := of_missing? hmissing
  rw [Awaits, transaction?, Table.find?_of_isFor hr (hid ▸ hfor), Option.map_some, hnull]

/-- No entry is listed twice. -/
theorem nodup_unnotarized (s : RecordStore) : (s.unnotarized.map fun e => e.record.id).Nodup := by
  refine s.perm_unnotarized.nodup_iff.mpr ?_
  refine List.pairwise_map.mpr (List.pairwise_filterMap.mpr (s.table.lawful.2.imp ?_))
  intro r r' hapart d hd d' hd' heq
  -- two rows for the same id are not apart
  obtain ⟨hfor, -⟩ := of_missing? hd
  obtain ⟨hfor', -⟩ := of_missing? hd'
  rw [Row.isFor, beq_iff_eq] at hfor hfor'
  rw [Row.isApart, hfor, hfor', heq, bne_self_eq_false, Bool.or_false] at hapart
  cases eq_of_beq hapart

end RecordStore

end ContentVault
