import ContentVault.Proofs.Store.Records
import Mathlib.Data.Finmap

/-! # The record store as a map

    The table is a way to keep a finite map from ids to entries.  Asked for the
    same things in the same order, from the beginning on, the store and such a
    map give the same answers (`ActsAsMap.answers`), so whatever is true of a map
    is true of the store: an entry that was restored stays so, an update that is
    repeated does nothing, and updates of different ids or of different columns
    may change places.  What the store has of an entry is what its texts show, so
    an entry of a moment that no clock shows is kept as that of the moment that
    its text shows (`ActsAsMap.answers_shown`).

    What ties a table to a map is the list of entries that its rows spell
    (`Spells`).  The map gives an entry for an id exactly if the entry is in this
    list, and each call keeps it so (`Spells.handle`).

    Main statement: `store_acts_as_map`. -/

namespace ContentVault

/-! ## What is asked of a store -/

/-- A change of an entry that is there. -/
inductive EntryUpdate where
  /-- It is given a transaction id. -/
  | notarized (id tx : String)
  /-- It is noted as restored. -/
  | restored (id : String)
deriving DecidableEq, Repr

namespace EntryUpdate

/-- The id of the entry. -/
def id : EntryUpdate → String
  | notarized id _ => id
  | restored id => id

/-- The column that changes. -/
def column : EntryUpdate → Column
  | notarized _ _ => .notarizationTxId
  | restored _ => .restored

/-- What the column is changed to. -/
def cell : EntryUpdate → Cell
  | notarized _ tx => .text tx
  | restored _ => .integer 1

/-- The entry as it is afterwards. -/
def apply : EntryUpdate → Entry → Entry
  | notarized _ tx, e => { e with record := { e.record with notarization := some tx } }
  | restored _, e => { e with record := { e.record with restored := true } }

/-- Whether two updates are of different ids or of different columns. -/
def IsIndependentOf (u v : EntryUpdate) : Prop := u.id ≠ v.id ∨ u.column ≠ v.column

end EntryUpdate

/-- What a store of entries is asked. -/
inductive StoreCall where
  | save (entry : Entry)
  | find (id : String)
  | contains (id : String)
  | unnotarized
  | update (change : EntryUpdate)
  | references

/-- The call with what the texts of an entry show in its place. -/
def StoreCall.shown : StoreCall → StoreCall
  | save e => save e.shown
  | find id => find id
  | contains id => contains id
  | unnotarized => unnotarized
  | update u => update u
  | references => references

/-- What it answers; lists are given in no order. -/
inductive StoreAnswer where
  | done (result : Attempt Unit)
  | found (entry : Attempt (Option Entry))
  | isThere (answer : Attempt Bool)
  | listed (entries : Multiset Entry)
  | referenced (refs : Attempt (Finset String))

/-- The answer to a call that changes a store; a call that fails leaves it as it is. -/
def StoreAnswer.ofChange {σ : Type} (s : σ) : Attempt σ → StoreAnswer × σ
  | .ok t => (.done (.ok ()), t)
  | .error e => (.done (.error e), s)

/-- The answers to one call after the other. -/
def answersFrom {σ : Type} (handle : σ → StoreCall → StoreAnswer × σ) :
    σ → List StoreCall → List StoreAnswer
  | _, [] => []
  | s, c :: calls => (handle s c).1 :: answersFrom handle (handle s c).2 calls

/-- If a clock shows when entries were archived, nothing is shown in their place. -/
theorem StoreCall.map_shown {calls : List StoreCall}
    (h : ∀ e, .save e ∈ calls → e.record.archived.IsShown) : calls.map StoreCall.shown = calls := by
  refine (List.map_congr_left fun c hc => ?_).trans (List.map_id' calls)
  cases c with
  | save e => exact congrArg StoreCall.save (Entry.shown_of_isShown (h e hc))
  | _ => rfl

namespace RecordStore

/-- Makes a change. -/
def update (s : RecordStore) : EntryUpdate → Attempt RecordStore
  | .notarized id tx => s.setTransaction id tx
  | .restored id => s.noteRestored id

/-- Answers a call from the table. -/
def handle (s : RecordStore) : StoreCall → StoreAnswer × RecordStore
  | .save e => StoreAnswer.ofChange s (s.save e)
  | .find id => (.found (s.find id), s)
  | .contains id => (.isThere (s.contains id), s)
  | .unnotarized => (.listed s.unnotarized, s)
  | .update u => StoreAnswer.ofChange s (s.update u)
  | .references => (.referenced (s.references.map List.toFinset), s)

/-- The store after one call after the other. -/
def after (s : RecordStore) (calls : List StoreCall) : RecordStore :=
  calls.foldl (fun s c => (s.handle c).2) s

end RecordStore

/-! ## The map -/

/-- Entries by their ids. -/
abbrev EntryMap := Finmap fun _ : String => Entry

namespace EntryMap

/-- Adds an entry under its id, which must be a new one. -/
def save (m : EntryMap) (e : Entry) : Attempt EntryMap :=
  if e.record.id ∈ m then .error (.alreadyArchived e.record.id)
  else .ok (m.insert e.record.id e)

/-- Changes the entry under an id, which must be there. -/
def update (m : EntryMap) (u : EntryUpdate) : Attempt EntryMap :=
  match m.lookup u.id with
  | some e => .ok (m.insert u.id (u.apply e))
  | none => .error (.notFound u.id)

/-- The entries. -/
def values (m : EntryMap) : Multiset Entry := m.entries.map Sigma.snd

/-- Answers a call from the map. -/
def handle (m : EntryMap) : StoreCall → StoreAnswer × EntryMap
  | .save e => StoreAnswer.ofChange m (m.save e)
  | .find id => (.found (.ok (m.lookup id)), m)
  | .contains id => (.isThere (.ok (decide (id ∈ m))), m)
  | .unnotarized => (.listed (m.values.filter fun e => e.record.notarization = none), m)
  | .update u => StoreAnswer.ofChange m (m.update u)
  | .references => (.referenced (.ok (m.values.map fun e => e.content.contentRef).toFinset), m)

/-- The map after one call after the other. -/
def after (m : EntryMap) (calls : List StoreCall) : EntryMap :=
  calls.foldl (fun m c => (m.handle c).2) m

end EntryMap

/-! ## Updates -/

namespace EntryUpdate

@[simp] theorem id_apply (u : EntryUpdate) (e : Entry) : (u.apply e).record.id = e.record.id := by
  cases u <;> rfl

theorem isReadable_apply (u : EntryUpdate) {e : Entry} (h : e.IsReadable) :
    (u.apply e).IsReadable := by
  cases u with
  | notarized id tx => exact ⟨h.plainYear, h.hasNonce⟩
  | restored id => exact ⟨h.plainYear, h.hasNonce⟩

/-- No update changes the moment that an entry was archived. -/
theorem shown_apply (u : EntryUpdate) (e : Entry) : (u.apply e).shown = u.apply e.shown := by
  cases u <;> rfl

/-- No update takes back that an entry was restored. -/
theorem restored_apply (u : EntryUpdate) {e : Entry} (h : e.record.restored = true) :
    (u.apply e).record.restored = true := by
  cases u with
  | notarized id tx => exact h
  | restored id => rfl

/-- An update of an entry changes one column of its row. -/
theorem set_ofEntry (u : EntryUpdate) (e : Entry) :
    (Row.ofEntry e).set u.column u.cell = Row.ofEntry (u.apply e) := by
  cases u with
  | notarized id tx => exact Row.set_notarization e tx
  | restored id => exact Row.set_restored e

theorem column_ne_id (u : EntryUpdate) : u.column ≠ .id := by
  cases u <;> exact fun h => nomatch h

theorem stored_cell (u : EntryUpdate) : Cell.stored u.column.kind u.cell ≠ .null := by
  cases u <;> exact fun h => nomatch h

/-- What an update does to a row of the table. -/
def onRow (u : EntryUpdate) (r : Row) : Row := if r.isFor u.id then r.set u.column u.cell else r

theorem isFor_onRow (u : EntryUpdate) (id : String) (r : Row) :
    (u.onRow r).isFor id = r.isFor id := by
  rw [onRow]
  split
  · exact congrArg (· == Cell.text id) (Row.set_of_ne u.cell u.column_ne_id.symm)
  · rfl

/-- What an update does to an entry of the store. -/
def onEntry (u : EntryUpdate) (e : Entry) : Entry := if e.record.id = u.id then u.apply e else e

@[simp] theorem id_onEntry (u : EntryUpdate) (e : Entry) :
    (u.onEntry e).record.id = e.record.id := by
  rw [onEntry]
  split
  · exact u.id_apply e
  · rfl

/-- Rows change as the entries do that they spell. -/
theorem onRow_ofEntry (u : EntryUpdate) (e : Entry) :
    u.onRow (Row.ofEntry e) = Row.ofEntry (u.onEntry e) := by
  rw [onRow, onEntry, Row.isFor_ofEntry]
  by_cases hid : e.record.id = u.id
  · rw [if_pos (decide_eq_true hid), if_pos hid, u.set_ofEntry]
  · rw [if_neg (by rw [decide_eq_true_eq]; exact hid), if_neg hid]

/-- A row is not for two ids. -/
theorem eq_of_isFor {r : Row} {id other : String} (h : r.isFor id = true)
    (hother : r.isFor other = true) : id = other := by
  rw [Row.isFor, beq_iff_eq] at h hother
  exact Cell.text.inj (h.symm.trans hother)

theorem onRow_onRow (u : EntryUpdate) (r : Row) : u.onRow (u.onRow r) = u.onRow r := by
  rw [onRow, isFor_onRow]
  split
  · rename_i hfor
    rw [onRow, if_pos hfor]
    funext c
    rw [Row.set, Row.set]
    split
    · rfl
    · rfl
  · rfl

/-- On a row, independent updates may change places. -/
theorem onRow_comm {u v : EntryUpdate} (h : u.IsIndependentOf v) (r : Row) :
    u.onRow (v.onRow r) = v.onRow (u.onRow r) := by
  rw [onRow, isFor_onRow]
  by_cases hu : r.isFor u.id = true
  · rw [if_pos hu]
    by_cases hv : r.isFor v.id = true
    · -- both are for the row, so that they are of different columns
      have hcolumn : u.column ≠ v.column := h.resolve_left fun hid => hid (eq_of_isFor hu hv)
      rw [onRow, if_pos hv, onRow, isFor_onRow, if_pos hv, onRow, if_pos hu]
      funext c
      by_cases hc : c = u.column
      · rw [hc, Row.set_self, Row.set_of_ne _ hcolumn, Row.set_self]
      · by_cases hc' : c = v.column
        · rw [hc', Row.set_of_ne _ hcolumn.symm, Row.set_self, Row.set_self]
        · rw [Row.set_of_ne _ hc, Row.set_of_ne _ hc', Row.set_of_ne _ hc', Row.set_of_ne _ hc]
    · rw [onRow, if_neg hv, onRow, isFor_onRow, if_neg hv, onRow, if_pos hu]
  · have hrow : u.onRow r = r := by
      rw [onRow, if_neg hu]
    rw [if_neg hu, hrow]

end EntryUpdate

namespace RecordStore

/-- A store is its rows. -/
theorem ext_rows {s t : RecordStore} (h : s.table.rows = t.table.rows) : s = t := by
  obtain ⟨⟨rows, hlawful⟩⟩ := s
  obtain ⟨⟨rows', hlawful'⟩⟩ := t
  cases h
  rfl

/-- All that an update can come to. -/
theorem update_cases (s : RecordStore) (u : EntryUpdate) :
    (s.table.find? u.id = none ∧ s.update u = .error (.notFound u.id)) ∨
    (s.table.find? u.id ≠ none ∧
      ∃ t, s.update u = .ok t ∧ t.table.rows = s.table.rows.map u.onRow) := by
  have hchange : s.update u = s.change u.id u.column u.cell := by
    cases u <;> rfl
  by_cases hfind : s.table.find? u.id = none
  · exact Or.inl ⟨hfind, hchange.trans (change_eq_error _ _ hfind)⟩
  · obtain ⟨t, ht, hrows⟩ := change_eq hfind u.column_ne_id u.stored_cell
    exact Or.inr ⟨hfind, t, hchange.trans ht, hrows⟩

/-- An update adds no id and takes none away. -/
theorem find?_eq_none_of_rows {s t : RecordStore} {u : EntryUpdate}
    (hrows : t.table.rows = s.table.rows.map u.onRow) (id : String) :
    t.table.find? id = none ↔ s.table.find? id = none := by
  rw [Table.find?_eq_none_iff, Table.find?_eq_none_iff, hrows]
  simp only [List.mem_map, forall_exists_index, and_imp, forall_apply_eq_imp_iff₂,
    EntryUpdate.isFor_onRow]

/-- What a call to update does: to each row for itself, if there is one for the id. -/
theorem handle_update (s : RecordStore) (u : EntryUpdate) :
    (s.table.find? u.id = none ∧ s.handle (.update u) = (.done (.error (.notFound u.id)), s)) ∨
    (s.table.find? u.id ≠ none ∧ ∃ t, s.handle (.update u) = (.done (.ok ()), t) ∧
      t.table.rows = s.table.rows.map u.onRow) := by
  rcases s.update_cases u with ⟨hnone, herror⟩ | ⟨hsome, t, ht, hrows⟩
  · refine Or.inl ⟨hnone, ?_⟩
    rw [handle, herror]
    rfl
  · refine Or.inr ⟨hsome, t, ?_, hrows⟩
    rw [handle, ht]
    rfl

/-- An update that is repeated has the same answer and does nothing. -/
theorem handle_update_twice (s : RecordStore) (u : EntryUpdate) :
    (s.handle (.update u)).2.handle (.update u) = s.handle (.update u) := by
  rcases s.handle_update u with ⟨-, hs⟩ | ⟨hsome, t, hs, hrows⟩
  · rw [hs]
    exact hs
  · rw [hs]
    rcases t.handle_update u with ⟨hnone, -⟩ | ⟨-, t', ht, hrows'⟩
    · exact absurd ((find?_eq_none_of_rows hrows _).mp hnone) hsome
    · rw [ht]
      refine congrArg (Prod.mk _) (ext_rows ?_)
      rw [hrows', hrows, List.map_map]
      exact List.map_congr_left fun r _ => u.onRow_onRow r

/-- The answer to an update is the same after another one. -/
theorem answer_update_update (s : RecordStore) (u v : EntryUpdate) :
    ((s.handle (.update v)).2.handle (.update u)).1 = (s.handle (.update u)).1 := by
  rcases s.handle_update v with ⟨-, hv⟩ | ⟨-, t, hv, hrows⟩
  · rw [hv]
  · rw [hv]
    have hfind := find?_eq_none_of_rows hrows u.id
    rcases t.handle_update u with ⟨hnone, ht⟩ | ⟨hsome, t', ht, -⟩ <;>
      rcases s.handle_update u with ⟨hnone', hs⟩ | ⟨hsome', t'', hs, -⟩
    · rw [ht, hs]
    · exact absurd (hfind.mp hnone) hsome'
    · exact absurd (hfind.mpr hnone') hsome
    · rw [ht, hs]

/-- Independent updates may change places. -/
theorem handle_update_comm (s : RecordStore) {u v : EntryUpdate} (h : u.IsIndependentOf v) :
    ((s.handle (.update v)).2.handle (.update u)).2
      = ((s.handle (.update u)).2.handle (.update v)).2 := by
  rcases s.handle_update v with ⟨hnone, hv⟩ | ⟨hsome, t, hv, hrows⟩
  · rcases s.handle_update u with ⟨-, hu⟩ | ⟨-, t', hu, hrows'⟩
    · rw [hv, hu, hv]
    · -- the other one fails before as after
      rcases t'.handle_update v with ⟨-, hv'⟩ | ⟨hsome', -⟩
      · rw [hv, hu, hv']
      · exact absurd ((find?_eq_none_of_rows hrows' _).mpr hnone) hsome'
  · rcases s.handle_update u with ⟨hnone', hu⟩ | ⟨hsome', t', hu, hrows'⟩
    · rcases t.handle_update u with ⟨-, hu'⟩ | ⟨hsome'', -⟩
      · rw [hv, hu, hu', hv]
      · exact absurd ((find?_eq_none_of_rows hrows _).mpr hnone') hsome''
    · rcases t.handle_update u with ⟨hnone, -⟩ | ⟨-, t₁, ht₁, hrows₁⟩
      · exact absurd ((find?_eq_none_of_rows hrows _).mp hnone) hsome'
      · rcases t'.handle_update v with ⟨hnone, -⟩ | ⟨-, t₂, ht₂, hrows₂⟩
        · exact absurd ((find?_eq_none_of_rows hrows' _).mp hnone) hsome
        · rw [hv, hu, ht₁, ht₂]
          refine ext_rows ?_
          rw [hrows₁, hrows₂, hrows, hrows', List.map_map, List.map_map]
          exact List.map_congr_left fun r _ => EntryUpdate.onRow_comm h r

end RecordStore

/-! ## Rows that spell entries -/

namespace RecordStore

/-- Of entries that can be read, those without a transaction id are found missing. -/
theorem filterMap_missing? {es : List Entry} (h : ∀ e ∈ es, e.IsReadable) :
    (es.map Row.ofEntry).filterMap missing?
      = (es.filter fun e => e.record.notarization = none).map
          fun e => (e.record.archived.offsetText, e.shown) := by
  induction es with
  | nil => rfl
  | cons e es ih =>
      rw [List.map_cons, List.filterMap_cons, ih fun d hd => h d (List.mem_cons_of_mem e hd)]
      cases hnotarization : e.record.notarization with
      | some tx =>
          have hnone : missing? (Row.ofEntry e) = none := by
            rw [missing?, if_neg]
            rw [Row.ofEntry, hnotarization]
            exact Bool.false_ne_true
          rw [hnone, List.filter_cons_of_neg]
          rw [hnotarization]
          exact Bool.false_ne_true
      | none =>
          have hsome : missing? (Row.ofEntry e)
              = some (e.record.archived.offsetText, e.shown) := by
            have hread := h e List.mem_cons_self
            rw [missing?, if_pos]
            · rw [Row.raw_ofEntry]
              show (Except.toOption _).map _ = _
              rw [Row.Raw.entry_rawOf hread]
              rfl
            · rw [Row.ofEntry, hnotarization]
              rfl
          rw [hsome, List.filter_cons_of_pos]
          · rfl
          · rw [hnotarization]
            exact decide_eq_true rfl

theorem mapM_contentRef (es : List Entry) :
    ((es.map Row.ofEntry).mapM fun r : Row => (r .contentRefId).asText)
      = .ok (es.map fun e => e.content.contentRef) := by
  induction es with
  | nil => rfl
  | cons e es ih =>
      rw [List.map_cons, List.mapM_cons, ih]
      rfl

end RecordStore

/-- Whether a table is a way to keep a map: its rows spell entries just as their texts
    show them, and these are what the map gives for their ids. -/
structure Spells (s : RecordStore) (es : List Entry) (m : EntryMap) : Prop where
  rows : s.table.rows = es.map Row.ofEntry
  readable : ∀ e ∈ es, e.IsReadable
  shown : ∀ e ∈ es, e.shown = e
  apart : (es.map fun e => e.record.id).Nodup
  lookup : ∀ id e, m.lookup id = some e ↔ e ∈ es ∧ e.record.id = id

namespace Spells

variable {s : RecordStore} {es : List Entry} {m : EntryMap}

theorem empty : Spells .empty [] ∅ where
  rows := rfl
  readable := fun _ h => nomatch h
  shown := fun _ h => nomatch h
  apart := List.nodup_nil
  lookup := by
    intro id e
    rw [Finmap.lookup_empty]
    exact iff_of_false (fun h => nomatch h) (fun h => nomatch h.1)

/-- There is a row for an id exactly if the map has the id. -/
theorem find?_eq_none_iff (h : Spells s es m) (id : String) :
    s.table.find? id = none ↔ id ∉ m := by
  rw [Table.find?_eq_none_iff, h.rows, Finmap.mem_iff]
  constructor
  · rintro hrows ⟨e, he⟩
    obtain ⟨hmem, hid⟩ := (h.lookup id e).mp he
    have hfor := hrows _ (List.mem_map_of_mem hmem)
    rw [Row.isFor_ofEntry, decide_eq_false_iff_not] at hfor
    exact hfor hid
  · intro hnone r hr
    obtain ⟨e, he, rfl⟩ := List.mem_map.mp hr
    rw [Row.isFor_ofEntry, decide_eq_false_iff_not]
    exact fun hid => hnone ⟨e, (h.lookup id e).mpr ⟨he, hid⟩⟩

/-- What is found under an id is what the map gives. -/
theorem find_eq (h : Spells s es m) (id : String) : s.find id = .ok (m.lookup id) := by
  rw [RecordStore.find]
  cases hlookup : m.lookup id with
  | none =>
      rw [(h.find?_eq_none_iff id).mpr (Finmap.lookup_eq_none.mp hlookup)]
  | some e =>
      obtain ⟨hmem, rfl⟩ := (h.lookup id e).mp hlookup
      rw [Table.find?_of_mem (h.rows ▸ List.mem_map_of_mem hmem)]
      show (Row.ofEntry e).decode.map some = _
      rw [Row.decode_ofEntry (h.readable e hmem), h.shown e hmem]
      rfl

/-- The values of the map are the entries that are spelled. -/
theorem values_eq (h : Spells s es m) : m.values = es := by
  have hsigma : m.entries = (es.map fun e => (⟨e.record.id, e⟩ : Sigma fun _ : String => Entry) :
      Multiset (Sigma fun _ : String => Entry)) := by
    have hnodup : (es.map fun e => (⟨e.record.id, e⟩ : Sigma fun _ : String => Entry)).Nodup := by
      refine List.Nodup.of_map Sigma.fst ?_
      rw [List.map_map]
      exact h.apart
    refine (Multiset.Nodup.ext m.nodup_entries (Multiset.coe_nodup.mpr hnodup)).mpr ?_
    rintro ⟨id, e⟩
    rw [← Finmap.lookup_eq_some_iff, Multiset.mem_coe, List.mem_map]
    refine (h.lookup id e).trans ⟨?_, ?_⟩
    · rintro ⟨hmem, rfl⟩
      exact ⟨e, hmem, rfl⟩
    · rintro ⟨e', hmem, heq⟩
      cases heq
      exact ⟨hmem, rfl⟩
  rw [EntryMap.values, hsigma, Multiset.map_coe, List.map_map]
  exact congrArg _ (List.map_id' es)

theorem unnotarized_eq (h : Spells s es m) :
    (s.unnotarized : Multiset Entry) = m.values.filter fun e => e.record.notarization = none := by
  rw [h.values_eq, Multiset.filter_coe, RecordStore.unnotarized, h.rows,
    RecordStore.filterMap_missing? h.readable]
  have hperm := (List.mergeSort_perm ((es.filter fun e => e.record.notarization = none).map
    fun e => (e.record.archived.offsetText, e.shown)) RecordStore.comesBefore).map Prod.snd
  rw [List.map_map] at hperm
  refine Multiset.coe_eq_coe.mpr (hperm.trans (List.Perm.of_eq ?_))
  refine (List.map_congr_left fun e he => ?_).trans (List.map_id' _)
  exact h.shown e (List.mem_filter.mp he).1

theorem references_eq (h : Spells s es m) :
    s.references.map List.toFinset
      = .ok (m.values.map fun e => e.content.contentRef).toFinset := by
  rw [h.values_eq, RecordStore.references, h.rows, RecordStore.mapM_contentRef]
  refine congrArg Except.ok ?_
  ext ref
  rw [List.mem_toFinset, List.mem_eraseDups, Multiset.mem_toFinset, Multiset.map_coe,
    Multiset.mem_coe]

/-! ## One call -/

/-- A new entry is added to both. -/
theorem save (h : Spells s es m) {e : Entry} (he : e.IsReadable) (hshown : e.shown = e)
    {t : RecordStore} (hnew : e.record.id ∉ m) (hrows : t.table.rows = s.table.rows ++ [Row.ofEntry e]) :
    Spells t (es ++ [e]) (m.insert e.record.id e) where
  rows := by
    rw [hrows, h.rows, List.map_append]
    rfl
  readable := by
    intro d hd
    rcases List.mem_append.mp hd with hd | hd
    · exact h.readable d hd
    · rw [List.mem_singleton.mp hd]
      exact he
  shown := by
    intro d hd
    rcases List.mem_append.mp hd with hd | hd
    · exact h.shown d hd
    · rw [List.mem_singleton.mp hd]
      exact hshown
  apart := by
    rw [List.map_append, List.nodup_append]
    refine ⟨h.apart, List.nodup_singleton _, ?_⟩
    rintro id hid id' hid' rfl
    obtain ⟨d, hd, hdid⟩ := List.mem_map.mp hid
    rw [List.map_cons, List.map_nil, List.mem_singleton] at hid'
    exact hnew (hid' ▸ Finmap.mem_of_lookup_eq_some ((h.lookup id d).mpr ⟨hd, hdid⟩))
  lookup := by
    intro id d
    rw [List.mem_append, List.mem_singleton]
    by_cases hid : id = e.record.id
    · subst hid
      rw [Finmap.lookup_insert]
      constructor
      · intro heq
        cases heq
        exact ⟨Or.inr rfl, rfl⟩
      · rintro ⟨hd | rfl, hdid⟩
        · exact absurd (Finmap.mem_of_lookup_eq_some ((h.lookup _ d).mpr ⟨hd, hdid⟩)) hnew
        · rfl
    · rw [Finmap.lookup_insert_of_ne m hid, h.lookup id d]
      constructor
      · exact fun ⟨hd, hdid⟩ => ⟨Or.inl hd, hdid⟩
      · rintro ⟨hd | rfl, hdid⟩
        · exact ⟨hd, hdid⟩
        · exact absurd hdid.symm hid

/-- An entry that is there is changed in both. -/
theorem update (h : Spells s es m) {u : EntryUpdate} {e : Entry} {t : RecordStore}
    (hfound : m.lookup u.id = some e) (hrows : t.table.rows = s.table.rows.map u.onRow) :
    Spells t (es.map u.onEntry) (m.insert u.id (u.apply e)) where
  rows := by
    rw [hrows, h.rows, List.map_map, List.map_map]
    exact List.map_congr_left fun d _ => u.onRow_ofEntry d
  readable := by
    intro d hd
    obtain ⟨d', hd', rfl⟩ := List.mem_map.mp hd
    rw [EntryUpdate.onEntry]
    split
    · exact u.isReadable_apply (h.readable d' hd')
    · exact h.readable d' hd'
  shown := by
    intro d hd
    obtain ⟨d', hd', rfl⟩ := List.mem_map.mp hd
    rw [EntryUpdate.onEntry]
    split
    · rw [u.shown_apply, h.shown d' hd']
    · exact h.shown d' hd'
  apart := by
    rw [List.map_map]
    show (es.map fun d => (u.onEntry d).record.id).Nodup
    simp only [EntryUpdate.id_onEntry]
    exact h.apart
  lookup := by
    intro id d
    obtain ⟨hmem, hid⟩ := (h.lookup u.id e).mp hfound
    rw [List.mem_map]
    by_cases heq : id = u.id
    · subst heq
      rw [Finmap.lookup_insert]
      constructor
      · intro hd
        cases hd
        exact ⟨⟨e, hmem, if_pos hid⟩, (u.id_apply e).trans hid⟩
      · rintro ⟨⟨d', hd', rfl⟩, hdid⟩
        rw [EntryUpdate.id_onEntry] at hdid
        have hsame := ((h.lookup u.id d').mpr ⟨hd', hdid⟩).symm.trans hfound
        rw [EntryUpdate.onEntry, if_pos hdid, Option.some.inj hsame]
    · rw [Finmap.lookup_insert_of_ne m heq, h.lookup id d]
      constructor
      · rintro ⟨hd, rfl⟩
        exact ⟨⟨d, hd, if_neg heq⟩, rfl⟩
      · rintro ⟨⟨d', hd', rfl⟩, hdid⟩
        rw [EntryUpdate.id_onEntry] at hdid
        subst hdid
        rw [EntryUpdate.onEntry, if_neg heq]
        exact ⟨hd', rfl⟩

/-- A call is answered by both in the same way, if the map is given what the texts of
    an entry show. -/
theorem handle (h : Spells s es m) (c : StoreCall) (hc : ∀ e, c = .save e → e.IsReadable) :
    (s.handle c).1 = (m.handle c.shown).1 ∧
      ∃ es', Spells (s.handle c).2 es' (m.handle c.shown).2 := by
  cases c with
  | save e =>
      have hid : e.shown.record.id = e.record.id := rfl
      rw [RecordStore.handle, StoreCall.shown, EntryMap.handle, EntryMap.save, hid]
      rcases s.save_cases e with ⟨hnone, t, hsave, hrows⟩ | ⟨hsome, hsave⟩
      · have hnew := (h.find?_eq_none_iff _).mp hnone
        rw [hsave, if_neg hnew]
        rw [← Row.ofEntry_shown] at hrows
        exact ⟨rfl, _, h.save (hc e rfl).shown e.shown_shown hnew hrows⟩
      · have hthere := not_not.mp (mt (h.find?_eq_none_iff _).mpr hsome)
        rw [hsave, if_pos hthere]
        exact ⟨rfl, es, h⟩
  | find id =>
      refine ⟨?_, es, h⟩
      rw [RecordStore.handle, StoreCall.shown, EntryMap.handle, h.find_eq]
  | contains id =>
      refine ⟨?_, es, h⟩
      have hsome : (m.lookup id).isSome = decide (id ∈ m) := by
        rw [Bool.eq_iff_iff, decide_eq_true_iff]
        exact Finmap.lookup_isSome
      rw [RecordStore.handle, StoreCall.shown, EntryMap.handle, RecordStore.contains, h.find_eq,
        ← hsome]
      rfl
  | unnotarized =>
      refine ⟨?_, es, h⟩
      rw [RecordStore.handle, StoreCall.shown, EntryMap.handle, h.unnotarized_eq]
  | references =>
      refine ⟨?_, es, h⟩
      rw [RecordStore.handle, StoreCall.shown, EntryMap.handle, h.references_eq]
  | update u =>
      rw [RecordStore.handle, StoreCall.shown, EntryMap.handle, EntryMap.update]
      rcases s.update_cases u with ⟨hnone, hs⟩ | ⟨hsome, t, hs, hrows⟩
      · have hlookup := Finmap.lookup_eq_none.mpr ((h.find?_eq_none_iff _).mp hnone)
        rw [hs, hlookup]
        exact ⟨rfl, es, h⟩
      · have hthere := not_not.mp (mt (h.find?_eq_none_iff _).mpr hsome)
        obtain ⟨e, he⟩ := Finmap.mem_iff.mp hthere
        rw [hs, he]
        exact ⟨rfl, _, h.update he hrows⟩

/-- One call after the other is answered by both in the same way. -/
theorem run (h : Spells s es m) {calls : List StoreCall}
    (hcalls : ∀ e, .save e ∈ calls → e.IsReadable) :
    answersFrom RecordStore.handle s calls
        = answersFrom EntryMap.handle m (calls.map StoreCall.shown) ∧
    ∃ es', Spells (s.after calls) es' (m.after (calls.map StoreCall.shown)) := by
  induction calls generalizing s es m with
  | nil => exact ⟨rfl, es, h⟩
  | cons c calls ih =>
      obtain ⟨hanswer, es', h'⟩ := h.handle c fun e he => hcalls e (he ▸ List.mem_cons_self)
      obtain ⟨hanswers, hafter⟩ := ih h' fun e he => hcalls e (List.mem_cons_of_mem c he)
      refine ⟨?_, hafter⟩
      rw [List.map_cons, answersFrom, answersFrom, hanswer, hanswers]

end Spells

/-! ## What is true of a map -/

namespace EntryMap

/-- Whether a map has an entry under an id that was restored. -/
def HasRestored (m : EntryMap) (id : String) : Prop :=
  ∃ e, m.lookup id = some e ∧ e.record.restored = true

/-- No call takes back that an entry was restored. -/
theorem HasRestored.handle {m : EntryMap} {id : String} (h : m.HasRestored id) (c : StoreCall) :
    (m.handle c).2.HasRestored id := by
  obtain ⟨e, he, hrestored⟩ := h
  cases c with
  | save d =>
      rw [EntryMap.handle, EntryMap.save]
      split
      · exact ⟨e, he, hrestored⟩
      · -- the new id is another one
        rename_i hnew
        have hne : id ≠ d.record.id := fun hid => hnew (hid ▸ Finmap.mem_of_lookup_eq_some he)
        exact ⟨e, (Finmap.lookup_insert_of_ne m hne).trans he, hrestored⟩
  | update u =>
      rw [EntryMap.handle, EntryMap.update]
      cases hfound : m.lookup u.id with
      | none => exact ⟨e, he, hrestored⟩
      | some d =>
          by_cases hid : id = u.id
          · subst hid
            cases hfound.symm.trans he
            exact ⟨u.apply e, Finmap.lookup_insert m, u.restored_apply hrestored⟩
          · exact ⟨e, (Finmap.lookup_insert_of_ne m hid).trans he, hrestored⟩
  | _ => exact ⟨e, he, hrestored⟩

theorem HasRestored.after {m : EntryMap} {id : String} (h : m.HasRestored id)
    (calls : List StoreCall) : (m.after calls).HasRestored id := by
  induction calls generalizing m with
  | nil => exact h
  | cons c calls ih => exact ih (h.handle c)

end EntryMap

/-! ## The store and the map -/

theorem RecordStore.after_append (s : RecordStore) (calls more : List StoreCall) :
    s.after (calls ++ more) = (s.after calls).after more := List.foldl_append

/-- What the store makes of a sequence of calls. -/
structure ActsAsMap (calls : List StoreCall) : Prop where
  /-- The answers are those of a map, if a clock shows when the entries were archived. -/
  answers : (∀ e, .save e ∈ calls → e.record.archived.IsShown) →
    answersFrom RecordStore.handle .empty calls = answersFrom EntryMap.handle ∅ calls
  /-- Otherwise they are those of a map that is given what the texts show. -/
  answers_shown : answersFrom RecordStore.handle .empty calls
    = answersFrom EntryMap.handle ∅ (calls.map StoreCall.shown)
  /-- An entry that was restored stays so. -/
  restored : ∀ before rest id e, calls = before ++ rest →
    (RecordStore.empty.after before).find id = .ok (some e) → e.record.restored = true →
    ∃ e', (RecordStore.empty.after calls).find id = .ok (some e') ∧ e'.record.restored = true
  /-- An update that is repeated has the same answer and does nothing. -/
  repeats : ∀ u, ((RecordStore.empty.after calls).handle (.update u)).2.handle (.update u)
    = (RecordStore.empty.after calls).handle (.update u)
  /-- Updates of different ids or of different columns have the same answers and
  come to the same in either order. -/
  commute : ∀ u v, EntryUpdate.IsIndependentOf u v →
    (((RecordStore.empty.after calls).handle (.update v)).2.handle (.update u)).1
      = ((RecordStore.empty.after calls).handle (.update u)).1 ∧
    (((RecordStore.empty.after calls).handle (.update u)).2.handle (.update v)).1
      = ((RecordStore.empty.after calls).handle (.update v)).1 ∧
    (((RecordStore.empty.after calls).handle (.update u)).2.handle (.update v)).2
      = (((RecordStore.empty.after calls).handle (.update v)).2.handle (.update u)).2

/-- Asked from the beginning on, the store acts as a map. -/
theorem store_acts_as_map (calls : List StoreCall)
    (hcalls : ∀ e, .save e ∈ calls → e.IsReadable) : ActsAsMap calls := by
  have hanswers := (Spells.empty.run hcalls).1
  constructor
  case answers =>
    intro hshown
    rw [hanswers, StoreCall.map_shown hshown]
  case answers_shown => exact hanswers
  case restored =>
    rintro before rest id e rfl hfind hrestored
    have hfirst : ∀ e, .save e ∈ before → e.IsReadable :=
      fun e he => hcalls e (List.mem_append_left _ he)
    have hlast : ∀ e, .save e ∈ rest → e.IsReadable :=
      fun e he => hcalls e (List.mem_append_right _ he)
    obtain ⟨-, es, hbefore⟩ := Spells.empty.run hfirst
    obtain ⟨-, es', hafter⟩ := hbefore.run hlast
    rw [hbefore.find_eq] at hfind
    have hhas : (EntryMap.after ∅ (before.map StoreCall.shown)).HasRestored id :=
      ⟨e, Except.ok.inj hfind, hrestored⟩
    obtain ⟨e', he', hrestored'⟩ := hhas.after (rest.map StoreCall.shown)
    rw [RecordStore.after_append, hafter.find_eq, he']
    exact ⟨e', rfl, hrestored'⟩
  case repeats => exact fun u => RecordStore.handle_update_twice _ u
  case commute =>
    intro u v h
    exact ⟨RecordStore.answer_update_update _ u v, RecordStore.answer_update_update _ v u,
      (RecordStore.handle_update_comm _ h).symm⟩

namespace Sample

/-- An entry of encrypted content. -/
def sealedEntry : Entry where
  record := .new "report" (.midnight ⟨2024, 2, 29, by decide, by decide, by decide⟩) [104, 105] none
  content :=
    ⟨"c0ffee", "sha256", "9f86d0", true, 1, "hkdf-sha256", some "aes-256-gcm", [7], some [1, 2, 3]⟩

/-- The entry is saved, saved again and updated. -/
def calls : List StoreCall :=
  [.save sealedEntry, .save sealedEntry, .update (.restored "report"),
    .update (.notarized "draft" "tx"), .find "report"]

end Sample

/-- An entry is found as it was saved and updated. -/
theorem store_acts_as_map_of_sealed :
    (∀ e, .save e ∈ Sample.calls → e.IsReadable) ∧ ActsAsMap Sample.calls ∧
    answersFrom EntryMap.handle ∅ Sample.calls =
      [.done (.ok ()), .done (.error (.alreadyArchived "report")), .done (.ok ()),
        .done (.error (.notFound "draft")),
        .found (.ok (some ((EntryUpdate.restored "report").apply Sample.sealedEntry)))] := by
  have hcalls : ∀ e, .save e ∈ Sample.calls → e.IsReadable := by
    intro e he
    simp only [Sample.calls, List.mem_cons, StoreCall.save.injEq, reduceCtorEq, or_false, or_self,
      List.not_mem_nil] at he
    rw [he]
    exact ⟨by decide, fun _ => by decide⟩
  exact ⟨hcalls, store_acts_as_map Sample.calls hcalls, rfl⟩

namespace Sample

/-- The same entry, archived at a moment that no clock shows. -/
def unshownEntry : Entry :=
  { sealedEntry with record := { sealedEntry.record with archived := beforeNewYear 4 1333333333 } }

/-- It is saved and asked for. -/
def unshownCalls : List StoreCall := [.save unshownEntry, .find "report"]

end Sample

/-- An entry of a moment that no clock shows is not found as a map would have it. -/
theorem unshown_entry_found_as_another :
    (∀ e, .save e ∈ Sample.unshownCalls → e.IsReadable) ∧
    answersFrom RecordStore.handle .empty Sample.unshownCalls
      ≠ answersFrom EntryMap.handle ∅ Sample.unshownCalls := by
  have hcalls : ∀ e, .save e ∈ Sample.unshownCalls → e.IsReadable := by
    intro e he
    simp only [Sample.unshownCalls, List.mem_cons, StoreCall.save.injEq, reduceCtorEq, or_false,
      List.not_mem_nil] at he
    rw [he]
    exact ⟨by decide, fun _ => by decide⟩
  refine ⟨hcalls, fun hsame => ?_⟩
  rw [(Spells.empty.run hcalls).1] at hsame
  have hfound : (Except.ok (some Sample.unshownEntry.shown) : Attempt (Option Entry))
      = .ok (some Sample.unshownEntry) :=
    StoreAnswer.found.inj (List.head_eq_of_cons_eq (List.tail_eq_of_cons_eq hsame))
  exact absurd (Except.ok.inj hfound) (by decide)

end ContentVault
