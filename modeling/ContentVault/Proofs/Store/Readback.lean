import ContentVault.Proofs.Store.Mapping

/-! # Rows that can be read back

    Every entry is saved under a new id, but not every one can be read from its
    row.  A moment in a year that takes more than four digits, or a sign, has a
    text that the reader of moments refuses, and encrypted content without a nonce
    is refused by the reader of rows.  All else comes back as the texts show it, so
    an entry is found exactly if it is readable (`decode_ofEntry_iff`), and in
    every field as it was unless no clock shows its moment.  The row of any
    other is reported as malformed under its id and left out of the list of what
    is to be notarized, which keeps the rest; its reference is known all the same,
    so that nobody takes its blob for an orphan.

    Main statement: `saved_entry_read_back`. -/

namespace ContentVault

/-! ## Moments that are not read -/

namespace Timestamp

theorem number?_of_not_digit {c : Char} (hc : c.isDigit = false) {least : Nat} (hleast : 0 < least)
    (most : Nat) (rest : List Char) : number? least most (c :: rest) = none := by
  have htake : takeDigits most (c :: rest) = ([], c :: rest) := by
    cases most with
    | zero => rfl
    | succ most =>
        rw [takeDigits, hc]
        rfl
  rw [number?, htake]
  exact if_pos hleast

/-- A year that is written with a sign is not read. -/
theorem readStrict?_offsetText_eq_none {t : Timestamp} (h : ¬ t.HasPlainYear) :
    readStrict? t.offsetText = none := by
  obtain ⟨sign, rest, htext, hsign⟩ : ∃ sign rest, t.offsetText.toList = sign :: rest ∧
      sign.isDigit = false := by
    rw [offsetText, String.toList_ofList, localText, yearText,
      if_neg (show ¬ (0 ≤ t.date.year ∧ t.date.year ≤ 9999) from h)]
    split
    · exact ⟨'+', _, rfl, rfl⟩
    · exact ⟨'-', _, rfl, rfl⟩
  rw [readStrict?, htext, number?_of_not_digit hsign (by decide)]
  rfl

end Timestamp

/-! ## Rows that are not read -/

instance (e : Entry) : Decidable e.IsReadable :=
  decidable_of_iff
    (e.record.archived.HasPlainYear ∧ (e.content.encrypted = true → e.content.nonce ≠ none))
    ⟨fun h => ⟨h.1, h.2⟩, fun h => ⟨h.1, h.2⟩⟩

/-- What is wrong with an entry whose row cannot be read. -/
def Entry.flaw (e : Entry) : String :=
  if e.record.archived.HasPlainYear then "encrypted content without a nonce"
  else "bad archive_timestamp: no date and time"

namespace Row

/-- An entry that is not readable is found malformed. -/
theorem Raw.entry_rawOf_eq_error {e : Entry} (h : ¬ e.IsReadable) :
    (rawOf e).entry = .error (.malformedMetadata e.record.id e.flaw) := by
  by_cases hyear : e.record.archived.HasPlainYear
  · have hmissing : (e.content.encrypted && e.content.nonce.isNone) = true := by
      rw [Bool.and_eq_true, Option.isNone_iff_eq_none]
      by_contra hnot
      exact h ⟨hyear, fun hencrypted hnone => hnot ⟨hencrypted, hnone⟩⟩
    rw [entry_rawOf_eq hyear, if_pos hmissing, Entry.flaw, if_pos hyear]
  · have htime : (rawOf e).time = .error (.malformedMetadata e.record.id e.flaw) := by
      rw [time, show (rawOf e).archived = e.record.archived.offsetText from rfl,
        Timestamp.readStrict?_offsetText_eq_none hyear, Entry.flaw, if_neg hyear]
      rfl
    rw [entry, htime, Attempt.error_bind]

theorem decode_ofEntry_eq_error {e : Entry} (h : ¬ e.IsReadable) :
    (ofEntry e).decode = .error (.malformedMetadata e.record.id e.flaw) := by
  rw [decode, raw_ofEntry, Attempt.ok_bind, Raw.entry_rawOf_eq_error h]

/-- Readable entries, and no others, are read from their rows. -/
theorem decode_ofEntry_iff {e : Entry} : (ofEntry e).decode = .ok e.shown ↔ e.IsReadable := by
  refine ⟨fun h => ?_, decode_ofEntry⟩
  by_contra hnot
  rw [decode_ofEntry_eq_error hnot] at h
  cases h

end Row

/-! ## The store after an entry was saved -/

namespace RecordStore

/-- What is missing a transaction id is listed with the text of its moment. -/
theorem missing?_eq_some {r : Row} {e : Entry} (hnull : r .notarizationTxId = .null)
    (hdecode : r.decode = .ok e) : ∃ text, missing? r = some (text, e) := by
  rw [Row.decode] at hdecode
  rw [missing?, hnull, if_pos (beq_self_eq_true _)]
  cases hraw : r.raw with
  | error f =>
      rw [hraw, Attempt.error_bind] at hdecode
      cases hdecode
  | ok raw =>
      rw [hraw, Attempt.ok_bind] at hdecode
      exact ⟨raw.archived, by simp only [hdecode, Except.toOption, Option.map_some]⟩

/-- Of an entry's row, the list has the entry if it is readable and has no
    transaction id. -/
theorem missing?_ofEntry (e : Entry) :
    (missing? (Row.ofEntry e)).map Prod.snd
      = if e.IsReadable ∧ e.record.notarization = none then some e.shown else none := by
  by_cases hnotarization : e.record.notarization = none
  · have hnull : Row.ofEntry e .notarizationTxId = .null := by
      rw [Row.ofEntry, hnotarization]
      rfl
    by_cases hread : e.IsReadable
    · obtain ⟨text, hsome⟩ := missing?_eq_some hnull (Row.decode_ofEntry hread)
      rw [hsome, if_pos ⟨hread, hnotarization⟩]
      rfl
    · rw [missing?, hnull, if_pos (beq_self_eq_true _), Row.raw_ofEntry, if_neg (fun h => hread h.1)]
      simp only [Row.Raw.entry_rawOf_eq_error hread, Except.toOption, Option.map_none]
  · obtain ⟨tx, htx⟩ := Option.ne_none_iff_exists'.mp hnotarization
    have hfull : (Row.ofEntry e .notarizationTxId == .null) = false := by
      rw [Row.ofEntry, htx]
      rfl
    rw [missing?, hfull, if_neg Bool.false_ne_true, if_neg fun h => hnotarization h.2]
    rfl

/-- The list has what is found row by row, in another order. -/
theorem unnotarized_perm (s : RecordStore) :
    s.unnotarized.Perm (s.table.rows.filterMap fun r => (missing? r).map Prod.snd) := by
  rw [unnotarized, ← List.map_filterMap]
  exact (List.mergeSort_perm _ _).map Prod.snd

/-- A row that can be read and has no transaction id is listed. -/
theorem mem_unnotarized {s : RecordStore} {r : Row} {e : Entry} (hr : r ∈ s.table.rows)
    (hnull : r .notarizationTxId = .null) (hdecode : r.decode = .ok e) : e ∈ s.unnotarized := by
  obtain ⟨text, hmissing⟩ := missing?_eq_some hnull hdecode
  refine s.unnotarized_perm.mem_iff.mpr (List.mem_filterMap.mpr ⟨r, hr, ?_⟩)
  rw [hmissing]
  rfl

section

variable {s t : RecordStore} {e : Entry} (hrows : t.table.rows = s.table.rows ++ [Row.ofEntry e])
include hrows

/-- What is under other ids stays when an entry is added. -/
theorem find_append_of_ne {id : String} (hid : id ≠ e.record.id) : t.find id = s.find id := by
  have hfor : (Row.ofEntry e).isFor id = false := by
    rw [Row.isFor_ofEntry]
    exact decide_eq_false (Ne.symm hid)
  have hsame : t.table.find? id = s.table.find? id := by
    rw [Table.find?, Table.find?, hrows, List.find?_append, List.find?_cons, hfor]
    exact Option.or_none
  rw [find, find, hsame]

/-- The list with one more entry. -/
theorem unnotarized_append :
    (t.unnotarized : Multiset Entry)
      = s.unnotarized + if e.IsReadable ∧ e.record.notarization = none then {e.shown} else 0 := by
  have hlisted := t.unnotarized_perm
  rw [hrows, List.filterMap_append, List.filterMap_cons, missing?_ofEntry] at hlisted
  rw [Multiset.coe_eq_coe.mpr hlisted, ← Multiset.coe_add,
    Multiset.coe_eq_coe.mpr s.unnotarized_perm]
  refine congrArg (_ + ·) ?_
  split_ifs <;> rfl

/-- The references with that of one more entry. -/
theorem references_append :
    t.references.map List.toFinset
      = s.references.map fun refs => insert e.content.contentRef refs.toFinset := by
  have hlast : ([Row.ofEntry e].mapM fun r : Row => (r .contentRefId).asText)
      = .ok [e.content.contentRef] := mapM_contentRef [e]
  rw [references, references, hrows, List.mapM_append, hlast]
  cases s.table.rows.mapM fun r : Row => (r .contentRefId).asText with
  | error f => rfl
  | ok refs =>
      refine congrArg Except.ok ?_
      ext ref
      rw [List.mem_toFinset, List.mem_eraseDups, Finset.mem_insert, List.mem_toFinset,
        List.mem_eraseDups, List.mem_append, List.mem_singleton, or_comm]

end

/-- The references of entries are known. -/
theorem references_of_entries {s : RecordStore} {es : List Entry}
    (hrows : s.table.rows = es.map Row.ofEntry) :
    s.references = .ok (es.map fun e => e.content.contentRef).eraseDups := by
  rw [references, hrows, mapM_contentRef]
  rfl

/-- A store that was written by calls has the rows of entries. -/
theorem exists_entries (calls : List StoreCall) :
    ∃ es : List Entry, (RecordStore.empty.after calls).table.rows = es.map Row.ofEntry := by
  induction calls using List.reverseRecOn with
  | nil => exact ⟨[], rfl⟩
  | append_singleton calls c ih =>
      obtain ⟨es, hrows⟩ := ih
      rw [after_append]
      show ∃ es : List Entry, (handle _ c).2.table.rows = es.map Row.ofEntry
      cases c with
      | save e =>
          rw [handle]
          rcases save_cases _ e with ⟨-, t, hsave, hnew⟩ | ⟨-, hsave⟩
          · rw [hsave]
            exact ⟨es ++ [e], hnew.trans (by rw [hrows, List.map_append]; rfl)⟩
          · rw [hsave]
            exact ⟨es, hrows⟩
      | update u =>
          rcases handle_update (RecordStore.empty.after calls) u with ⟨-, hsame⟩ | ⟨-, t, hdone, hnew⟩
          · rw [hsame]
            exact ⟨es, hrows⟩
          · rw [hdone]
            refine ⟨es.map u.onEntry, hnew.trans ?_⟩
            rw [hrows, List.map_map, List.map_map]
            exact List.map_congr_left fun e _ => u.onRow_ofEntry e
      | _ => exact ⟨es, hrows⟩

end RecordStore

/-! ## What is kept of an entry -/

/-- What the store answers once an entry was saved under a new id. -/
structure KeepsEntry (s : RecordStore) (e : Entry) (t : RecordStore) : Prop where
  saved : s.save e = .ok t
  /-- If a clock shows when it was archived, second 60 included, the entry is found, in
  every field as it was, exactly if it is readable. -/
  found : e.record.archived.IsShown →
    (t.find e.record.id = .ok (some e) ↔ e.IsReadable)
  /-- Whether or not a clock does, it is found as its texts show it. -/
  found_shown : t.find e.record.id = .ok (some e.shown) ↔ e.IsReadable
  contained : t.contains e.record.id = .ok true ↔ e.IsReadable
  /-- A row that cannot be read is reported under its id. -/
  malformed : ¬ e.IsReadable →
    t.find e.record.id = .error (.malformedMetadata e.record.id e.flaw) ∧
    t.contains e.record.id = .error (.malformedMetadata e.record.id e.flaw)
  /-- What is under other ids stays. -/
  elsewhere : ∀ id, id ≠ e.record.id → t.find id = s.find id
  /-- The list has the entry as its texts show it if it is readable and has no
  transaction id, and what was listed before. -/
  listed : (t.unnotarized : Multiset Entry)
    = s.unnotarized + if e.IsReadable ∧ e.record.notarization = none then {e.shown} else 0
  /-- Every row that can be read and has no transaction id is listed. -/
  complete : ∀ r ∈ t.table.rows, r .notarizationTxId = .null → ∀ d, r.decode = .ok d →
    d ∈ t.unnotarized
  /-- The reference of the entry is known beside those that were. -/
  referenced : t.references.map List.toFinset
    = s.references.map fun refs => insert e.content.contentRef refs.toFinset
  /-- In a store that was written by calls, the references are always known. -/
  known : ∀ calls, s = RecordStore.empty.after calls →
    ∃ refs, t.references = .ok refs ∧ e.content.contentRef ∈ refs

/-- An entry that is saved under a new id is read back as its texts show it exactly if it
    is readable, and its reference is known whether or not it is. -/
theorem saved_entry_read_back (s : RecordStore) (e : Entry)
    (hnew : s.contains e.record.id = .ok false) : ∃ t, KeepsEntry s e t := by
  have hnone := RecordStore.contains_eq_ok_false_iff.mp hnew
  obtain ⟨-, t, hsave, hrows⟩ | ⟨hthere, -⟩ := s.save_cases e
  case inr => exact absurd hnone hthere
  have hmem : Row.ofEntry e ∈ t.table.rows := hrows ▸ List.mem_append_right _ List.mem_cons_self
  have hfind : t.find e.record.id = (Row.ofEntry e).decode.map some := by
    rw [RecordStore.find, Table.find?_of_mem hmem]
  have hmalformed : ¬ e.IsReadable →
      t.find e.record.id = .error (.malformedMetadata e.record.id e.flaw) := by
    intro hnot
    rw [hfind, Row.decode_ofEntry_eq_error hnot]
    rfl
  have hfound : e.IsReadable → t.find e.record.id = .ok (some e.shown) := by
    intro hread
    rw [hfind, Row.decode_ofEntry hread]
    rfl
  have hreadable : ∀ d, t.find e.record.id = .ok (some d) → e.IsReadable := by
    intro d h
    by_contra hnot
    rw [hmalformed hnot] at h
    cases h
  refine ⟨t, ?_⟩
  constructor
  case saved => exact hsave
  case found =>
    refine fun hshown => ⟨hreadable e, fun hread => ?_⟩
    rw [hfound hread, Entry.shown_of_isShown hshown]
  case found_shown => exact ⟨hreadable e.shown, hfound⟩
  case contained =>
    rw [RecordStore.contains]
    refine ⟨fun h => ?_, fun hread => ?_⟩
    · by_contra hnot
      rw [hmalformed hnot] at h
      cases h
    · rw [hfound hread]
      rfl
  case malformed =>
    intro hnot
    rw [RecordStore.contains, hmalformed hnot]
    exact ⟨rfl, rfl⟩
  case elsewhere => exact fun id hid => RecordStore.find_append_of_ne hrows hid
  case listed => exact RecordStore.unnotarized_append hrows
  case complete => exact fun r hr hnull d hdecode => RecordStore.mem_unnotarized hr hnull hdecode
  case referenced => exact RecordStore.references_append hrows
  case known =>
    rintro calls rfl
    obtain ⟨es, hes⟩ := RecordStore.exists_entries calls
    have hall : t.table.rows = (es ++ [e]).map Row.ofEntry := by
      rw [hrows, hes, List.map_append]
      rfl
    refine ⟨_, RecordStore.references_of_entries hall, ?_⟩
    rw [List.mem_eraseDups, List.map_append, List.mem_append]
    exact Or.inr (List.mem_singleton_self _)

namespace Sample

/-- An entry from a year that takes five digits. -/
def remoteEntry : Entry where
  record := .new "late" (.midnight ((Date.ofParts? 10000 1 1).get (by decide))) [] none
  content := { sealedEntry.content with contentRef := "facade" }

end Sample

/-- An entry that comes back is saved, and then one that does not, which leaves it the
    only one of the list. -/
theorem saved_entry_read_back_of_remote :
    (RecordStore.empty.after [.save Sample.sealedEntry]).contains Sample.remoteEntry.record.id
      = .ok false ∧
    ∃ t, KeepsEntry (RecordStore.empty.after [.save Sample.sealedEntry]) Sample.remoteEntry t ∧
      t.find "late"
        = .error (.malformedMetadata "late" "bad archive_timestamp: no date and time") ∧
      t.find "report" = .ok (some Sample.sealedEntry) ∧ Sample.sealedEntry ∈ t.unnotarized ∧
      Sample.remoteEntry ∉ t.unnotarized ∧
      ∃ refs, t.references = .ok refs ∧ "facade" ∈ refs := by
  have hempty : RecordStore.empty.contains Sample.sealedEntry.record.id = .ok false := rfl
  obtain ⟨s, hs⟩ := saved_entry_read_back .empty Sample.sealedEntry hempty
  have hstore : RecordStore.empty.after [.save Sample.sealedEntry] = s := by
    show (RecordStore.empty.handle _).2 = s
    rw [RecordStore.handle, hs.saved]
    rfl
  have hnew : (RecordStore.empty.after [.save Sample.sealedEntry]).contains
      Sample.remoteEntry.record.id = .ok false := by
    rw [hstore, RecordStore.contains, hs.elsewhere _ (by decide)]
    rfl
  obtain ⟨t, ht⟩ := saved_entry_read_back _ Sample.remoteEntry hnew
  have hunreadable : ¬ Sample.remoteEntry.IsReadable := by decide
  have hreadable : Sample.sealedEntry.IsReadable := by decide
  have hnothing : (RecordStore.empty.unnotarized : Multiset Entry) = 0 := by
    rw [Multiset.coe_eq_zero]
    exact List.perm_nil.mp RecordStore.empty.unnotarized_perm
  have hlisted : (t.unnotarized : Multiset Entry) = {Sample.sealedEntry} := by
    rw [ht.listed, hstore, hs.listed, if_pos ⟨hreadable, rfl⟩, if_neg fun h => hunreadable h.1,
      hnothing, zero_add, add_zero, Entry.shown_of_isShown (by decide)]
  have hmem : ∀ e, e ∈ t.unnotarized ↔ e = Sample.sealedEntry := by
    intro e
    rw [← Multiset.mem_coe, hlisted, Multiset.mem_singleton]
  refine ⟨hnew, t, ht, (ht.malformed hunreadable).1, ?_, (hmem _).mpr rfl, ?_, ht.known _ rfl⟩
  · rw [ht.elsewhere _ (by decide), hstore]
    exact (hs.found (by decide)).mpr hreadable
  · rw [hmem]
    decide

/-- An entry of a moment that no clock shows is found as the one that its texts show. -/
theorem unshown_entry_read_back_shown :
    RecordStore.empty.contains Sample.unshownEntry.record.id = .ok false ∧
    Sample.unshownEntry.IsReadable ∧
    ∃ t, RecordStore.empty.save Sample.unshownEntry = .ok t ∧
      t.find "report" = .ok (some Sample.unshownEntry.shown) ∧
      t.find "report" ≠ .ok (some Sample.unshownEntry) := by
  have hreadable : Sample.unshownEntry.IsReadable := ⟨by decide, fun _ => by decide⟩
  obtain ⟨-, t, hsave, hrows⟩ | ⟨hthere, -⟩ := RecordStore.empty.save_cases Sample.unshownEntry
  case inr => exact absurd rfl hthere
  have hmem : Row.ofEntry Sample.unshownEntry ∈ t.table.rows :=
    hrows ▸ List.mem_append_right _ List.mem_cons_self
  have hfind : t.find "report" = .ok (some Sample.unshownEntry.shown) := by
    have hrow : t.table.find? "report" = some (Row.ofEntry Sample.unshownEntry) :=
      Table.find?_of_mem hmem
    rw [RecordStore.find, hrow]
    show (Row.ofEntry Sample.unshownEntry).decode.map some = _
    rw [Row.decode_ofEntry hreadable]
    rfl
  refine ⟨rfl, hreadable, t, hsave, hfind, ?_⟩
  rw [hfind]
  decide

end ContentVault
