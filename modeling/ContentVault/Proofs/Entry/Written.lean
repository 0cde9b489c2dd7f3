import ContentVault.Entry.Record
import ContentVault.Proofs.Cipher.Recorded
import ContentVault.Proofs.Entry.Shown
import ContentVault.Proofs.Json.Records
import ContentVault.Proofs.Time.Relaxed

/-! # Entries as text, read back

    What an entry keeps is written as three records: how the blob was made, the life
    of the entry, and the label of the content.  Each field is read as it was
    written, whatever characters a text has, whatever bytes a byte string, and
    whether what may be left out is there or not (`EntryContent.read?_toJson`,
    `EntryRecord.read?_toJson`, `ContentLabel.read?_toJson`).  Only a moment that no
    clock shows is read as the one that its text shows.

    Main statement: `entries_read_from_text`. -/

namespace ContentVault

namespace EntryContent

theorem isSettled_toJson (c : EntryContent) (depth : Nat) : c.toJson.IsSettled (depth + 1) :=
  .record (by simp) ⟨.some (.string _), .some (.string _), .some (.string _), .some (.bool _),
    .some (.word32 _), .some (.string _), .map .string _, .some (.string _),
    .map (fun _ => .string _) _⟩

/-- A description is read as it was written. -/
theorem read?_toJson (c : EntryContent) : read? c.toJson = some c := by
  obtain ⟨members, hmembers, hgiven⟩ := Json.fields?_record c.toJson rfl (by simp)
  refine Option.bind_eq_some_iff.mpr ⟨⟨false, members⟩, hmembers, ?_⟩
  rw [hgiven.required 0 rfl, hgiven.required 1 rfl, hgiven.required 2 rfl, hgiven.required 3 rfl,
    hgiven.required 4 rfl, hgiven.required 5 rfl, hgiven.optional 6 rfl fun _ => rfl,
    hgiven.required 7 rfl, hgiven.nullable 8 rfl Json.nullable?_ofBytes, Json.word32?_ofNat,
    Json.bytes?_ofBytes]
  rfl

end EntryContent

namespace EntryRecord

theorem isSettled_toJson (r : EntryRecord) (depth : Nat) : r.toJson.IsSettled (depth + 1) :=
  .record (by simp) ⟨.some (.string _), .some (.string _), .some (.bool _), .some (.string _),
    .map (fun _ => .string _) _, .map .string _⟩

theorem readTime?_text (t : Timestamp) : readTime? (.string t.text) = some t.shown := by
  rw [readTime?, Json.string?, Option.bind_eq_bind, Option.bind_some, t.readRelaxed?_text]

/-- A record is read as its text shows it, whenever it was archived. -/
theorem read?_toJson (r : EntryRecord) : read? r.toJson = some r.shown := by
  obtain ⟨members, hmembers, hgiven⟩ := Json.fields?_record r.toJson rfl (by simp)
  refine Option.bind_eq_some_iff.mpr ⟨⟨false, members⟩, hmembers, ?_⟩
  rw [hgiven.required 0 rfl, hgiven.required 1 rfl, hgiven.required 2 rfl, hgiven.required 3 rfl,
    hgiven.nullable 4 rfl Json.nullable?_ofBytes, hgiven.optional 5 rfl fun _ => rfl,
    readTime?_text, Json.bytes?_ofBytes]
  rfl

/-- Nothing else of a record is in its text. -/
theorem toJson_shown (r : EntryRecord) : r.shown.toJson = r.toJson := by
  rw [toJson, toJson, shown, r.archived.text_shown]

theorem parse?_render (r : EntryRecord) :
    (Json.parse? r.toJson.render >>= read?) = some r.shown :=
  Json.parse?_render_bind (r.isSettled_toJson 0) r.read?_toJson

/-- Two records have the same text exactly if it shows them the same. -/
theorem render_eq_iff {r s : EntryRecord} :
    r.toJson.render = s.toJson.render ↔ r.shown = s.shown := by
  refine ⟨fun h => ?_, fun h => ?_⟩
  · have hread := r.parse?_render
    rw [h, s.parse?_render] at hread
    exact (Option.some.inj hread).symm
  · rw [← r.toJson_shown, h, s.toJson_shown]

end EntryRecord

/-- How a blob was made and the label of its content are read from their texts as they were,
    whatever they hold, and so is the life of an entry that was archived when a clock shows; no
    two of one kind have the same text.  A moment that no clock shows is read as the one that
    its text shows, and nothing else makes two records have one text. -/
theorem entries_read_from_text :
    (∀ c : EntryContent, (Json.parse? c.toJson.render >>= EntryContent.read?) = some c) ∧
    (∀ r : EntryRecord, r.archived.IsShown →
      (Json.parse? r.toJson.render >>= EntryRecord.read?) = some r) ∧
    (∀ m : ContentLabel, (Json.parse? m.toJson.render >>= ContentLabel.read?) = some m) ∧
    (∀ c d : EntryContent, c.toJson.render = d.toJson.render ↔ c = d) ∧
    (∀ r s : EntryRecord, r.archived.IsShown → s.archived.IsShown →
      (r.toJson.render = s.toJson.render ↔ r = s)) ∧
    (∀ m n : ContentLabel, m.toJson.render = n.toJson.render ↔ m = n) ∧
    (∀ r : EntryRecord, (Json.parse? r.toJson.render >>= EntryRecord.read?) = some r.shown) ∧
    (∀ r s : EntryRecord, r.toJson.render = s.toJson.render ↔ r.shown = s.shown) ∧
    (∀ r : EntryRecord, r.shown = r ↔ r.archived.IsShown) := by
  have hcontent : ∀ c : EntryContent,
      (Json.parse? c.toJson.render >>= EntryContent.read?) = some c := fun c =>
    Json.parse?_render_bind (c.isSettled_toJson 0) c.read?_toJson
  have hlabel : ∀ m : ContentLabel,
      (Json.parse? m.toJson.render >>= ContentLabel.read?) = some m := fun m =>
    Json.parse?_render_bind (m.isSettled_toJson 0) m.read?_toJson
  have hself : ∀ r : EntryRecord, r.archived.IsShown → r.shown = r :=
    fun r => EntryRecord.shown_eq_self_iff.mpr
  refine ⟨hcontent, fun r hr => ?_, hlabel, Json.render_eq_iff hcontent, fun r s hr hs => ?_,
    Json.render_eq_iff hlabel, EntryRecord.parse?_render, fun r s => EntryRecord.render_eq_iff,
    fun r => EntryRecord.shown_eq_self_iff⟩
  · rw [r.parse?_render, hself r hr]
  · rw [EntryRecord.render_eq_iff, hself r hr, hself s hs]

namespace Sample

/-- A record that was made in the last minute of 2016. -/
def recordAt (second nanosecond : Nat) : EntryRecord :=
  .new "report" (beforeNewYear second nanosecond) [104, 105] none

end Sample

/-- A record of the second 60 of that minute is read back, and has another text than one of
    the second before. -/
theorem entries_read_from_text_of_second_60 :
    (Json.parse? (Sample.recordAt 59 1500000000).toJson.render >>= EntryRecord.read?)
      = some (Sample.recordAt 59 1500000000) ∧
    (Sample.recordAt 59 1500000000).toJson.render ≠ (Sample.recordAt 59 500000000).toJson.render := by
  obtain ⟨-, hread, -, -, htext, -⟩ := entries_read_from_text
  refine ⟨hread _ (by decide), fun hsame => ?_⟩
  exact absurd ((htext _ _ (by decide) (by decide)).mp hsame) (by decide)

/-- A record of a moment after the second 4 that no clock shows has the text of one of the
    second 5, and is not read back. -/
theorem unshown_record_has_text_of_another :
    (Sample.recordAt 4 1333333333).archived.HasPlainYear ∧
    (Sample.recordAt 4 1333333333).toJson.render = (Sample.recordAt 5 333333333).toJson.render ∧
    Sample.recordAt 4 1333333333 ≠ Sample.recordAt 5 333333333 ∧
    (Json.parse? (Sample.recordAt 4 1333333333).toJson.render >>= EntryRecord.read?)
      ≠ some (Sample.recordAt 4 1333333333) := by
  refine ⟨by decide, EntryRecord.render_eq_iff.mpr (by decide), by decide, ?_⟩
  rw [EntryRecord.parse?_render]
  decide

end ContentVault
