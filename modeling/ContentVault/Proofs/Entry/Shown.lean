import ContentVault.Entry.Record
import ContentVault.Proofs.Time.Spelling

/-! # Entries as their texts show them

    Of all that an entry holds, only the moment that it was archived may be one
    that no clock shows, so that its text shows another one.  An entry that is
    read from its texts therefore is `shown` in place of the entry, which is the
    entry itself exactly if a clock shows its moment (`Entry.shown_eq_self_iff`). -/

namespace ContentVault

namespace EntryRecord

/-- The record as its text shows it. -/
def shown (r : EntryRecord) : EntryRecord := { r with archived := r.archived.shown }

theorem shown_eq_self_iff {r : EntryRecord} : r.shown = r ↔ r.archived.IsShown := by
  rw [← Timestamp.shown_eq_self_iff]
  refine ⟨fun h => congrArg archived h, fun h => ?_⟩
  rw [shown, h]

end EntryRecord

namespace Entry

/-- The entry as its texts show it. -/
def shown (e : Entry) : Entry := { e with record := e.record.shown }

theorem shown_eq_self_iff {e : Entry} : e.shown = e ↔ e.record.archived.IsShown := by
  rw [← EntryRecord.shown_eq_self_iff]
  refine ⟨fun h => congrArg record h, fun h => ?_⟩
  rw [shown, h]

theorem shown_of_isShown {e : Entry} (h : e.record.archived.IsShown) : e.shown = e :=
  shown_eq_self_iff.mpr h

@[simp] theorem shown_shown (e : Entry) : e.shown.shown = e.shown :=
  shown_of_isShown e.record.archived.isShown_shown

end Entry

namespace Sample

/-- A moment of the last minute of 2016, which had a second 60.  Numbers that are too large
    start over. -/
def beforeNewYear (second nanosecond : Nat) : Timestamp :=
  ⟨(Date.ofParts? 2016 12 31).get (by decide), 23, 59, second % 60, nanosecond % 2000000000,
    by decide, by decide, Nat.mod_lt _ (by decide), Nat.mod_lt _ (by decide)⟩

/-- No clock shows 1333333333 nanoseconds after the second 4. -/
example : (beforeNewYear 4 1333333333).shown = beforeNewYear 5 333333333 := by decide

end Sample

end ContentVault
