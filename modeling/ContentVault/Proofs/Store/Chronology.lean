import ContentVault.Proofs.Store.Mapping
import ContentVault.Proofs.Time.Order
import Mathlib.Data.Prod.Lex

/-! # The list of entries to be notarized

    Entries without a transaction id are listed by the texts of their moments,
    which is the order of the moments that they show, so that what was archived
    first is notarized first.

    Main statement: `unnotarized_chronological`. -/

namespace ContentVault

namespace RecordStore

/-- The order of the list is that of texts, and of ids where these are the same. -/
theorem comesBefore_iff (a b : Dated) :
    comesBefore a b = true ↔ toLex (a.1, a.2.record.id) ≤ toLex (b.1, b.2.record.id) := by
  rw [Prod.Lex.toLex_le_toLex, comesBefore, Bool.or_eq_true, Bool.and_eq_true, decide_eq_true_iff,
    decide_eq_true_iff, beq_iff_eq]

theorem pairwise_comesBefore (dated : List Dated) :
    (dated.mergeSort comesBefore).Pairwise fun a b => comesBefore a b = true := by
  refine List.pairwise_mergeSort ?_ ?_ dated
  · intro a b c hab hbc
    rw [comesBefore_iff] at hab hbc ⊢
    exact le_trans hab hbc
  · intro a b
    rw [Bool.or_eq_true, comesBefore_iff, comesBefore_iff]
    exact le_total _ _

end RecordStore

/-- Readable entries are listed in the order in which they were archived. -/
theorem Spells.pairwise_unnotarized {s : RecordStore} {es : List Entry} {m : EntryMap}
    (h : Spells s es m) :
    s.unnotarized.Pairwise fun d e => d.record.archived.place ≤ e.record.archived.place := by
  have hdated : ∀ d ∈ (s.table.rows.filterMap RecordStore.missing?).mergeSort
      RecordStore.comesBefore, d.2 ∈ es ∧ d.1 = d.2.record.archived.offsetText := by
    intro d hd
    rw [List.mem_mergeSort, h.rows, RecordStore.filterMap_missing? h.readable] at hd
    obtain ⟨e, he, rfl⟩ := List.mem_map.mp hd
    have hes := (List.mem_filter.mp he).1
    rw [h.shown e hes]
    exact ⟨hes, rfl⟩
  rw [RecordStore.unnotarized, List.pairwise_map]
  refine (RecordStore.pairwise_comesBefore _).imp_of_mem fun {a b} ha hb hbefore => ?_
  obtain ⟨haes, hatext⟩ := hdated a ha
  obtain ⟨hbes, hbtext⟩ := hdated b hb
  rw [RecordStore.comesBefore_iff] at hbefore
  have htexts : a.2.record.archived.offsetText ≤ b.2.record.archived.offsetText := by
    rw [← hatext, ← hbtext]
    rcases Prod.Lex.toLex_le_toLex.mp hbefore with hlt | ⟨heq, -⟩
    · exact le_of_lt hlt
    · exact le_of_eq heq
  have hshown : ∀ e ∈ es, e.record.archived.shown = e.record.archived :=
    fun e he => congrArg (fun e => e.record.archived) (h.shown e he)
  refine not_lt.mp fun hlate => not_lt.mpr htexts ?_
  rw [Timestamp.offsetText_lt_iff (h.readable _ hbes).plainYear (h.readable _ haes).plainYear,
    hshown _ hbes, hshown _ haes]
  exact hlate

/-- The order of moments fixes a list of entries, no two of which are from the same moment. -/
theorem eq_of_places {listed entries : List Entry} (hsame : (listed : Multiset Entry) = entries)
    (hlisted : listed.Pairwise fun d e => d.record.archived.place ≤ e.record.archived.place)
    (hentries : entries.Pairwise fun d e => d.record.archived.place ≤ e.record.archived.place)
    (hapart : ∀ d ∈ entries, ∀ e ∈ entries, d.record.archived.place ≤ e.record.archived.place →
      e.record.archived.place ≤ d.record.archived.place → d = e) : listed = entries := by
  have hperm := Multiset.coe_eq_coe.mp hsame
  exact hperm.eq_of_pairwise
    (fun d e hd he => hapart d (hperm.mem_iff.mp hd) e he) hlisted hentries

/-- The entries without a transaction id are listed, each once and as their texts show
    them, in the order of the moments that are listed with them.  If a clock shows when
    they were archived, these are the entries that were saved. -/
theorem unnotarized_chronological (calls : List StoreCall)
    (hcalls : ∀ e, .save e ∈ calls → e.IsReadable) :
    ((RecordStore.empty.after calls).unnotarized : Multiset Entry)
      = (EntryMap.after ∅ (calls.map StoreCall.shown)).values.filter
          (fun e => e.record.notarization = none) ∧
    ((∀ e, .save e ∈ calls → e.record.archived.IsShown) → calls.map StoreCall.shown = calls) ∧
    (RecordStore.empty.after calls).unnotarized.Pairwise
      fun d e => d.record.archived.place ≤ e.record.archived.place := by
  obtain ⟨-, es, hspells⟩ := Spells.empty.run hcalls
  exact ⟨hspells.unnotarized_eq, StoreCall.map_shown, hspells.pairwise_unnotarized⟩

namespace Sample

/-- An entry that was archived at this moment. -/
def entryAt (id : String) (t : Timestamp) : Entry :=
  { sealedEntry with record := { sealedEntry.record with id, archived := t } }

/-- The first moment of 2017. -/
def newYear : Timestamp := .midnight ((Date.ofParts? 2017 1 1).get (by decide))

/-- Entries from around that second, the earliest first. -/
def lateEntries : List Entry :=
  [entryAt "a" (beforeNewYear 59 999999999),
    entryAt "b" (beforeNewYear 59 1500000000),
    entryAt "c" (beforeNewYear 59 1500001000),
    entryAt "d" newYear]

/-- They are saved the other way round, with one that is notarized. -/
def lateCalls : List StoreCall :=
  lateEntries.reverse.map .save ++
    [.save (entryAt "e" (beforeNewYear 59 1000000000)),
      .update (.notarized "e" "tx")]

end Sample

/-- The second 60 is listed between the second before it and the next year. -/
theorem unnotarized_around_second_60 :
    (∀ e, .save e ∈ Sample.lateCalls → e.IsReadable) ∧
    (RecordStore.empty.after Sample.lateCalls).unnotarized = Sample.lateEntries := by
  have hcalls : ∀ e, .save e ∈ Sample.lateCalls → e.IsReadable ∧ e.record.archived.IsShown := by
    intro e he
    simp only [Sample.lateCalls, Sample.lateEntries, List.reverse_cons, List.reverse_nil,
      List.nil_append, List.cons_append, List.map_cons, List.map_nil, List.mem_cons,
      StoreCall.save.injEq, reduceCtorEq, or_false, List.not_mem_nil] at he
    rcases he with rfl | rfl | rfl | rfl | rfl <;>
      exact ⟨⟨by decide, fun _ => by decide⟩, by decide⟩
  obtain ⟨hlisted, hsame, hordered⟩ :=
    unnotarized_chronological Sample.lateCalls fun e he => (hcalls e he).1
  rw [hsame fun e he => (hcalls e he).2] at hlisted
  have hvalues : (EntryMap.after ∅ Sample.lateCalls).values.filter
      (fun e => e.record.notarization = none) = (Sample.lateEntries : Multiset Entry) := by decide
  exact ⟨fun e he => (hcalls e he).1,
    eq_of_places (hlisted.trans hvalues) hordered (by decide) (by decide)⟩

namespace Sample

/-- An entry of a moment after a second 4 that no clock shows, and one of the second 5. -/
def earlyCalls : List StoreCall :=
  [.save (entryAt "a" (beforeNewYear 4 1333333333)),
    .save (entryAt "b" (beforeNewYear 5 200000000))]

end Sample

/-- An entry is listed after a later one, if no clock shows when it was archived. -/
theorem unshown_entry_listed_late :
    (∀ e, .save e ∈ Sample.earlyCalls → e.IsReadable) ∧
    (Sample.beforeNewYear 4 1333333333).place < (Sample.beforeNewYear 5 200000000).place ∧
    (RecordStore.empty.after Sample.earlyCalls).unnotarized.map (fun e => e.record.id)
      = ["b", "a"] := by
  have hcalls : ∀ e, .save e ∈ Sample.earlyCalls → e.IsReadable := by
    intro e he
    simp only [Sample.earlyCalls, List.mem_cons, StoreCall.save.injEq, or_false,
      List.not_mem_nil] at he
    rcases he with rfl | rfl <;> exact ⟨by decide, fun _ => by decide⟩
  obtain ⟨-, es, hspells⟩ := Spells.empty.run hcalls
  have hvalues : (EntryMap.after ∅ (Sample.earlyCalls.map StoreCall.shown)).values.filter
      (fun e => e.record.notarization = none)
      = ([Sample.entryAt "b" (Sample.beforeNewYear 5 200000000),
        Sample.entryAt "a" (Sample.beforeNewYear 5 333333333)] : Multiset Entry) := by decide
  have hlisted := eq_of_places (hspells.unnotarized_eq.trans hvalues) hspells.pairwise_unnotarized
    (by decide) (by decide)
  refine ⟨hcalls, by decide, ?_⟩
  rw [hlisted]
  rfl

end ContentVault
