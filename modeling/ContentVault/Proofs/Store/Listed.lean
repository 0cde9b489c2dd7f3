import ContentVault.Proofs.Jobs.Collecting
import ContentVault.Proofs.Store.Bindings

/-! # Blobs that are listed

    A file is listed under its own name, whatever spelling of a UUID that is,
    but read and deleted under the one spelling that the store writes.  So the
    three operations agree on what a blob is exactly where all files that are
    listed have names in that spelling, and this is so whatever the store
    itself was asked to do (`agrees_after`).  A file with a name in another
    spelling is listed for good: no reference leads to it, its own name
    included.

    Main statement: `operations_agree_iff`. -/

namespace ContentVault.BlobStore

/-! ## Spellings -/

/-- Whether a reference is spelled as the store spells it. -/
def IsCanonical (ref : String) : Prop := ∃ u : Uuid, ref = u.text

theorem isCanonical_iff {ref : String} : IsCanonical ref ↔ fileName? ref = some ref := by
  constructor
  · rintro ⟨u, rfl⟩
    exact fileName?_text u
  · intro h
    obtain ⟨u, -, hu⟩ := fileName?_eq_some_iff.mp h
    exact ⟨u, hu.symm⟩

/-! ## The list after a deletion -/

theorem list_erase (s : BlobStore) (name : String) :
    (⟨s.root.erase name⟩ : BlobStore).list = s.list.filter fun b => b.contentRef != name := by
  rw [list, list, List.filter_filterMap]
  show (s.root.entries.filter fun e => e.1 != name).filterMap blobInfo? = _
  rw [List.filterMap_filter]
  refine List.filterMap_congr fun e _ => ?_
  cases hinfo : blobInfo? e with
  | none =>
      -- it was not listed in the first place
      exact ite_self none
  | some b =>
      rw [← contentRef_of_blobInfo? hinfo]
      rfl

/-! ## A listed blob, and what its reference leads to -/

/-- Whether a blob is read and deleted as the file that was listed. -/
structure Serves (s : BlobStore) (b : FoundBlob) : Prop where
  opens : ∃ bytes, s.root.get? b.contentRef = some (.file bytes b.created) ∧
    s.get b.contentRef = .ok { data := bytes }
  removes : s.delete b.contentRef = (.ok (), ⟨s.root.erase b.contentRef⟩)
  unlists : (s.delete b.contentRef).2.list
    = s.list.filter fun other => other.contentRef != b.contentRef

/-- Whether a blob is read and deleted as what stands under this other name, and stays
    where it is. -/
structure Misses (s : BlobStore) (b : FoundBlob) (name : String) : Prop where
  leads : fileName? b.contentRef = some name
  other : name ≠ b.contentRef
  file : ∀ bytes created, s.root.get? name = some (.file bytes created) →
    s.get b.contentRef = .ok { data := bytes } ∧
    s.delete b.contentRef = (.ok (), ⟨s.root.erase name⟩)
  folder : s.root.get? name = some .folder →
    s.get b.contentRef = .ok { data := [], failure := some isFolder } ∧
    s.delete b.contentRef = (.error (.ofIo isFolder), s)
  nothing : s.root.get? name = none →
    s.get b.contentRef = .error (unknown b.contentRef) ∧
    s.delete b.contentRef = (.error (unknown b.contentRef), s)
  stays : b ∈ (s.delete b.contentRef).2.list

variable {s : BlobStore} {b : FoundBlob}

theorem delete_file {ref name : String} {bytes : Bytes} {created : Timestamp}
    (hname : fileName? ref = some name) (hfile : s.root.get? name = some (.file bytes created)) :
    s.delete ref = (.ok (), ⟨s.root.erase name⟩) := by
  rw [delete, hname]
  simp only [hfile]

/-- A blob with a name in the store's own spelling is read and deleted as it was listed. -/
theorem serves_of_isCanonical (hb : b ∈ s.list) (h : IsCanonical b.contentRef) : s.Serves b := by
  obtain ⟨⟨bytes, hfile⟩, -⟩ := s.mem_list_iff.mp hb
  have hname := isCanonical_iff.mp h
  have hdelete := delete_file hname hfile
  refine ⟨⟨bytes, hfile, get_file hname hfile⟩, hdelete, ?_⟩
  rw [hdelete]
  exact s.list_erase b.contentRef

/-- A blob with a name in another spelling is not. -/
theorem misses_of_not_isCanonical (hb : b ∈ s.list) (h : ¬ IsCanonical b.contentRef) :
    ∃ name, s.Misses b name := by
  obtain ⟨-, name, hname⟩ := s.mem_list_iff.mp hb
  have hother : name ≠ b.contentRef := by
    rintro rfl
    exact h (isCanonical_iff.mpr hname)
  refine ⟨name, hname, hother, fun bytes created hfile => ?_, fun hfolder => ?_,
    fun hnone => ?_, ?_⟩
  · exact ⟨get_file hname hfile, delete_file hname hfile⟩
  · rw [get, delete, hname, Option.bind_eq_bind, Option.bind_some]
    simp only [hfolder, and_self]
  · rw [get, delete, hname, Option.bind_eq_bind, Option.bind_some]
    simp only [hnone, and_self]
  · -- what is deleted, if anything, is the file of the other name
    rcases s.delete_cases b.contentRef with ⟨name', -, -, hname', -, hdelete⟩ | ⟨-, e, hdelete⟩
    · cases hname.symm.trans hname'
      rw [hdelete, list_erase, List.mem_filter]
      exact ⟨hb, bne_iff_ne.mpr hother.symm⟩
    · rw [hdelete]
      exact hb

/-- A blob that stays where it is has not been deleted. -/
theorem Misses.not_serves {name : String} (h : s.Misses b name) : ¬ s.Serves b := by
  intro hserves
  have hstays := h.stays
  rw [hserves.unlists, List.mem_filter] at hstays
  exact bne_iff_ne.mp hstays.2 rfl

/-! ## Agreement -/

/-- Whether reading, deleting and listing agree on what the blobs are. -/
structure Agrees (s : BlobStore) : Prop where
  serves : ∀ b ∈ s.list, s.Serves b
  apart : ∀ b ∈ s.list, ∀ b' ∈ s.list,
    fileName? b.contentRef = fileName? b'.contentRef → b = b'

theorem agrees_of_isCanonical (h : ∀ b ∈ s.list, IsCanonical b.contentRef) : s.Agrees where
  serves := fun b hb => serves_of_isCanonical hb (h b hb)
  apart := by
    intro b hb b' hb' hname
    rw [isCanonical_iff.mp (h b hb), isCanonical_iff.mp (h b' hb')] at hname
    obtain ⟨⟨bytes, hfile⟩, -⟩ := s.mem_list_iff.mp hb
    obtain ⟨⟨bytes', hfile'⟩, -⟩ := s.mem_list_iff.mp hb'
    obtain ⟨ref, created⟩ := b
    obtain ⟨ref', created'⟩ := b'
    cases hname
    cases hfile.symm.trans hfile'
    rfl

/-- They agree on all that the store itself has put into an empty directory. -/
theorem agrees_after {σ : Type} [ByteReader σ] [ReaderView σ] {events : List (BlobEvent σ)}
    (h : (freshIn events).Nodup) : (directoryAfter events).kept.Agrees := by
  apply agrees_of_isCanonical
  intro b hb
  have hbound : b ∈ BlobMap.list (boundAfter events) := (mirrors_after h).list_eq ▸ hb
  obtain ⟨⟨u, c⟩, -, rfl⟩ := Multiset.mem_map.mp hbound
  exact ⟨u, rfl⟩

/-- Whatever is in the directory, the operations agree on the blobs exactly if every file
    that is listed has a name in the store's own spelling.  They agree on each file that
    has one, and on no other. -/
theorem operations_agree_iff (s : BlobStore) :
    (s.Agrees ↔ ∀ b ∈ s.list, IsCanonical b.contentRef) ∧
    ∀ b ∈ s.list, (IsCanonical b.contentRef ∧ s.Serves b) ∨
      (¬ IsCanonical b.contentRef ∧ ¬ s.Serves b ∧ ∃ name, s.Misses b name) := by
  have hcases : ∀ b ∈ s.list, (IsCanonical b.contentRef ∧ s.Serves b) ∨
      (¬ IsCanonical b.contentRef ∧ ¬ s.Serves b ∧ ∃ name, s.Misses b name) := by
    intro b hb
    by_cases hcanonical : IsCanonical b.contentRef
    · exact Or.inl ⟨hcanonical, serves_of_isCanonical hb hcanonical⟩
    · obtain ⟨name, hmisses⟩ := misses_of_not_isCanonical hb hcanonical
      exact Or.inr ⟨hcanonical, hmisses.not_serves, name, hmisses⟩
  refine ⟨⟨fun hagrees b hb => ?_, agrees_of_isCanonical⟩, hcases⟩
  rcases hcases b hb with ⟨hcanonical, -⟩ | ⟨-, hnot, -⟩
  · exact hcanonical
  · exact absurd (hagrees.serves b hb) hnot

end ContentVault.BlobStore

namespace ContentVault.Sample

/-- A store with a file whose name is in capitals. -/
def foreignStore : BlobStore := ⟨Directory.empty.set capitals (.file [104, 105] draws.now)⟩

end ContentVault.Sample

namespace ContentVault.BlobStore

/-- A file whose name is in capitals is listed, but can neither be read nor deleted. -/
theorem capitals_listed_for_good :
    (⟨Sample.capitals, Sample.draws.now⟩ : FoundBlob) ∈ Sample.foreignStore.list ∧
    Sample.foreignStore.get Sample.capitals = .error (unknown Sample.capitals) ∧
    Sample.foreignStore.delete Sample.capitals
      = (.error (unknown Sample.capitals), Sample.foreignStore) ∧
    ¬ Sample.foreignStore.Agrees := by
  have hlisted : (⟨Sample.capitals, Sample.draws.now⟩ : FoundBlob) ∈ Sample.foreignStore.list :=
    (mem_list_iff _).mpr ⟨⟨_, Directory.get?_set_self _ _ _⟩, _, Sample.fileName?_capitals⟩
  obtain ⟨hagrees, hcases⟩ := operations_agree_iff Sample.foreignStore
  rcases hcases _ hlisted with ⟨hcanonical, -⟩ | ⟨hnot, -, name, hmisses⟩
  · have hsame := (isCanonical_iff.mp hcanonical).symm.trans Sample.fileName?_capitals
    exact absurd (Option.some.inj hsame) (by decide)
  · obtain rfl := Option.some.inj (hmisses.leads.symm.trans Sample.fileName?_capitals)
    have hnothing : Sample.foreignStore.root.get? Sample.blobId.text = none := by decide
    obtain ⟨hget, hdelete⟩ := hmisses.nothing hnothing
    exact ⟨hlisted, hget, hdelete, fun h => hnot (hagrees.mp h _ hlisted)⟩

end ContentVault.BlobStore
