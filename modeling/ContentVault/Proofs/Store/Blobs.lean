import ContentVault.Proofs.Store.Directory
import ContentVault.Proofs.Store.Reference
import ContentVault.Proofs.Stream.View

/-! # What storing a blob does to the directory

    Where the file system refuses nothing, storing a stream depends on its
    bytes and its ending only (`put_eq`): a stream that ends cleanly and has
    the length that was declared becomes a file under the text of its UUID,
    any other stream leaves no file at all. -/

namespace ContentVault.BlobStore

open ReaderView

/-! ## Storing -/

/-- Nothing is refused. -/
theorem firstRefused?_none (count : Nat) : firstRefused? (fun _ => none) count = none := by
  unfold firstRefused?
  rw [List.findSome?_eq_none_iff]
  intro i _
  rfl

variable {σ : Type} [ByteReader σ] [ReaderView σ]

/-- Everything is written that the stream gives. -/
theorem copied_eq (stream : σ) :
    copied (fun _ => none) stream = (content stream, ending stream) := by
  have hroom : 0 < copyBuffer := by decide
  have h := drain_eq stream hroom []
  unfold copied
  generalize ByteReader.drain stream copyBuffer [] = out at h
  obtain ⟨chunks, e, s⟩ := out
  obtain ⟨hbytes, hend⟩ := h
  simp only [firstRefused?_none]
  exact Prod.ext hbytes hend

/-- The store after a stream was stored, and what came of it. -/
theorem put_eq (s : BlobStore) (id : Uuid) (now : Timestamp) (stream : σ) (length : Option UInt64) :
    s.put id now stream length =
      match ending stream with
      | some e => (.error (.ofIo e), ⟨s.root.erase (temporaryName id)⟩)
      | none =>
        match checkLength length (content stream).length with
        | .error e => (.error e, ⟨s.root.erase (temporaryName id)⟩)
        | .ok () => (.ok id.text,
            ⟨(s.root.erase (temporaryName id)).set id.text (.file (content stream) now)⟩) := by
  unfold put putUnless writeFile
  -- a file that was begun is either renamed or removed
  rw [copied_eq]
  cases hend : ending stream with
  | some e => exact congrArg (Prod.mk _) (congrArg BlobStore.mk (s.root.erase_set _ _))
  | none =>
      cases hcheck : checkLength length (content stream).length with
      | error e =>
          simp only [Option.orElse_eq_orElse, Option.orElse_eq_or, Option.or_none, hcheck]
          exact congrArg (Prod.mk _) (congrArg BlobStore.mk (s.root.erase_set _ _))
      | ok u =>
          simp only [Option.orElse_eq_orElse, Option.orElse_eq_or, Option.or_none, hcheck]
          exact congrArg (Prod.mk _) (congrArg BlobStore.mk (s.root.rename_set _ _ _))

/-! ## Reading and deleting -/

/-- A reference to a file opens it. -/
theorem get_file {s : BlobStore} {ref name : String} {bytes : Bytes} {created : Timestamp}
    (hname : fileName? ref = some name) (hfile : s.root.get? name = some (.file bytes created)) :
    s.get ref = .ok { data := bytes } := by
  unfold get
  rw [hname, Option.bind_eq_bind, Option.bind_some, hfile]

/-- Deleting a blob takes the name away that its reference leads to, or
    nothing. -/
theorem delete_cases (s : BlobStore) (ref : String) :
    (∃ name bytes created, fileName? ref = some name ∧
      s.root.get? name = some (.file bytes created) ∧
      s.delete ref = (.ok (), ⟨s.root.erase name⟩)) ∨
    ((∀ name bytes created, fileName? ref = some name →
      s.root.get? name ≠ some (.file bytes created)) ∧ ∃ e, s.delete ref = (.error e, s)) := by
  unfold delete
  cases hname : fileName? ref with
  | none => exact Or.inr ⟨fun _ _ _ h => (nomatch h), unknown ref, rfl⟩
  | some name =>
      cases hnode : s.root.get? name with
      | none =>
          refine Or.inr ⟨fun _ _ _ h => ?_, unknown ref, ?_⟩
          · cases h
            rw [hnode]
            exact fun h => nomatch h
          · simp only [hnode]
      | some node =>
          cases node with
          | folder =>
              refine Or.inr ⟨fun _ _ _ h => ?_, .ofIo isFolder, ?_⟩
              · cases h
                rw [hnode]
                exact fun h => nomatch h
              · simp only [hnode]
          | file bytes created =>
              refine Or.inl ⟨name, bytes, created, rfl, hnode, ?_⟩
              simp only [hnode]

/-! ## Listing -/

/-- What is listed is a file whose name is a spelling of a UUID. -/
theorem mem_list_iff (s : BlobStore) {b : FoundBlob} :
    b ∈ s.list ↔ (∃ bytes, s.root.get? b.contentRef = some (.file bytes b.created)) ∧
      ∃ name, fileName? b.contentRef = some name := by
  unfold list
  rw [List.mem_filterMap]
  constructor
  · rintro ⟨⟨name, node⟩, hmem, hinfo⟩
    cases node with
    | folder => cases hinfo
    | file bytes created =>
        simp only [blobInfo?] at hinfo
        split at hinfo
        · rename_i hsome
          cases hinfo
          obtain ⟨u, hu⟩ := Option.isSome_iff_exists.mp hsome
          exact ⟨⟨bytes, s.root.mem_entries_iff.mp hmem⟩, u.text,
            fileName?_eq_some_iff.mpr ⟨u, hu, rfl⟩⟩
        · cases hinfo
  · rintro ⟨⟨bytes, hget⟩, name, hname⟩
    obtain ⟨u, hu, -⟩ := fileName?_eq_some_iff.mp hname
    refine ⟨(b.contentRef, .file bytes b.created), s.root.mem_entries_iff.mpr hget, ?_⟩
    simp only [blobInfo?, hu, Option.isSome_some, if_true]

end ContentVault.BlobStore
