import ContentVault.Proofs.Store.Blobs

/-! # Blobs that the file system refuses

    A blob goes through a file with a name for writing, and each operation on
    that file can be refused.  Up to the renaming, whatever goes wrong, the
    file is removed again, also if it is the stream that fails or has another
    length than was declared.  If only the renaming is refused, the complete
    file stays under its name for writing.  These are all the ends that storing
    a blob can come to (`putUnless_cases`). -/

namespace ContentVault

namespace Refusals

/-- One operation is refused, and no other. -/
def only (step : FileStep) (e : IoError) : Refusals :=
  fun other => if other = step then some e else none

/-- The same refusals, but that of one operation. -/
def sparing (refuse : Refusals) (step : FileStep) : Refusals :=
  fun other => if other = step then none else refuse other

theorem sparing_of_ne (refuse : Refusals) {step other : FileStep} (h : other ≠ step) :
    refuse.sparing step other = refuse other := if_neg h

theorem sparing_self (refuse : Refusals) (step : FileStep) : refuse.sparing step step = none :=
  if_pos rfl

end Refusals

namespace BlobStore

open ReaderView

variable {σ : Type} [ByteReader σ]

/-! ## A file, once it is written -/

section

variable {refuse : Refusals} {s : BlobStore} {id : Uuid} {now : Timestamp} {stream : σ}
  {length : Option UInt64} {d : Directory}

/-- A file that cannot be written is removed. -/
theorem putUnless_of_error {e : VaultFailure}
    (h : writeFile refuse s.root (temporaryName id) now stream length = (.error e, d)) :
    s.putUnless refuse id now stream length = (.error e, ⟨d.erase (temporaryName id)⟩) := by
  rw [putUnless]
  simp only [h]

/-- A complete file is given its name, or stays as it is. -/
theorem putUnless_of_ok
    (h : writeFile refuse s.root (temporaryName id) now stream length = (.ok (), d)) :
    s.putUnless refuse id now stream length =
      match refuse .rename with
      | some e => (.error (.ofIo e), ⟨d⟩)
      | none => (.ok id.text, ⟨d.rename (temporaryName id) id.text⟩) := by
  rw [putUnless]
  cases refuse .rename with
  | some e => simp only [h]
  | none => simp only [h]

end

/-! ## Writing it -/

/-- Whether the renaming is refused makes no difference until the file is written. -/
theorem writeFile_sparing (refuse : Refusals) (d : Directory) (name : String) (now : Timestamp)
    (stream : σ) (length : Option UInt64) :
    writeFile (refuse.sparing .rename) d name now stream length
      = writeFile refuse d name now stream length := by
  have hcreate : refuse.sparing .rename .create = refuse .create := refuse.sparing_of_ne nofun
  have hflush : refuse.sparing .rename .flush = refuse .flush := refuse.sparing_of_ne nofun
  have hsync : refuse.sparing .rename .sync = refuse .sync := refuse.sparing_of_ne nofun
  have hwrite : ∀ i, refuse.sparing .rename (.write i) = refuse (.write i) :=
    fun i => refuse.sparing_of_ne nofun
  have hfirst : firstRefused? (refuse.sparing .rename) = firstRefused? refuse := by
    funext count
    simp only [firstRefused?, hwrite]
  simp only [writeFile, copied, hcreate, hflush, hsync, hfirst]

variable [ReaderView σ]

/-- A copy is broken off, or it is all of the stream. -/
theorem copied_cases (refuse : Refusals) (stream : σ) :
    (∃ e, (copied refuse stream).2 = some e) ∨
      copied refuse stream = (content stream, none) := by
  have hroom : 0 < copyBuffer := by decide
  have hdrain := ReaderView.drain_eq stream hroom []
  rw [copied]
  generalize ByteReader.drain stream copyBuffer [] = out at hdrain
  obtain ⟨chunks, stop, rest⟩ := out
  obtain ⟨hbytes, hstop⟩ := hdrain
  simp only
  cases firstRefused? refuse chunks.reverse.length with
  | some refused => exact Or.inl ⟨refused.2, rfl⟩
  | none =>
      cases hend : ending stream with
      | some e => exact Or.inl ⟨e, hstop.trans hend⟩
      | none => exact Or.inr (Prod.ext hbytes (hstop.trans hend))

/-- Writing a file fails, with at most the file itself to show for it, or the file is
    complete. -/
theorem writeFile_cases (refuse : Refusals) (d : Directory) (name : String) (now : Timestamp)
    (stream : σ) (length : Option UInt64) :
    (∃ e d', writeFile refuse d name now stream length = (.error e, d') ∧
      d'.erase name = d.erase name) ∨
    writeFile refuse d name now stream length
      = (.ok (), d.set name (.file (content stream) now)) := by
  rw [writeFile]
  cases refuse .create with
  | some e => exact Or.inl ⟨.ofIo e, d, rfl, rfl⟩
  | none =>
      simp only
      rcases copied_cases refuse stream with ⟨e, hstop⟩ | hall
      · rw [hstop]
        exact Or.inl ⟨.ofIo e, _, rfl, d.erase_set _ _⟩
      · rw [hall]
        cases (none <|> refuse .flush <|> refuse .sync : Option IoError) with
        | some e => exact Or.inl ⟨.ofIo e, _, rfl, d.erase_set _ _⟩
        | none =>
            simp only
            cases checkLength length (content stream).length with
            | error e => exact Or.inl ⟨e, _, rfl, d.erase_set _ _⟩
            | ok u => exact Or.inr rfl

/-! ## Storing -/

/-- All that storing a blob can come to, and what it comes to where the renaming is not
    refused. -/
theorem putUnless_cases (refuse : Refusals) (s : BlobStore) (id : Uuid) (now : Timestamp)
    (stream : σ) (length : Option UInt64) :
    (∃ e, s.putUnless refuse id now stream length
        = (.error e, ⟨s.root.erase (temporaryName id)⟩) ∧
      s.putUnless (refuse.sparing .rename) id now stream length
        = (.error e, ⟨s.root.erase (temporaryName id)⟩)) ∨
    (∃ e, refuse .rename = some e ∧ s.putUnless refuse id now stream length
        = (.error (.ofIo e), ⟨s.root.set (temporaryName id) (.file (content stream) now)⟩) ∧
      ∃ t, s.putUnless (refuse.sparing .rename) id now stream length = (.ok id.text, t)) ∨
    (refuse .rename = none ∧
      ∃ t, s.putUnless refuse id now stream length = (.ok id.text, t)) := by
  rcases writeFile_cases refuse s.root (temporaryName id) now stream length with
    ⟨e, d, hwrite, herase⟩ | hwrite
  · -- the renaming is not reached
    have hspared := (writeFile_sparing ..).trans hwrite
    rw [putUnless_of_error hwrite, putUnless_of_error hspared, herase]
    exact Or.inl ⟨e, rfl, rfl⟩
  · have hspared := (writeFile_sparing ..).trans hwrite
    rw [putUnless_of_ok hwrite, putUnless_of_ok hspared, refuse.sparing_self]
    cases refuse .rename with
    | some e => exact Or.inr (Or.inl ⟨e, rfl, rfl, _, rfl⟩)
    | none => exact Or.inr (Or.inr ⟨rfl, _, rfl⟩)

end BlobStore

end ContentVault
