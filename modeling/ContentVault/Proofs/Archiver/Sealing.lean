import ContentVault.Proofs.Archiver.Restoring
import ContentVault.Proofs.Cipher.Nonces

/-! # What archiving seals

    Content that is archived encrypted is sealed chunk by chunk, and its label
    after it, all under one key that was derived for it alone.  A blob that
    stays is the frames of those chunks, and the record has the label
    (`Frames.Yields`), so `sealingsFor` is all that the key was used for.

    Main statement: `nonces_apart_unless_met`. -/

namespace ContentVault

namespace Frames

/-- What a cipher makes of something that is sealed. -/
def Sealing.under (a : Aead) (key : Key) (x : Sealing) : Bytes :=
  a.encrypt key x.nonce x.binding x.plain

/-- Whether a blob and a label are what becomes of all that was sealed: the
    label of the last, and the blob, in frames, of the others. -/
structure Yields (a : Aead) (key : Key) (made : List Sealing) (blob label : Bytes) : Prop where
  blob : blob = ((made.dropLast.map (Sealing.under a key)).mapIdx fun i body =>
    frame body (i + 2 = made.length)).flatten
  label : made.getLast?.map (Sealing.under a key) = some label

/-- What is sealed for an artifact becomes its frames and its label. -/
theorem yields_sealings (a : Aead) (key : Key) (base other : Nonce) (size : ChunkSize)
    (plain label : Bytes) :
    Yields a key (sealings base size plain [(other, label)]) (frameBytes a key base size plain)
      (a.encrypt key other Cipher.labelBinding label) := by
  constructor
  case blob =>
    have hlen : (sealings base size plain [(other, label)]).length
        = plain.length / size.val + 1 + 1 := by
      rw [sealings, List.length_append, List.length_map, List.length_range]
      rfl
    have hchunks : (sealings base size plain [(other, label)]).dropLast.map (Sealing.under a key)
        = (List.range (plain.length / size.val + 1)).map (bodyAt a key base size plain) := by
      rw [sealings, List.map_singleton, List.dropLast_concat, List.map_map]
      rfl
    rw [frameBytes_eq, hlen, hchunks]
    refine congrArg List.flatten (List.ext_getElem ?_ fun i _ _ => ?_)
    · rw [length_framesOf, List.length_mapIdx, List.length_map, List.length_range]
    · -- the label comes after the last chunk
      have hlast : decide (i = plain.length / size.val)
          = decide (i + 2 = plain.length / size.val + 1 + 1) := decide_eq_decide.mpr (by omega)
      simp only [framesOf, frameAt, List.getElem_map, List.getElem_range, List.getElem_mapIdx,
        hlast]
  case label =>
    rw [sealings, List.map_singleton, List.getLast?_concat]
    rfl

end Frames

namespace Archiver

open Frames

/-- All that is sealed for content that is archived encrypted. -/
def sealingsFor (a : Archiver) (draws : Draws) (c : OfferedContent) : List Sealing :=
  sealings draws.contentNonce a.chunkSize c.stream.data
    [(draws.metadataNonce, c.metadata.toBytes)]

/-- The nonces of an archive run that encrypts, one for each chunk and one for the label,
    are all different unless that of the label meets those of the chunks; then it is the
    nonce of exactly one chunk.  The associated data are different in any case (`Apart`).
    These are the nonces that the cipher is used with: what the run leaves behind, whether
    it ends with a record or not, was made by these sealings, under one key.  Where the tee
    has no buffer, what it leaves was made by the one of an empty content; and without a key
    it leaves nothing. -/
theorem nonces_apart_unless_met (a : Archiver) (draws : Draws) (c : OfferedContent)
    (o : ArchiveChoices) (s : Stores BlobStore) (hencrypt : o.encrypt = true)
    (hcount : c.stream.data.length / a.chunkSize.val + 1 < 2 ^ 64) :
    let made := a.sealingsFor draws c
    Apart draws.contentNonce draws.metadataNonce
      (c.stream.data.length / a.chunkSize.val + 1) made ∧
    match a.contentKey draws o with
    | .ok none => False
    | .error _ => ∃ e, a.archive draws c o s = (.error e, s)
    | .ok (some key) => ∃ blob label, Yields a.cipher.aead key made blob label ∧
      match a.archive draws c o s with
      | (.ok _, t) => t.blobs = added draws s.blobs blob ∧
        ∃ e : Entry, t.records.table.rows = s.records.table.rows ++ [Row.ofEntry e] ∧
          e.record.id = c.id ∧ e.content.nonce = some draws.contentNonce.bytes ∧
          e.record.metadataNonce = some draws.metadataNonce.bytes ∧ e.record.metadata = label
      | (.error _, t) => t.records = s.records ∧
        (t.blobs = s.blobs ∨ t.blobs = discarded draws s.blobs ∨
          t.blobs = added draws s.blobs blob ∨
          (¬Tee.Bufferable a.branchBuffer ∧ t.blobs = added draws s.blobs
            (frameBytes a.cipher.aead key draws.contentNonce a.chunkSize []))) := by
  intro made
  refine ⟨apart_sealings hcount, ?_⟩
  by_cases hhas : a.HasKey o
  · obtain ⟨key, hkey⟩ : ∃ key, a.keyFor draws o = some key := ⟨_, keyFor_encrypted hencrypt⟩
    have hblob : a.blobFor draws c o
        = frameBytes a.cipher.aead key draws.contentNonce a.chunkSize (a.seen c).data := by
      rw [blobFor, hkey]
      rfl
    rw [contentKey_eq draws hhas, hkey]
    refine ⟨frameBytes a.cipher.aead key draws.contentNonce a.chunkSize c.stream.data, _,
      yields_sealings a.cipher.aead key _ _ _ _ _, ?_⟩
    rcases a.archive_cases draws c o s with ⟨-, e, harchive⟩ | ⟨-, -, e, harchive⟩
      | ⟨-, -, -, e, harchive⟩ | ⟨-, -, hvouched, verify, records, harchive, hrows⟩
    · rw [harchive]
      exact ⟨rfl, Or.inl rfl⟩
    · rw [harchive]
      exact ⟨rfl, Or.inr (Or.inl rfl)⟩
    · rw [harchive, hblob]
      by_cases hbuffer : Tee.Bufferable a.branchBuffer
      · rw [seen_of_bufferable hbuffer]
        exact ⟨rfl, Or.inr (Or.inr (Or.inl rfl))⟩
      · rw [seen_of_not_bufferable hbuffer]
        exact ⟨rfl, Or.inr (Or.inr (Or.inr ⟨hbuffer, rfl⟩))⟩
    · rw [harchive, hblob, seen_of_bufferable hvouched.1]
      refine ⟨rfl, a.entryFor draws c o, hrows, a.id_entryFor draws c o, ?_⟩
      rw [entryFor, hkey]
      exact ⟨rfl, rfl, rfl⟩
  · obtain ⟨reason, hreason⟩ := contentKey_refused hhas
    rw [hreason]
    rcases a.archive_cases draws c o s with ⟨-, e, harchive⟩ | ⟨hbegins, -⟩ | ⟨hbegins, -⟩
      | ⟨hbegins, -⟩
    · exact ⟨e, harchive⟩
    · exact absurd hbegins.2 hhas
    · exact absurd hbegins.2 hhas
    · exact absurd hbegins.2 hhas

end Archiver

namespace Sample

/-- Draws whose two nonces are two apart. -/
def nearDraws : Draws :=
  { draws with metadataNonce := ⟨List.replicate 11 0 ++ [2], rfl⟩ }

end Sample

namespace Archiver

/-- Three bytes in chunks of one are four chunks with the empty one at the end.  The label
    shares its nonce with the third of them, and with no other. -/
theorem nonces_met_of_four_chunks :
    (∃ receipt t, Sample.rotated.archive Sample.nearDraws Sample.content { encrypt := true }
      Sample.stores = (.ok receipt, t)) ∧
    Frames.Apart Sample.nearDraws.contentNonce Sample.nearDraws.metadataNonce 4
      (Sample.rotated.sealingsFor Sample.nearDraws Sample.content) ∧
    ¬ ((Sample.rotated.sealingsFor Sample.nearDraws Sample.content).map
      Frames.Sealing.nonce).Nodup ∧
    ∃! i, i < 4 ∧ ((Sample.rotated.sealingsFor Sample.nearDraws Sample.content).map
      Frames.Sealing.nonce)[i]? = some Sample.nearDraws.metadataNonce := by
  have hvouched : Sample.rotated.IsVouched { encrypt := true } Sample.content := by
    refine ⟨by decide, fun n hn => ?_, fun hrefuses => nomatch hrefuses.1⟩
    cases hn
    rfl
  have hbegins : Sample.rotated.Begins Sample.content { encrypt := true }
      Sample.stores.records := ⟨rfl, fun _ _ => trivial⟩
  obtain ⟨verify, records, harchive, -⟩ := Sample.rotated.archive_of_vouched Sample.nearDraws
    (s := Sample.stores) hbegins rfl hvouched
  obtain ⟨apart, -⟩ := nonces_apart_unless_met Sample.rotated Sample.nearDraws Sample.content
    { encrypt := true } Sample.stores rfl (by decide)
  have hmeets : Sample.nearDraws.contentNonce.Meets Sample.nearDraws.metadataNonce 4 := by decide
  exact ⟨⟨_, _, harchive⟩, apart, fun hnodup => apart.nonces.mp hnodup hmeets, apart.met hmeets⟩

end Archiver

end ContentVault
