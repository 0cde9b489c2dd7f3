import ContentVault.Archiver.Archiving
import ContentVault.Proofs.Cipher.Frames
import ContentVault.Proofs.Derivation.Keys
import ContentVault.Proofs.Store.Blobs

/-! # Content on its way into a blob

    Both branches of the tee see the whole stream, or nothing of it if the tee
    cannot have its buffer (`seen`).  So what storing content comes to can be
    said in terms of bytes and an ending alone (`storeContent_eq`): a failure of
    the stream, a blob of the wrong length, or a new blob, together with the
    digest and the number of the bytes unless the producer crashed. -/

namespace ContentVault.Archiver

open ReaderView

/-! ## Keys -/

/-- The key for new content, if it is to be encrypted. -/
def keyFor (a : Archiver) (draws : Draws) (o : ArchiveChoices) : Option Key :=
  if o.encrypt then some (a.keys.activeParameters.key a.secret.bytes draws.salt) else none

theorem keyFor_plain {a : Archiver} {draws : Draws} {o : ArchiveChoices}
    (h : o.encrypt = false) : a.keyFor draws o = none := by
  rw [keyFor, h, if_neg Bool.false_ne_true]

theorem keyFor_encrypted {a : Archiver} {draws : Draws} {o : ArchiveChoices}
    (h : o.encrypt = true) :
    a.keyFor draws o = some (a.keys.activeParameters.key a.secret.bytes draws.salt) := by
  rw [keyFor, if_pos h]

theorem isSome_keyFor (a : Archiver) (draws : Draws) (o : ArchiveChoices) :
    (a.keyFor draws o).isSome = o.encrypt := by
  cases hencrypt : o.encrypt with
  | false => rw [keyFor_plain hencrypt, Option.isSome_none]
  | true => rw [keyFor_encrypted hencrypt, Option.isSome_some]

theorem salt_long (draws : Draws) : leastSaltLength ≤ draws.salt.length := by
  rw [draws.length_salt]
  decide

/-- Whether new content gets its key, if it is to be encrypted: the derivation
    function takes the secret, with every salt that may be drawn. -/
def HasKey (a : Archiver) (o : ArchiveChoices) : Prop :=
  o.encrypt = true → ∀ draws : Draws, a.keys.activeParameters.Takes a.secret.bytes draws.salt

/-- A sound key table has a key for new content, unless the derivation function
    does not take the secret. -/
theorem contentKey_eq {a : Archiver} (draws : Draws) {o : ArchiveChoices} (h : a.HasKey o) :
    a.contentKey draws o = .ok (a.keyFor draws o) := by
  unfold contentKey
  cases hencrypt : o.encrypt with
  | false =>
      rw [keyFor_plain hencrypt, if_neg Bool.false_ne_true]
  | true =>
      rw [keyFor_encrypted hencrypt, if_pos rfl,
        a.keys.derive_eq a.keys.get?_active (salt_long draws) (h hencrypt draws)]
      rfl

/-- If it does not, that is the error, whatever is drawn. -/
theorem contentKey_refused {a : Archiver} {o : ArchiveChoices} (h : ¬a.HasKey o) :
    ∃ reason, ∀ draws, a.contentKey draws o = .error (.keyDerivationFailed reason) := by
  obtain ⟨hencrypt, hnot⟩ := Classical.not_imp.mp h
  obtain ⟨drawn, hnot⟩ := Classical.not_forall.mp hnot
  obtain ⟨reason, hreason⟩ := a.keys.derive_refused a.keys.get?_active (salt_long drawn) hnot
  refine ⟨reason, fun draws => ?_⟩
  have hlength : draws.salt.length = drawn.salt.length :=
    draws.length_salt.trans drawn.length_salt.symm
  rw [contentKey, hencrypt, if_pos rfl, a.keys.derive_error_congr hlength hreason]
  rfl

/-- New content gets its key exactly if the function takes the secret. -/
theorem contentKey_eq_ok_iff {a : Archiver} {draws : Draws} {o : ArchiveChoices}
    {key : Option Key} :
    a.contentKey draws o = .ok key ↔ a.HasKey o ∧ key = a.keyFor draws o := by
  by_cases h : a.HasKey o
  · rw [contentKey_eq draws h]
    exact ⟨fun hkey => ⟨h, (Except.ok.inj hkey).symm⟩, fun hkey => congrArg _ hkey.2.symm⟩
  · obtain ⟨reason, hreason⟩ := contentKey_refused h
    rw [hreason draws]
    exact ⟨(nomatch ·), fun hkey => absurd hkey.1 h⟩

/-- Whether an archiver has what it takes to archive content: a buffer for the
    tee, and the key. -/
structure IsEquipped (a : Archiver) (o : ArchiveChoices) : Prop where
  buffer : Tee.Bufferable a.branchBuffer
  key : a.HasKey o

/-! ## Storing -/

/-- The bytes of the blob that content is stored in. -/
def blobBytes (a : Archiver) (draws : Draws) (key : Option Key) (data : Bytes) : Bytes :=
  match key with
  | some key => Frames.frameBytes a.cipher.aead key draws.contentNonce a.chunkSize data
  | none => data

/-- The length that the new blob has to have: that of the content, unless it is
    encrypted. -/
def blobLength (key : Option Key) (length : Option UInt64) : Option UInt64 :=
  if key.isSome then none else length

/-- The store without a trace of a blob being written. -/
def discarded (draws : Draws) (s : BlobStore) : BlobStore :=
  ⟨s.root.erase (BlobStore.temporaryName draws.blob)⟩

/-- The store with a new blob. -/
def added (draws : Draws) (s : BlobStore) (bytes : Bytes) : BlobStore :=
  ⟨(discarded draws s).root.set draws.blob.text (.file bytes draws.now)⟩

/-- Where no blob of this name is being written, there is nothing to discard. -/
theorem discarded_of_unwritten {draws : Draws} {s : BlobStore}
    (h : s.root.get? (BlobStore.temporaryName draws.blob) = none) : discarded draws s = s := by
  rw [discarded, Directory.erase_of_get? h]

theorem added_of_unwritten {draws : Draws} {s : BlobStore}
    (h : s.root.get? (BlobStore.temporaryName draws.blob) = none) (bytes : Bytes) :
    added draws s bytes = ⟨s.root.set draws.blob.text (.file bytes draws.now)⟩ := by
  rw [added, discarded_of_unwritten h]

variable {σ : Type} [ByteReader σ] [ReaderView σ]

/-- What putting a stream into a new blob comes to. -/
theorem putContent_eq (a : Archiver) (draws : Draws) (key : Option Key) (length : Option UInt64)
    (stream : σ) (s : BlobStore) :
    a.putContent draws key length stream s =
      match ending stream with
      | some e => (.error (.ofIo e), discarded draws s)
      | none =>
        match BlobStore.checkLength (blobLength key length) (content stream).length with
        | .error e => (.error e, discarded draws s)
        | .ok () => (.ok draws.blob.text,
            added draws s (a.blobBytes draws key (content stream))) := by
  cases key with
  | none =>
      show s.put draws.blob draws.now stream length = _
      rw [BlobStore.put_eq]
      rfl
  | some key =>
      show s.put draws.blob draws.now
        (Frames.encrypt a.cipher.aead key draws.contentNonce a.chunkSize stream) none = _
      rw [BlobStore.put_eq, Frames.ending_encrypt]
      cases hend : ending stream with
      | some e => rfl
      | none =>
          rw [Frames.content_encrypt hend]
          rfl

/-- What digesting a stream comes to. -/
theorem digestContent_eq (a : Archiver) (stream : σ) :
    a.digestContent stream =
      match ending stream with
      | none => .ok (Fingerprint.ofBytes a.hashAlgorithm (content stream))
      | some e => .error (.ofIo e) := DigestTap.drain_eq stream a.hashAlgorithm

omit [ByteReader σ] [ReaderView σ] in
/-- An error explains itself. -/
theorem explaining_self (e : VaultFailure) : VaultFailure.explaining e e = e := by
  unfold VaultFailure.explaining
  exact ite_self e

/-- Content that was stored: where, and what was seen of it. -/
def storedAs (a : Archiver) (draws : Draws) (data : Bytes) : StoredContent :=
  ⟨draws.blob.text, Fingerprint.ofBytes a.hashAlgorithm data, data.length⟩

/-- What the branches of the tee see of content: all of it, or nothing if there
    can be no buffer. -/
def seen (a : Archiver) (c : OfferedContent) : Source :=
  if Tee.Bufferable a.branchBuffer then c.stream else { data := [] }

theorem seen_of_bufferable {a : Archiver} (h : Tee.Bufferable a.branchBuffer)
    (c : OfferedContent) : a.seen c = c.stream := if_pos h

theorem seen_of_not_bufferable {a : Archiver} (h : ¬Tee.Bufferable a.branchBuffer)
    (c : OfferedContent) : a.seen c = { data := [] } := if_neg h

/-- What is known of content whose blob is complete; the count is missing if the
    producer crashed. -/
def countedAs (a : Archiver) (draws : Draws) (data : Bytes) : Attempt StoredContent :=
  if Tee.Bufferable a.branchBuffer then .ok (a.storedAs draws data)
  else .error (.ofProducer .crashed)

/-- What the branches of the tee see, and what the producer comes to if that
    ends cleanly. -/
theorem split_seen (a : Archiver) (c : OfferedContent) :
    ∃ toDigest toBlob passed,
      Tee.split c.stream a.branchBuffer copyBuffer = (toDigest, toBlob, passed) ∧
      content toDigest = (a.seen c).data ∧ ending toDigest = (a.seen c).failure ∧
      content toBlob = (a.seen c).data ∧ ending toBlob = (a.seen c).failure ∧
      ((a.seen c).failure = none →
        passed = if Tee.Bufferable a.branchBuffer then .ok (a.seen c).data.length
          else .error .crashed) := by
  by_cases hbuffer : Tee.Bufferable a.branchBuffer
  · have hroom : 0 < copyBuffer := by decide
    obtain ⟨toDigest, toBlob, hsplit, hdigest, hdigestEnd, hblob, hblobEnd⟩ :=
      Tee.split_eq c.stream hbuffer hroom
    rw [Source.content_eq] at hsplit hdigest hblob
    rw [Source.ending_eq] at hsplit hdigestEnd hblobEnd
    rw [seen_of_bufferable hbuffer]
    refine ⟨_, _, _, hsplit, hdigest, hdigestEnd, hblob, hblobEnd, fun hclean => ?_⟩
    rw [hclean, if_pos hbuffer]
    rfl
  · rw [seen_of_not_bufferable hbuffer]
    exact ⟨_, _, _, Tee.split_crashed c.stream hbuffer copyBuffer, rfl, rfl, rfl, rfl,
      fun _ => (if_neg hbuffer).symm⟩

/-- What storing content comes to. -/
theorem storeContent_eq (a : Archiver) (draws : Draws) (key : Option Key)
    (c : OfferedContent) (s : BlobStore) :
    a.storeContent draws key c s =
      match (a.seen c).failure with
      | some e => (.error (.ofIo e), discarded draws s)
      | none =>
        match BlobStore.checkLength (blobLength key c.length) (a.seen c).data.length with
        | .error e => (.error e, discarded draws s)
        | .ok () => (a.countedAs draws (a.seen c).data,
            added draws s (a.blobBytes draws key (a.seen c).data)) := by
  obtain ⟨toDigest, toBlob, passed, hsplit, hdigest, hdigestEnd, hblob, hblobEnd, hpassed⟩ :=
    a.split_seen c
  unfold storeContent
  rw [hsplit]
  simp only [putContent_eq, digestContent_eq, hdigest, hdigestEnd, hblob, hblobEnd]
  cases hfailure : (a.seen c).failure with
  | some e =>
      show (Except.error (VaultFailure.explaining (.ofIo e) (.ofIo e)), discarded draws s) = _
      rw [explaining_self]
  | none =>
      rw [hpassed hfailure]
      cases hcheck : BlobStore.checkLength (blobLength key c.length) (a.seen c).data.length with
      | error e => rfl
      | ok u =>
          simp only [countedAs]
          by_cases hbuffer : Tee.Bufferable a.branchBuffer
          · rw [if_pos hbuffer, if_pos hbuffer]
            rfl
          · rw [if_neg hbuffer, if_neg hbuffer]

end ContentVault.Archiver
