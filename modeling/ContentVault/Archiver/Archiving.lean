import ContentVault.Archiver.Basic
import ContentVault.Archiver.Choices
import ContentVault.Entry.Content
import ContentVault.Store.Basic
import ContentVault.Stream.Digesting
import ContentVault.Stream.Tee

/-!
# Archiving

Content is read once. One branch of the stream is digested, the other goes, encrypted or as it is, into a new blob. Only
when the blob is complete and everything that was said about the content in advance has turned out right is a record
saved, which is what makes the content archived. A blob whose content turns out wrong stays behind without a record, for
the orphan sweep to collect.
-/

namespace ContentVault

/-- Content that has been read and stored. -/
structure StoredContent where
  contentRef : String
  hash : Fingerprint
  /-- The number of bytes that the source delivered. -/
  bytes : Nat
deriving DecidableEq, Repr, Inhabited

namespace Archiver

variable {β : Type} [BlobStorage β]

/-! ## The steps -/

/-- The key for new content, if it is to be encrypted. -/
def contentKey (a : Archiver) (draws : Draws) (o : ArchiveChoices) : Attempt (Option Key) :=
  if o.encrypt then (a.keys.derive a.secret draws.salt a.keys.active).map some else .ok none

/-- Puts a stream of content into a new blob. Encrypted content has another length than the source declares. -/
def putContent {σ : Type} [ByteReader σ] (a : Archiver) (draws : Draws) (key : Option Key) (length : Option UInt64)
    (stream : σ) (blobs : β) : Attempt String × β :=
  match key with
  | some key =>
    let encrypted := Frames.encrypt a.cipher.aead key draws.contentNonce a.chunkSize stream
    BlobStorage.put blobs draws.blob draws.now encrypted none
  | none => BlobStorage.put blobs draws.blob draws.now stream length

/-- The digest of a stream of content. -/
def digestContent {σ : Type} [ByteReader σ] (a : Archiver) (stream : σ) : Attempt Fingerprint :=
  DigestTap.drain { inner := stream, algorithm := a.hashAlgorithm }

/-- Stores content and digests it, each on its branch of a tee. A blob whose content could not be digested is deleted
again; if both branches failed, the error is the one that explains the other. -/
def storeContent (a : Archiver) (draws : Draws) (key : Option Key) (content : OfferedContent) (blobs : β) :
    Attempt StoredContent × β :=
  let (toDigest, toBlob, passed) := Tee.split content.stream a.branchBuffer copyBuffer
  let (stored, blobs) := a.putContent draws key content.length toBlob blobs
  match stored, a.digestContent toDigest with
  | .ok contentRef, .ok hash =>
    match passed with
    | .ok bytes => (.ok ⟨contentRef, hash, bytes⟩, blobs)
    | .error e => (.error (.ofProducer e), blobs)
  | .ok contentRef, .error e => (.error e, (BlobStorage.delete blobs contentRef).2)
  | .error e, .ok _ => (.error e, blobs)
  | .error e, .error f => (.error (.explaining e f), blobs)

/-- Checks the length that a source declared. -/
def checkDeclared (length : Option UInt64) (bytes : Nat) : Attempt Unit :=
  match length with
  | none => .ok ()
  | some expected =>
    if expected.toNat = bytes then .ok ()
    else .error (.storage
      ("source declared " ++ toString expected ++ " bytes but delivered " ++ toString bytes))

/-- Checks the digest, if one is expected and to be checked; tells the stage. -/
def checkExpected (o : ArchiveChoices) (hash : Fingerprint) : Attempt Stage :=
  match o.expectedHash, o.doubleCheck with
  | some expected, true =>
    if hash.isSpelled expected then .ok (.success "verify" 0) else .error (.hashMismatch expected hash.value)
  | _, _ => .ok (.skip "verify")

/-- Checks what was said about content in advance; tells the stage. -/
def checkContent (o : ArchiveChoices) (content : OfferedContent) (stored : StoredContent) : Attempt Stage := do
  checkDeclared content.length stored.bytes
  checkExpected o stored.hash

/-- The record of new content; its metadata is encrypted like the content. -/
def newRecord (a : Archiver) (draws : Draws) (key : Option Key) (content : OfferedContent) : EntryRecord :=
  let plain := content.metadata.toBytes
  match key with
  | some key =>
    .new content.id draws.now (Cipher.sealLabel a.cipher key draws.metadataNonce plain) draws.metadataNonce.bytes
  | none => .new content.id draws.now plain none

/-- The entry of new content. -/
def newEntry (a : Archiver) (draws : Draws) (key : Option Key) (content : OfferedContent) (stored : StoredContent) :
    Entry where
  record := a.newRecord draws key content
  content := {
    contentRef := stored.contentRef
    hashAlgorithm := stored.hash.algorithm
    hash := stored.hash.value
    encrypted := key.isSome
    keyVersion := a.keys.active
    kdfAlgorithm := a.keys.activeParameters.algorithm.id
    cipher := if key.isSome then some a.cipher.id else none
    salt := draws.salt
    nonce := if key.isSome then some draws.contentNonce.bytes else none }

/-- The receipt for new content. -/
def receipt (a : Archiver) (key : Option Key) (content : OfferedContent) (stored : StoredContent)
    (verify : Stage) : ArchiveReceipt where
  id := content.id
  contentRef := stored.contentRef
  hash := stored.hash
  bytes := stored.bytes
  encrypted := key.isSome
  keyVersion := a.keys.active
  stages := [if key.isSome then .success "derive key" 0 else .skip "derive key", .success "store" 0, verify,
    .success "persist metadata" 0]

/-! ## Archiving -/

/-- Archives content. -/
def archive (a : Archiver) (draws : Draws) (content : OfferedContent) (o : ArchiveChoices) (s : Stores β) :
    Attempt ArchiveReceipt × Stores β :=
  match s.records.contains content.id with
  | .error e => (.error e, s)
  | .ok true => (.error (.alreadyArchived content.id), s)
  | .ok false =>
    match a.contentKey draws o with
    | .error e => (.error e, s)
    | .ok key =>
      match a.storeContent draws key content s.blobs with
      | (.error e, blobs) => (.error e, { s with blobs })
      | (.ok stored, blobs) =>
        match checkContent o content stored with
        | .error e => (.error e, { s with blobs })
        | .ok verify =>
          match s.records.save (a.newEntry draws key content stored) with
          | .error e => (.error e, { s with blobs })
          | .ok records => (.ok (a.receipt key content stored verify), ⟨blobs, records⟩)

end Archiver

end ContentVault
