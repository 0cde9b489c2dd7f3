import ContentVault.Archiver.Basic
import ContentVault.Archiver.Sink
import ContentVault.Entry.Content
import ContentVault.Store.Basic
import ContentVault.Stream.Digesting
import ContentVault.Stream.Tee

/-!
# Restoring

Content is restored by what its record says: the cipher, the nonces and the salt, the key version and its derivation,
the digest. The bytes go to the sink as they are decrypted, so a sink may have received a part of them when restoring
fails; the entry is marked as restored only after everything went well and the sink has everything written.
-/

namespace ContentVault

/-- What comes back when content was restored. -/
structure RestoreReceipt where
  id : String
  /-- The number of bytes that went to the sink. -/
  bytes : Nat
  /-- The digest of those bytes, if it was to be verified. -/
  hash : Option Fingerprint
  metadata : ContentLabel
deriving DecidableEq, Repr, Inhabited

/-- What it takes to decrypt content. -/
structure Unsealing where
  key : Key
  cipher : String
  nonce : Bytes

/-- The content of a blob: the blob as it is stored, or what it is decrypted to. -/
inductive Plaintext where
  | stored (blob : Source)
  | opened (stream : Relay)

namespace Archiver

variable {β : Type} [BlobStorage β]

/-! ## The steps -/

/-- What it takes to decrypt content, if it is encrypted. -/
def unsealing (a : Archiver) (id : String) (c : EntryContent) : Attempt (Option Unsealing) :=
  if c.encrypted then do
    let params ← a.keys.parameters c.keyVersion
    if params.algorithm.id ≠ c.kdfAlgorithm then
      .error (.unsupportedAlgorithm (String.join ["key version ", toString c.keyVersion, " is registered for ",
        params.algorithm.id, ", record says ", c.kdfAlgorithm]))
    else
      match c.cipher, c.nonce with
      | none, _ => .error (.malformedMetadata id "encrypted content without a cipher id")
      | some _, none => .error (.malformedMetadata id "encrypted content without a nonce")
      | some cipher, some nonce => do
        let key ← a.keys.derive a.secret c.salt c.keyVersion
        return some ⟨key, cipher, nonce⟩
  else .ok none

/-- The metadata of a record as bytes, decrypted if need be. -/
def labelBytes (r : EntryRecord) : Option Unsealing → Attempt Bytes
  | none => .ok r.metadata
  | some d =>
    match r.metadataNonce with
    | none => .error (.malformedMetadata r.id "encrypted metadata without a nonce")
    | some nonce => Cipher.openLabel d.cipher d.key nonce r.metadata

/-- The metadata of a record. -/
def openLabel (r : EntryRecord) (d : Option Unsealing) : Attempt ContentLabel := do
  let bytes ← labelBytes r d
  match ContentLabel.ofBytes? bytes with
  | some metadata => .ok metadata
  | none => .error (.malformedMetadata r.id "metadata blob is not valid JSON: malformed document")

/-- The content of a blob, decrypted if need be. -/
def plaintext (blob : Source) : Option Unsealing → Attempt Plaintext
  | none => .ok (.stored blob)
  | some d => (Frames.decryptRecorded d.cipher d.key d.nonce blob).map .opened

/-- Reads the content of an entry: its metadata, its plaintext, and how its digest is verified. -/
def openEntry (a : Archiver) (e : Entry) (blobs : β) : Attempt (ContentLabel × Plaintext × DigestAlgorithm) := do
  let algorithm ← DigestAlgorithm.ofId e.content.hashAlgorithm
  let d ← a.unsealing e.record.id e.content
  let metadata ← openLabel e.record d
  let blob ← BlobStorage.get blobs e.content.contentRef
  let content ← plaintext blob d
  return (metadata, content, algorithm)

/-! ## Giving it to the sink -/

section

variable {σ : Type} [ByteReader σ]

/-- Copies a stream into a sink: the bytes that arrive, and what went wrong. -/
def copy (stream : σ) (sink : Sink) : Bytes × Option IoError :=
  let (bytes, ending) := ByteReader.readToEnd stream copyBuffer
  sink.take bytes ending

/-- Copies a stream into a sink and digests it, each on its branch of a tee; if both branches failed, the error is the
one that explains the other. -/
def copyDigested (a : Archiver) (stream : σ) (sink : Sink) (algorithm : DigestAlgorithm) :
    Attempt Fingerprint × Bytes :=
  let (toSink, toDigest, passed) := Tee.split stream a.branchBuffer copyBuffer
  let (received, failure) := copy toSink sink
  match failure, DigestTap.drain { inner := toDigest, algorithm } with
  | none, .ok hash =>
    match passed with
    | .ok _ => (.ok hash, received)
    | .error e => (.error (.ofProducer e), received)
  | none, .error f => (.error f, received)
  | some e, .ok _ => (.error (.ofIo e), received)
  | some e, .error f => (.error (.explaining (.ofIo e) f), received)

/-- Gives a stream to a sink. If it is to be verified, its digest has to be the recorded one. -/
def deliver (a : Archiver) (stream : σ) (sink : Sink) (verify : Bool) (algorithm : DigestAlgorithm)
    (recorded : String) : Attempt (Option Fingerprint) × Bytes :=
  if verify then
    match a.copyDigested stream sink algorithm with
    | (.error error, received) => (.error error, received)
    | (.ok hash, received) =>
      if hash.isSpelled recorded then (.ok (some hash), received)
      else (.error (.hashMismatch recorded hash.value), received)
  else
    match copy stream sink with
    | (received, some error) => (.error (.ofIo error), received)
    | (received, none) => (.ok none, received)

/-- `deliver`, for the plaintext of a blob. -/
def deliverPlaintext (a : Archiver) (content : Plaintext) (sink : Sink) (verify : Bool)
    (algorithm : DigestAlgorithm) (recorded : String) : Attempt (Option Fingerprint) × Bytes :=
  match content with
  | .stored blob => a.deliver blob sink verify algorithm recorded
  | .opened stream => a.deliver stream sink verify algorithm recorded

end

/-- Gives the content of an entry to a sink: the receipt, and what the sink received. -/
def deliverEntry (a : Archiver) (e : Entry) (sink : Sink) (verify : Bool) (blobs : β) :
    Attempt RestoreReceipt × Bytes :=
  match a.openEntry e blobs with
  | .error error => (.error error, [])
  | .ok (metadata, content, algorithm) =>
    match a.deliverPlaintext content sink verify algorithm e.content.hash with
    | (.error error, received) => (.error error, received)
    | (.ok hash, received) => (.ok ⟨e.record.id, received.length, hash, metadata⟩, received)

/-! ## Restoring -/

/-- Restores the content under an id: the receipt, what the sink received, and the records afterwards. -/
def restore (a : Archiver) (id : String) (sink : Sink) (verify : Bool) (s : Stores β) :
    Attempt RestoreReceipt × Bytes × Stores β :=
  match s.records.find id with
  | .error e => (.error e, [], s)
  | .ok none => (.error (.notFound id), [], s)
  | .ok (some entry) =>
    match a.deliverEntry entry sink verify s.blobs with
    | (.error e, received) => (.error e, received, s)
    | (.ok report, received) =>
      match sink.lastFlushFailure with
      | some e => (.error (.ofIo e), received, s)
      | none =>
        match s.records.noteRestored id with
        | .error e => (.error e, received, s)
        | .ok records => (.ok report, received, { s with records })

end Archiver

end ContentVault
