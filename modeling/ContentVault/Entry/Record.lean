import ContentVault.Json.Record
import ContentVault.Time.Rfc3339

/-!
# Archive entries

What is kept about archived content: an `EntryContent` says where the blob is and all that it takes to turn it back
into the content, and an `EntryRecord` follows the entry through its life. Of a record, only whether it was restored
and its notarization change after it was made. Both are written in JSON, byte strings in Base64.
-/

namespace ContentVault

/-- How a blob was made from its content. The digest is that of the content, not of the blob. -/
structure EntryContent where
  contentRef : String
  hashAlgorithm : String
  hash : String
  encrypted : Bool
  keyVersion : UInt32
  kdfAlgorithm : String
  cipher : Option String
  salt : Bytes
  nonce : Option Bytes
deriving DecidableEq, Repr, Inhabited

namespace EntryContent

/-- The description in JSON. -/
def toJson (c : EntryContent) : Json :=
  Json.record [("content_ref_id", some (.string c.contentRef)), ("hash_algorithm", some (.string c.hashAlgorithm)),
    ("hash", some (.string c.hash)), ("encrypted", some (.bool c.encrypted)),
    ("key_version", some (.ofNat c.keyVersion.toNat)), ("kdf_algorithm", some (.string c.kdfAlgorithm)),
    ("cipher", c.cipher.map .string), ("salt", some (.ofBytes c.salt)), ("nonce", c.nonce.map .ofBytes)]

/-- Reads a description. -/
def read? (value : Json) : Option EntryContent := do
  let fields ← Json.fields? ["content_ref_id", "hash_algorithm", "hash", "encrypted", "key_version", "kdf_algorithm",
    "cipher", "salt", "nonce"] value
  return {
    contentRef := ← fields.required "content_ref_id" Json.string?
    hashAlgorithm := ← fields.required "hash_algorithm" Json.string?
    hash := ← fields.required "hash" Json.string?
    encrypted := ← fields.required "encrypted" Json.bool?
    keyVersion := ← fields.required "key_version" Json.word32?
    kdfAlgorithm := ← fields.required "kdf_algorithm" Json.string?
    cipher := ← fields.optional "cipher" Json.string?
    salt := ← fields.required "salt" Json.bytes?
    nonce := ← fields.withDefault "nonce" none (Json.nullable? Json.bytes?) }

end EntryContent

/-- The life of an archive entry. -/
structure EntryRecord where
  id : String
  archived : Timestamp
  restored : Bool
  metadata : Bytes
  metadataNonce : Option Bytes
  notarization : Option String
deriving DecidableEq

namespace EntryRecord

/-- A new record. -/
def new (id : String) (now : Timestamp) (metadata : Bytes) (metadataNonce : Option Bytes) : EntryRecord :=
  ⟨id, now, false, metadata, metadataNonce, none⟩

/-- Whether the entry was notarized. -/
def hasTransaction (r : EntryRecord) : Bool := r.notarization.isSome

/-- A record in JSON. -/
def toJson (r : EntryRecord) : Json :=
  Json.record [("id", some (.string r.id)), ("archive_timestamp", some (.string r.archived.text)),
    ("restored", some (.bool r.restored)), ("metadata_blob", some (.ofBytes r.metadata)),
    ("metadata_nonce", r.metadataNonce.map .ofBytes), ("notarization_tx_id", r.notarization.map .string)]

/-- Reads a moment. -/
def readTime? (value : Json) : Option Timestamp := value.string? >>= Timestamp.readRelaxed?

/-- Reads a record. -/
def read? (value : Json) : Option EntryRecord := do
  let fields ← Json.fields? ["id", "archive_timestamp", "restored", "metadata_blob", "metadata_nonce",
    "notarization_tx_id"] value
  return {
    id := ← fields.required "id" Json.string?
    archived := ← fields.required "archive_timestamp" readTime?
    restored := ← fields.required "restored" Json.bool?
    metadata := ← fields.required "metadata_blob" Json.bytes?
    metadataNonce := ← fields.withDefault "metadata_nonce" none (Json.nullable? Json.bytes?)
    notarization := ← fields.optional "notarization_tx_id" Json.string? }

end EntryRecord

/-- An archive entry: its record and how its blob was made. -/
structure Entry where
  record : EntryRecord
  content : EntryContent
deriving DecidableEq

end ContentVault
