import ContentVault.Entry.Record
import ContentVault.Store.Table

/-!
# The record store

Archive entries are kept in the table, one row each: moments as text, byte strings in Base64 except for the metadata,
truth values as integers. `ofEntry` writes a row and `decode` reads one. An entry is only ever added, never replaced;
afterwards only its notarization and whether it was restored are set. Whoever changes the table by other means may leave
rows in it that cannot be read: to ask for such a row is an error, a list of entries leaves it out.
-/

namespace ContentVault

namespace Row

/-! ## Writing -/

/-- The row of an entry. -/
def ofEntry (e : Entry) : Row
  | .id => .text e.record.id
  | .archiveTimestamp => .text e.record.archived.offsetText
  | .restored => .ofFlag e.record.restored
  | .metadataBlob => .blob e.record.metadata
  | .metadataNonce => .ofOptionalText (e.record.metadataNonce.map Text.Base64.encode)
  | .notarizationTxId => .ofOptionalText e.record.notarization
  | .contentRefId => .text e.content.contentRef
  | .hashAlgorithm => .text e.content.hashAlgorithm
  | .hash => .text e.content.hash
  | .encrypted => .ofFlag e.content.encrypted
  | .keyVersion => .integer e.content.keyVersion.toNat
  | .kdfAlgorithm => .text e.content.kdfAlgorithm
  | .cipher => .ofOptionalText e.content.cipher
  | .salt => .text (Text.Base64.encode e.content.salt)
  | .nonce => .ofOptionalText (e.content.nonce.map Text.Base64.encode)

/-! ## Reading -/

/-- What is in a row, byte strings, the moment and the key version still being as the table keeps them. -/
structure Raw where
  id : String
  archived : String
  restored : Bool
  metadata : Bytes
  metadataNonce : Option String
  notarization : Option String
  contentRef : String
  hashAlgorithm : String
  hash : String
  encrypted : Bool
  keyVersion : Int
  kdfAlgorithm : String
  cipher : Option String
  salt : String
  nonce : Option String
deriving DecidableEq, Repr, Inhabited

/-- Reads the cells of a row. -/
def raw (r : Row) : Attempt Raw := do
  return {
    id := ← (r .id).asText
    archived := ← (r .archiveTimestamp).asText
    restored := ← (r .restored).asFlag
    metadata := ← (r .metadataBlob).asBlob
    metadataNonce := ← (r .metadataNonce).asOptionalText
    notarization := ← (r .notarizationTxId).asOptionalText
    contentRef := ← (r .contentRefId).asText
    hashAlgorithm := ← (r .hashAlgorithm).asText
    hash := ← (r .hash).asText
    encrypted := ← (r .encrypted).asFlag
    keyVersion := ← (r .keyVersion).asInteger
    kdfAlgorithm := ← (r .kdfAlgorithm).asText
    cipher := ← (r .cipher).asOptionalText
    salt := ← (r .salt).asText
    nonce := ← (r .nonce).asOptionalText }

namespace Raw

/-- The moment that a row was archived. -/
def time (r : Raw) : Attempt Timestamp :=
  match Timestamp.readStrict? r.archived with
  | some t => .ok t
  | none => .error (.malformedMetadata r.id "bad archive_timestamp: no date and time")

/-- The key version of a row. -/
def version (r : Raw) : Attempt UInt32 :=
  if 0 ≤ r.keyVersion ∧ r.keyVersion < UInt32.size then .ok (UInt32.ofNat r.keyVersion.toNat)
  else .error (.malformedMetadata r.id ("bad key_version " ++ toString r.keyVersion))

/-- A byte string of a row, which is under the given name there. -/
def bytes (r : Raw) (name value : String) : Attempt Bytes :=
  match Text.Base64.decode? value with
  | some bytes => .ok bytes
  | none => .error (.malformedMetadata r.id (name ++ " is not base64: malformed text"))

/-- A byte string of a row, if it is there. -/
def optionalBytes (r : Raw) (name : String) : Option String → Attempt (Option Bytes)
  | none => .ok none
  | some value => (r.bytes name value).map some

/-- The entry that a row spells. -/
def entry (r : Raw) : Attempt Entry := do
  let archived ← r.time
  let keyVersion ← r.version
  let metadataNonce ← r.optionalBytes "metadata_nonce" r.metadataNonce
  let salt ← r.bytes "salt" r.salt
  let nonce ← r.optionalBytes "nonce" r.nonce
  if r.encrypted && nonce.isNone then
    .error (.malformedMetadata r.id "encrypted content without a nonce")
  else
    .ok {
      record := ⟨r.id, archived, r.restored, r.metadata, metadataNonce, r.notarization⟩
      content := ⟨r.contentRef, r.hashAlgorithm, r.hash, r.encrypted, keyVersion, r.kdfAlgorithm, r.cipher, salt,
        nonce⟩ }

end Raw

/-- The entry in a row. -/
def decode (r : Row) : Attempt Entry := r.raw >>= Raw.entry

end Row

/-- The archive entries. -/
structure RecordStore where
  table : Table

namespace RecordStore

/-- The store without entries. -/
def empty : RecordStore := ⟨.empty⟩

/-- Adds an entry, unless there is one under its id. -/
def save (s : RecordStore) (e : Entry) : Attempt RecordStore :=
  match s.table.insert? (Row.ofEntry e) with
  | some table => .ok ⟨table⟩
  | none => .error (.alreadyArchived e.record.id)

/-- The entry under an id, if there is one. -/
def find (s : RecordStore) (id : String) : Attempt (Option Entry) :=
  match s.table.find? id with
  | none => .ok none
  | some r => r.decode.map some

/-- Whether there is an entry under an id. -/
def contains (s : RecordStore) (id : String) : Attempt Bool := (s.find id).map Option.isSome

/-! ## Changes -/

/-- Puts a cell into the row for an id. -/
def change (s : RecordStore) (id : String) (c : Column) (cell : Cell) : Attempt RecordStore :=
  if s.table.count id = 0 then .error (.notFound id)
  else
    match s.table.update? id c cell with
    | some table => .ok ⟨table⟩
    | none => .error (.database "constraint violated")

/-- Sets the transaction id of an entry. -/
def setTransaction (s : RecordStore) (id tx : String) : Attempt RecordStore :=
  s.change id .notarizationTxId (.text tx)

/-- Notes that an entry was restored. -/
def noteRestored (s : RecordStore) (id : String) : Attempt RecordStore :=
  s.change id .restored (.integer 1)

/-! ## Lists -/

/-- An entry with the text of its moment. -/
abbrev Dated := String × Entry

/-- Whether one entry is listed before another: by the text of its moment, then by its id. -/
def comesBefore (a b : Dated) : Bool :=
  a.1 < b.1 || (a.1 == b.1 && a.2.record.id ≤ b.2.record.id)

/-- A row without a transaction id, if it can be read. -/
def missing? (r : Row) : Option Dated :=
  if r .notarizationTxId == .null then
    match r.raw with
    | .ok raw => raw.entry.toOption.map fun e => (raw.archived, e)
    | .error _ => none
  else none

/-- The entries without a transaction id that can be read, by the text of their moment. -/
def unnotarized (s : RecordStore) : List Entry :=
  ((s.table.rows.filterMap missing?).mergeSort comesBefore).map Prod.snd

/-- The blobs that entries refer to, each once. -/
def references (s : RecordStore) : Attempt (List String) :=
  (s.table.rows.mapM fun (r : Row) => (r .contentRefId).asText).map List.eraseDups

end RecordStore

end ContentVault
