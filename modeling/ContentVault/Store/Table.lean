import ContentVault.Store.Cell

/-!
# The table of records

The database has one table with a row for each archive entry. A row has a cell for each column; some columns must not be
empty, and the id is a key: no two rows have the same one. (An empty id is no id, so any number of rows may have that.)
A table carries the proof that its rows keep these rules, and a change that would break them is refused.
-/

namespace ContentVault

/-- The columns of the table. -/
inductive Column where
  | id
  | archiveTimestamp
  | restored
  | metadataBlob
  | metadataNonce
  | notarizationTxId
  | contentRefId
  | hashAlgorithm
  | hash
  | encrypted
  | keyVersion
  | kdfAlgorithm
  | cipher
  | salt
  | nonce
deriving DecidableEq, Repr

namespace Column

/-- All columns, in the order of the table. -/
def all : List Column := [id, archiveTimestamp, restored, metadataBlob, metadataNonce, notarizationTxId, contentRefId,
  hashAlgorithm, hash, encrypted, keyVersion, kdfAlgorithm, cipher, salt, nonce]

/-- The name of a column. -/
def name : Column → String
  | id => "id"
  | archiveTimestamp => "archive_timestamp"
  | restored => "restored"
  | metadataBlob => "metadata_blob"
  | metadataNonce => "metadata_nonce"
  | notarizationTxId => "notarization_tx_id"
  | contentRefId => "content_ref_id"
  | hashAlgorithm => "hash_algorithm"
  | hash => "hash"
  | encrypted => "encrypted"
  | keyVersion => "key_version"
  | kdfAlgorithm => "kdf_algorithm"
  | cipher => "cipher"
  | salt => "salt"
  | nonce => "nonce"

/-- The column with this name. -/
def ofName? (s : String) : Option Column := all.find? fun c => c.name == s

/-- The kind of cell that a column prefers. -/
def kind : Column → CellKind
  | restored | encrypted | keyVersion => .integer
  | metadataBlob => .blob
  | _ => .text

/-- Whether a column must not be empty. -/
def isRequired : Column → Bool
  | id | metadataNonce | notarizationTxId | cipher | nonce => false
  | _ => true

end Column

/-- A row: what is in each column. -/
abbrev Row := Column → Cell

namespace Row

/-- Puts a cell into a column, which keeps it in the kind that it prefers. -/
def set (r : Row) (c : Column) (cell : Cell) : Row := fun d => if d = c then Cell.stored c.kind cell else r d

/-- A row with its cells in the kinds that the columns prefer. -/
def stored (r : Row) : Row := fun c => Cell.stored c.kind (r c)

/-- Whether nothing is empty that must not be. -/
def isComplete (r : Row) : Bool := Column.all.all fun c => !c.isRequired || r c != .null

/-- Whether two rows may stand in one table. -/
def isApart (r s : Row) : Bool := r .id == .null || r .id != s .id

/-- Whether a row is the one for an id. -/
def isFor (id : String) (r : Row) : Bool := r .id == .text id

end Row

/-- Rows that may stand in one table. -/
def AreLawful (rows : List Row) : Prop :=
  (∀ r ∈ rows, r.isComplete = true) ∧ rows.Pairwise fun r s => r.isApart s = true

instance (rows : List Row) : Decidable (AreLawful rows) := by unfold AreLawful; infer_instance

/-- The table, in the order in which the rows came. -/
structure Table where
  rows : List Row
  lawful : AreLawful rows

namespace Table

/-- The table without rows. -/
def empty : Table := ⟨[], by simp [AreLawful]⟩

/-- The table with these rows, if they may stand in one. -/
def ofRows? (rows : List Row) : Option Table := if h : AreLawful rows then some ⟨rows, h⟩ else none

/-- The row for an id. -/
def find? (t : Table) (id : String) : Option Row := t.rows.find? (Row.isFor id)

/-- Adds a row, unless it must not stand in the table. -/
def insert? (t : Table) (r : Row) : Option Table := ofRows? (t.rows ++ [r.stored])

/-- Puts a cell into a column of the row for an id, unless it must not stand there. -/
def update? (t : Table) (id : String) (c : Column) (cell : Cell) : Option Table :=
  ofRows? (t.rows.map fun r => if r.isFor id then r.set c cell else r)

/-- How many rows there are for an id: one or none. -/
def count (t : Table) (id : String) : Nat := (t.rows.filter (Row.isFor id)).length

end Table

end ContentVault
