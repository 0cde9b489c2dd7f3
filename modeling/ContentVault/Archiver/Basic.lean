import ContentVault.Configuration.Basic
import ContentVault.Store.Records
import ContentVault.Store.Uuid

/-!
# The archiver

An `Archiver` moves content between a source, a store of blobs and a store of records. It knows the keys and the
algorithms to use for new content; for old content it follows what the records say. It holds no state: the two stores
are handed to it, and so is what is random or told by a clock, the `Draws` for one piece of content.
-/

namespace ContentVault

/-- The buffer between a stream and its two branches, unless another size is asked for. -/
def usualBuffer : Nat := 8192

/-- The keys and algorithms of a vault. -/
structure Archiver where
  keys : KeyTable
  secret : RootSecret
  cipher : CipherSuite := .aes256Gcm
  chunkSize : ChunkSize := .clamp 65536
  hashAlgorithm : DigestAlgorithm := .sha256
  branchBuffer : Nat := usualBuffer
  branchBuffer_pos : 0 < branchBuffer := by decide

namespace Archiver

/-- Sets the size of the buffer between a stream and its branches; none at all counts as one byte. -/
def withBuffer (a : Archiver) (size : Nat) : Archiver :=
  { a with branchBuffer := max 1 size, branchBuffer_pos := by omega }

/-- The archiver that a configuration asks for. -/
def ofConfig (c : Configuration) (secret : RootSecret) : Attempt Archiver := do
  c.validate
  let keys ← c.keyTable
  let a : Archiver :=
    { keys, secret, cipher := c.cipher, chunkSize := c.chunkSize, hashAlgorithm := c.hashAlgorithm }
  return a.withBuffer c.teeBufferSize.toNat

end Archiver

/-- Where a vault keeps what it holds. -/
structure Stores (β : Type) where
  blobs : β
  records : RecordStore

/-- What is random and what a clock tells while one piece of content is archived. -/
structure Draws where
  /-- The UUID of the blob. -/
  blob : Uuid
  salt : Bytes
  length_salt : salt.length = saltLength
  /-- The base nonce of the content. -/
  contentNonce : Nonce
  metadataNonce : Nonce
  now : Timestamp

end ContentVault
