import ContentVault.Store.Uuid
import ContentVault.Stream.Reader
import ContentVault.Time.Timestamp

/-!
# Blob storage

What the vault asks of the place where it keeps its blobs. A blob comes as a stream and is given a reference, under
which it is read and deleted. What is random and what is told by a clock, the UUID of a new blob and the moment of its
creation, is handed in.
-/

namespace ContentVault

/-- A blob as a list of blobs shows it. -/
structure FoundBlob where
  contentRef : String
  created : Timestamp
deriving DecidableEq

/-- A place for blobs. -/
class BlobStorage (β : Type) where
  /-- Reads a stream to its end into a new blob and gives its reference. A stream that has not the given length is
  refused. -/
  put : {σ : Type} → [ByteReader σ] → β → Uuid → Timestamp → σ → (length : Option UInt64) →
    Attempt String × β
  /-- The bytes of a blob. -/
  get : β → (ref : String) → Attempt Source
  /-- Deletes a blob. -/
  delete : β → (ref : String) → Attempt Unit × β
  /-- All blobs. -/
  list : β → Attempt (List FoundBlob)

end ContentVault
