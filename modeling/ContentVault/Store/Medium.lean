import ContentVault.Store.Blobs

/-!
# Media with little room

A `Medium` is a directory of blobs that may be about to run full. With room for a number of bytes, a new blob is read
up to there and then refused; and what is full is not listed either.
-/

namespace ContentVault

/-- A directory of blobs, and how many bytes there is room for if there is a limit. -/
structure Medium where
  store : BlobStore
  room : Option Nat := none

namespace Medium

/-- The error of a medium that is full. -/
def full : VaultFailure := .storage "disk full"

/-- Reads a stream as far as there is room, and refuses it. -/
def refuse {σ : Type} [ByteReader σ] (stream : σ) (room : Nat) : VaultFailure :=
  match (ByteReader.readFilling stream room).1 with
  | .ok _ => full
  | .error e => .ofIo e

instance : BlobStorage Medium where
  put m id now stream length :=
    match m.room with
    | some room => (.error (refuse stream room), m)
    | none =>
      let (result, store) := m.store.put id now stream length
      (result, { m with store })
  get m ref := m.store.get ref
  delete m ref :=
    let (result, store) := m.store.delete ref
    (result, { m with store })
  list m := if m.room.isSome then .error (.storage "cannot list") else .ok m.store.list

end Medium

end ContentVault
