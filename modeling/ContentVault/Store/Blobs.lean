import ContentVault.Store.Basic
import ContentVault.Store.Directory
import ContentVault.Stream.Digesting

/-!
# Blobs as files

Each blob is a file in one directory, named by a UUID. A new blob is written to a file with a name that no blob has,
and only when it is complete is it given its own name; so no reader ever sees a part of a blob. A blob is looked up
under the one spelling of its UUID, whatever spelling it is asked for by; what is not a UUID is not looked up at all, so
no reference leads out of the directory.
-/

namespace ContentVault

/-- A directory of blobs. -/
structure BlobStore where
  root : Directory

/-- The operations on files that it takes to store a blob. -/
inductive FileStep where
  | create
  | write (index : Nat)
  | flush
  | sync
  | rename
deriving DecidableEq, Repr

/-- What the file system has against the operations that store a blob. -/
abbrev Refusals := FileStep → Option IoError

namespace BlobStore

/-- The store without blobs. -/
def empty : BlobStore := ⟨.empty⟩

/-! ## References -/

/-- The error for a reference to no blob. -/
def unknown (ref : String) : VaultFailure := .notFound ("blob " ++ ref)

/-- The name of the file that a reference refers to. -/
def fileName? (ref : String) : Option String := (Uuid.parse? ref).map Uuid.text

/-- The name under which a blob is written. -/
def temporaryName (id : Uuid) : String := "." ++ id.text ++ ".tmp"

/-! ## Storing -/

/-- The first of so many writes that is refused, and how. -/
def firstRefused? (refuse : Refusals) (count : Nat) : Option (Nat × IoError) :=
  (List.range count).findSome? fun i => (refuse (.write i)).map fun e => (i, e)

/-- Copies a stream: what is written of it, and what stops that before the end. -/
def copied {σ : Type} [ByteReader σ] (refuse : Refusals) (stream : σ) : Bytes × Option IoError :=
  let (chunks, ending, _) := ByteReader.drain stream copyBuffer []
  let chunks := chunks.reverse
  match firstRefused? refuse chunks.length with
  | some (count, e) => ((chunks.take count).flatten, some e)
  | none => (chunks.flatten, ending)

/-- Checks the length of what was written. -/
def checkLength (length : Option UInt64) (written : Nat) : Attempt Unit :=
  match length with
  | none => .ok ()
  | some expected =>
    if written = expected.toNat then .ok ()
    else .error (.storage ("expected " ++ toString expected ++ " bytes, received " ++ toString written))

/-- Writes a stream to a new file. -/
def writeFile {σ : Type} [ByteReader σ] (refuse : Refusals) (d : Directory) (name : String) (now : Timestamp)
    (stream : σ) (length : Option UInt64) : Attempt Unit × Directory :=
  match refuse .create with
  | some e => (.error (.ofIo e), d)
  | none =>
    let (bytes, stop) := copied refuse stream
    let d := d.set name (.file bytes now)
    match stop <|> refuse .flush <|> refuse .sync with
    | some e => (.error (.ofIo e), d)
    | none => (checkLength length bytes.length, d)

/-- Stores a stream, as far as the file system lets it. -/
def putUnless {σ : Type} [ByteReader σ] (refuse : Refusals) (s : BlobStore) (id : Uuid) (now : Timestamp)
    (stream : σ) (length : Option UInt64) : Attempt String × BlobStore :=
  let name := temporaryName id
  match writeFile refuse s.root name now stream length with
  | (.error e, d) => (.error e, ⟨d.erase name⟩)
  | (.ok (), d) =>
    match refuse .rename with
    | some e => (.error (.ofIo e), ⟨d⟩)
    | none => (.ok id.text, ⟨d.rename name id.text⟩)

/-- Stores a stream. -/
def put {σ : Type} [ByteReader σ] (s : BlobStore) (id : Uuid) (now : Timestamp) (stream : σ)
    (length : Option UInt64) : Attempt String × BlobStore :=
  putUnless (fun _ => none) s id now stream length

/-! ## Reading and deleting -/

/-- What is said to a read or a deletion of a directory. -/
def isFolder : IoError := .system .isDirectory "Is a directory (os error 21)"

/-- The bytes of a blob. A directory can be opened in place of a blob but not be read. -/
def get (s : BlobStore) (ref : String) : Attempt Source :=
  match fileName? ref >>= s.root.get? with
  | some (.file bytes _) => .ok { data := bytes }
  | some .folder => .ok { data := [], failure := some isFolder }
  | none => .error (unknown ref)

/-- Deletes a blob. -/
def delete (s : BlobStore) (ref : String) : Attempt Unit × BlobStore :=
  match fileName? ref with
  | none => (.error (unknown ref), s)
  | some name =>
    match s.root.get? name with
    | some (.file _ _) => (.ok (), ⟨s.root.erase name⟩)
    | some .folder => (.error (.ofIo isFolder), s)
    | none => (.error (unknown ref), s)

/-- An entry of the directory as a blob: a file whose name is some spelling of a UUID. -/
def blobInfo? : String × Node → Option FoundBlob
  | (name, .file _ created) => if (Uuid.parse? name).isSome then some ⟨name, created⟩ else none
  | (_, .folder) => none

/-- All blobs. -/
def list (s : BlobStore) : List FoundBlob := s.root.entries.filterMap blobInfo?

instance : BlobStorage BlobStore where
  put := put
  get := get
  delete := delete
  list s := .ok s.list

end BlobStore

end ContentVault
