import ContentVault.Cipher.Basic
import ContentVault.Stream.Channel

/-!
# Encrypted streams

Content is encrypted chunk by chunk. Each chunk becomes a frame: the length of what follows the header in four bytes,
one byte that says whether it is the last one, and the encrypted chunk with its tag. All chunks but the last have the
full size; the last one is shorter and may be empty. What comes out is a stream of its own, and a failure of the
plaintext ends it without a last frame.

`Frames.decrypt` is the way back. It gives a chunk only when the chunk is authentic, and demands that the stream end
with the last frame and nowhere else. It fails at the first frame that is not as it should be.
-/

namespace ContentVault

/-- The largest chunk that can be asked for. -/
def largestChunk : Nat := 16 * 1024 * 1024

/-- The size of a chunk of plaintext. -/
structure ChunkSize where
  val : Nat
  pos : 0 < val
  le_max : val ≤ largestChunk
deriving DecidableEq

/-- The possible size next to a number. -/
def ChunkSize.clamp (n : Nat) : ChunkSize where
  val := max 1 (min n largestChunk)
  pos := by omega
  le_max := Nat.max_le.mpr ⟨by decide, Nat.min_le_right ..⟩

@[simp] theorem ChunkSize.clamp_val (c : ChunkSize) : ChunkSize.clamp c.val = c := by
  have := c.pos
  have := c.le_max
  cases c
  simp_all [ChunkSize.clamp, largestChunk]
  omega

namespace Frames

variable {σ : Type} [ByteReader σ]

/-! ## Encrypting -/

/-- One frame around an encrypted chunk. -/
def frame (encrypted : Bytes) (final : Bool) : Bytes :=
  Bytes.bigEndian 4 encrypted.length ++ (if final then 1 else 0) :: encrypted

/-- The frame of a chunk. -/
def encryptChunk (a : Aead) (key : Key) (base : Nonce) (index : Nat) (chunk : Bytes) (final : Bool) : Bytes :=
  frame (a.encrypt key (base.forChunk index) (Cipher.chunkBinding index final) chunk) final

/-- The frames of a plaintext from chunk `index` on. `done` holds those before, latest first. -/
def encryptFrom (a : Aead) (key : Key) (base : Nonce) (size : ChunkSize) (index : Nat) (plain : σ)
    (done : List Message) : List Message :=
  match _h : ByteReader.readFilling plain size.val with
  | (.error e, _) => (.failure e :: done).reverse
  | (.ok chunk, rest) =>
    if _hf : chunk.length < size.val then
      (.chunk (encryptChunk a key base index chunk true) :: done).reverse
    else
      encryptFrom a key base size (index + 1) rest (.chunk (encryptChunk a key base index chunk false) :: done)
termination_by ByteReader.left plain
decreasing_by
  have := ByteReader.left_readFilling _h
  have := size.pos
  omega

/-- The encrypted stream of a plaintext. -/
def encrypt (a : Aead) (key : Key) (base : Nonce) (size : ChunkSize) (plain : σ) : Relay :=
  { messages := encryptFrom a key base size 0 plain [] }

/-! ## Decrypting -/

/-- The length of a header. -/
def headerSize : Nat := 5

/-- The failure that a stage reports for a stream that is not authentic. -/
def broken (reason : String) : IoError := .fault (.integrity reason)

/-- Where a message speaks of a chunk. -/
def inChunk (reason : String) (index : Nat) : IoError := broken (reason ++ " in chunk " ++ toString index)

/-- The length and the mark in a header. -/
def headerFields (header : Bytes) (index : Nat) : Except IoError (Nat × Bool) := do
  let length := Bytes.toNatBE (header.take 4)
  let final ← match header.drop 4 with
    | [0] => .ok false
    | [1] => .ok true
    | _ => .error (inChunk "invalid frame flag" index)
  if tagLength ≤ length ∧ length ≤ largestChunk + tagLength then .ok (length, final)
  else .error (inChunk ("invalid frame length " ++ toString length) index)

/-- Reads the next frame and opens it. -/
def next (a : Aead) (key : Key) (base : Nonce) (index : Nat) (s : σ) : Except IoError (Bytes × Bool) × σ :=
  match ByteReader.readFilling s headerSize with
  | (.error e, s) => (.error e, s)
  | (.ok header, s) =>
    if header = [] then (.error (broken "ciphertext ended before the final chunk"), s)
    else if header.length < headerSize then (.error (broken "truncated frame header"), s)
    else
      match headerFields header index with
      | .error e => (.error e, s)
      | .ok (length, final) =>
        match ByteReader.readFilling s length with
        | (.error e, s) => (.error e, s)
        | (.ok body, s) =>
          if body.length ≠ length then (.error (inChunk "truncated frame" index), s)
          else
            match a.decrypt key (base.forChunk index) (Cipher.chunkBinding index final) body with
            | some chunk => (.ok (chunk, final), s)
            | none => (.error (broken ("chunk " ++ toString index ++ " failed authentication")), s)

/-- A frame is at least its header. -/
theorem left_next {a : Aead} {key : Key} {base : Nonce} {index : Nat} {s s' : σ} {r : Bytes × Bool}
    (h : next a key base index s = (.ok r, s')) : ByteReader.left s' < ByteReader.left s := by
  unfold next at h
  split at h
  · simp at h
  rename_i header s1 hr
  have := ByteReader.left_readFilling hr
  split at h
  · simp at h
  split at h
  · simp at h
  rename_i long
  have : headerSize ≤ header.length := Nat.not_lt.mp long
  have : 0 < headerSize := by decide
  split at h
  · simp at h
  split at h
  · simp at h
  rename_i s2 hb
  have := ByteReader.left_readFilling hb
  split at h
  · simp at h
  split at h <;> simp at h
  obtain ⟨_, rfl⟩ := h
  omega

/-- What has to come after the last frame: nothing. -/
def ending (s : σ) : List Message :=
  match (ByteReader.read s 1).1 with
  | .error e => [.failure e]
  | .ok [] => []
  | .ok _ => [.failure (broken "trailing data after final chunk")]

/-- Puts a chunk in front, if there is anything in it. -/
def consChunk (chunk : Bytes) (messages : List Message) : List Message :=
  if chunk = [] then messages else .chunk chunk :: messages

/-- The chunks of an encrypted stream from chunk `index` on. `done` holds those before, latest first. -/
def decryptFrom (a : Aead) (key : Key) (base : Nonce) (index : Nat) (s : σ) (done : List Message) : List Message :=
  match _h : next a key base index s with
  | (.error e, _) => (.failure e :: done).reverse
  | (.ok (chunk, final), rest) =>
    if final then (consChunk chunk done).reverse ++ ending rest
    else decryptFrom a key base (index + 1) rest (consChunk chunk done)
termination_by ByteReader.left s
decreasing_by exact left_next _h

/-- The plaintext of an encrypted stream. -/
def decrypt (a : Aead) (key : Key) (base : Nonce) (s : σ) : Relay :=
  { messages := decryptFrom a key base 0 s [] }

/-- The plaintext of an encrypted stream, the cipher and the nonce being those that a record keeps. -/
def decryptRecorded (cipher : String) (key : Key) (nonce : Bytes) (s : σ) : Attempt Relay := do
  let a ← CipherSuite.ofId cipher
  let base ← Nonce.ofRecord nonce
  return decrypt a.aead key base s

end Frames

end ContentVault
