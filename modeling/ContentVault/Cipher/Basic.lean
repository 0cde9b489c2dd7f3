import ContentVault.Aead.ChaCha20Poly1305
import ContentVault.Aead.Gcm
import ContentVault.Failure
import ContentVault.Text.Letters

/-!
# Ciphers

The authenticated ciphers that content can be encrypted with, under the names that records keep, and how one artifact
uses the nonces of its key. An artifact draws one base nonce for its content and one for its metadata. Chunk `i` of the
content is encrypted under the base nonce with `i` folded into its last eight bytes, and with its place and whether it
is the last one as associated data; the metadata has associated data of its own.
-/

namespace ContentVault

/-- A cipher. -/
inductive CipherSuite where
  | aes256Gcm
  | chaCha20Poly1305
deriving DecidableEq, Repr, Inhabited

namespace CipherSuite

/-- The name kept in records. -/
def id : CipherSuite → String
  | aes256Gcm => "AES-256-GCM"
  | chaCha20Poly1305 => "CHACHA20-POLY1305"

/-- All ciphers. -/
def all : List CipherSuite := [aes256Gcm, chaCha20Poly1305]

/-- The cipher with this name, in any letter case. -/
def ofId (s : String) : Attempt CipherSuite :=
  match all.find? fun a => Text.equalsIgnoringCase a.id s with
  | some a => .ok a
  | none => .error (.unsupportedAlgorithm ("cipher '" ++ s ++ "'"))

/-- What the cipher does. -/
def aead : CipherSuite → Aead
  | aes256Gcm => Gcm.aead
  | chaCha20Poly1305 => ChaCha20Poly1305.aead

end CipherSuite

namespace Nonce

/-- Reads a nonce that a record keeps. -/
def ofRecord (bytes : Bytes) : Attempt Nonce :=
  match ofBytes? bytes with
  | some n => .ok n
  | none => .error (.integrity ("nonce must be 12 bytes, got " ++ toString bytes.length))

/-- The nonce of a chunk: the base nonce with the chunk's index folded into its last eight bytes. -/
def forChunk (base : Nonce) (index : Nat) : Nonce where
  bytes := base.bytes.take 4 ++ Bytes.xor (base.bytes.drop 4) (Bytes.bigEndian 8 index)
  length_bytes := by simp [base.length_bytes]

end Nonce

namespace Cipher

/-! ## Associated data -/

/-- The associated data of a chunk: its index, and whether it is the last one. -/
def chunkBinding (index : Nat) (final : Bool) : Bytes := Bytes.bigEndian 8 index ++ [if final then 1 else 0]

/-- The associated data of sealed metadata. -/
def labelBinding : Bytes := Bytes.ofString "archivault/metadata/v1"

/-! ## Metadata -/

/-- Metadata, encrypted as a whole. -/
def sealLabel (a : CipherSuite) (key : Key) (nonce : Nonce) (plain : Bytes) : Bytes :=
  a.aead.encrypt key nonce labelBinding plain

/-- The metadata that was sealed. -/
def openLabel (cipher : String) (key : Key) (nonce cipherBytes : Bytes) : Attempt Bytes := do
  let a ← CipherSuite.ofId cipher
  let n ← Nonce.ofRecord nonce
  match a.aead.decrypt key n labelBinding cipherBytes with
  | some plain => .ok plain
  | none => .error (.integrity "metadata failed authentication")

end Cipher

end ContentVault
