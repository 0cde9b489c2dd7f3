import ContentVault.Digest.Blake3
import ContentVault.Digest.Sha256
import ContentVault.Failure
import ContentVault.Text.Hex
import ContentVault.Text.Letters

/-!
# Digests

The digest algorithms that the vault records, and a digest together with the name of its algorithm (`Fingerprint`). A
digest is written in lower-case hexadecimal; one that comes from outside is compared without regard to letter case and
to blanks around it.
-/

namespace ContentVault

/-- A digest algorithm. -/
inductive DigestAlgorithm where
  | sha256
  | blake3
deriving DecidableEq, Repr, Inhabited

namespace DigestAlgorithm

/-- The name kept beside a digest. -/
def id : DigestAlgorithm → String
  | sha256 => "SHA-256"
  | blake3 => "BLAKE3"

/-- All algorithms. -/
def all : List DigestAlgorithm := [sha256, blake3]

/-- The algorithm with this name, in any letter case. -/
def ofId (s : String) : Attempt DigestAlgorithm :=
  match all.find? fun a => Text.equalsIgnoringCase a.id s with
  | some a => .ok a
  | none => .error (.unsupportedAlgorithm ("hash algorithm '" ++ s ++ "'"))

/-- The digest of a byte string. -/
def digest : DigestAlgorithm → Bytes → Bytes
  | sha256 => Sha256.digest
  | blake3 => Blake3.digest

@[simp] theorem length_digest (a : DigestAlgorithm) (data : Bytes) : (a.digest data).length = 32 := by
  cases a <;> simp [digest]

end DigestAlgorithm

/-- A digest and the name of the algorithm that made it. -/
structure Fingerprint where
  algorithm : String
  value : String
deriving DecidableEq, Repr, Inhabited

namespace Fingerprint

/-- The digest of a byte string. -/
def ofBytes (a : DigestAlgorithm) (data : Bytes) : Fingerprint := ⟨a.id, Text.hex (a.digest data)⟩

/-- Whether a text from outside spells this digest. -/
def isSpelled (h : Fingerprint) (expected : String) : Bool :=
  Text.equalsIgnoringCase h.value (Text.trim expected)

end Fingerprint

end ContentVault
