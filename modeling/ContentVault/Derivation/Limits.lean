import ContentVault.Derivation.Argon2
import ContentVault.Derivation.Hkdf

/-!
# Limits of the derivation functions

The derivation functions have limits of their own on their parameters, on the lengths of what goes in and on the
length of the key. The bounds on the parameters are meant to leave out all of them but inputs of four gibibytes.
-/

namespace ContentVault

/-- The length of a derived key. -/
def keyLength : Nat := 32

namespace Hkdf

/-- The longest output: 255 digests. -/
def longestOutput : Nat := 255 * 32

end Hkdf

namespace Argon2

/-- The length of the longest secret and of the longest salt. -/
def longestInput : Nat := 0xffffffff

/-- The reason why the function refuses parameters, if it does. -/
def refusal? (lanes memory passes length : Nat) : Option String :=
  if memory < 8 ∨ memory < 8 * lanes then some "memory cost is too small"
  else if passes < 1 then some "time cost is too small"
  else if lanes < 1 then some "not enough threads"
  else if 0xffffff < lanes then some "too many threads"
  else if length < 4 then some "output is too short"
  else if 0xffffffff < length then some "output is too long"
  else none

/-- The reason why the function refuses a secret and a salt of these lengths, if it does. -/
def inputRefusal? (secret salt : Nat) : Option String :=
  if longestInput < secret then some "password is too long"
  else if salt < 8 then some "salt is too short"
  else if longestInput < salt then some "salt is too long"
  else none

end Argon2

end ContentVault
