import ContentVault.Aead.Basic
import ContentVault.Failure
import ContentVault.Text.Base64
import ContentVault.Text.Letters

/-!
# The master secret

All keys of a vault come from one secret. It has a least length, it can be given in the environment in Base64, and it
does not show itself.
-/

namespace ContentVault

/-- The length of the shortest master secret. -/
def leastSecretLength : Nat := 16

/-- The secret that all keys of a vault are derived from. -/
structure RootSecret where
  bytes : Bytes
  long : leastSecretLength ≤ bytes.length

namespace RootSecret

/-- The byte string as a secret, if it is long enough. -/
def ofBytes (bytes : Bytes) : Attempt RootSecret :=
  if h : leastSecretLength ≤ bytes.length then .ok ⟨bytes, h⟩
  else .error (.invalidSecret ("expected at least 16 bytes, got " ++ toString bytes.length))

/-- The secret in an environment variable, if it is set: Base64, with blanks around it or without. -/
def ofVariable (name : String) (value : Option String) : Attempt RootSecret :=
  match value with
  | none => .error (.invalidSecret ("environment variable " ++ name ++ " is not set"))
  | some text =>
    match Text.Base64.decode? (Text.trim text) with
    | none => .error (.invalidSecret (name ++ " is not base64: malformed text"))
    | some bytes => ofBytes bytes

/-- What a log shows of a secret. -/
def redacted (_ : RootSecret) : String := "MasterSecret([REDACTED])"

end RootSecret

/-- What a log shows of a key. -/
def Key.redacted (_ : Key) : String := "DerivedKey([REDACTED])"

end ContentVault
