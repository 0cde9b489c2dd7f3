import ContentVault.Derivation.Parameters
import ContentVault.Derivation.Secret

/-!
# Key versions

Parameters are registered under version numbers. New artifacts use the active version; an artifact records the version
it was made with, and can be restored as long as that version stays registered. All parameters in a table are within
their bounds, and the active version is registered.
-/

namespace ContentVault

/-- Versions and their parameters, by ascending version. -/
abbrev KeyVersions := List (UInt32 × DerivationParameters)

namespace KeyVersions

/-- Registers parameters for a version, in place of those it has. -/
def insert (version : UInt32) (p : DerivationParameters) : KeyVersions → KeyVersions
  | [] => [(version, p)]
  | (v, q) :: rest =>
    if version < v then (version, p) :: (v, q) :: rest
    else if version = v then (version, p) :: rest
    else (v, q) :: insert version p rest

/-- The versions registered in a list; of a repeated one, the last counts. -/
def ofList (entries : List (UInt32 × DerivationParameters)) : KeyVersions :=
  entries.foldl (fun versions (version, p) => insert version p versions) []

/-- The parameters of a version. -/
def get? (versions : KeyVersions) (version : UInt32) : Option DerivationParameters := versions.lookup version

/-- What is wrong with the parameters of the first version that has something wrong. -/
def complaint? (versions : KeyVersions) : Option String := versions.findSome? fun (_, p) => p.complaint?

end KeyVersions

/-- The key versions of a vault. -/
structure KeyTable where
  versions : KeyVersions
  active : UInt32
  sound : versions.complaint? = none
  known : (versions.get? active).isSome

namespace KeyTable

/-- The table with these entries and this active version. -/
def ofEntries (entries : List (UInt32 × DerivationParameters)) (active : UInt32) : Attempt KeyTable :=
  let versions := KeyVersions.ofList entries
  match h : versions.complaint? with
  | some reason => .error (.invalidKdfParameters reason)
  | none =>
    if known : (versions.get? active).isSome then .ok ⟨versions, active, h, known⟩
    else .error (.config ("active key version " ++ toString active ++ " has no registered parameters"))

/-- The table with one version, number 1. -/
def single (p : DerivationParameters) : Attempt KeyTable := ofEntries [(1, p)] 1

/-- The parameters registered for a version. -/
def parameters (t : KeyTable) (version : UInt32) : Attempt DerivationParameters :=
  match t.versions.get? version with
  | some p => .ok p
  | none => .error (.unsupportedAlgorithm ("key version " ++ toString version))

/-- The parameters of the active version. -/
def activeParameters (t : KeyTable) : DerivationParameters := (t.versions.get? t.active).get t.known

/-- The key that a version gives for a salt. -/
def derive (t : KeyTable) (secret : RootSecret) (salt : Bytes) (version : UInt32) : Attempt Key := do
  let p ← t.parameters version
  p.derive secret.bytes salt

end KeyTable

end ContentVault
