import ContentVault.Aead.Basic
import ContentVault.Derivation.Limits
import ContentVault.Derivation.Pbkdf2
import ContentVault.Failure
import ContentVault.Json.Record
import ContentVault.Text.Letters

/-!
# Key derivation

The key of an artifact is derived from the master secret and the artifact's salt. `DerivationParameters` names the
derivation function and says how it is used; each function has bounds of its own, below which it is too weak and above
which it costs too much. `derive` is the key that parameters give for a secret and a salt, with all the ways in which
the function itself may still refuse to give one.

Parameters are written in JSON as an object whose member `algorithm` names the function. Two readers take them back:
`read?` wants the function's own name, `ofJson` also takes its short name and any letter case, and then checks the
bounds.
-/

namespace ContentVault

/-- A key derivation function. -/
inductive DerivationFunction where
  | pbkdf2
  | hkdf
  | argon2
deriving DecidableEq, Repr, Inhabited

namespace DerivationFunction

/-- The name kept in records. -/
def id : DerivationFunction → String
  | pbkdf2 => "PBKDF2-HMAC-SHA256"
  | hkdf => "HKDF-SHA256"
  | argon2 => "ARGON2ID"

/-- The name that can be used instead in settings. -/
def briefName : DerivationFunction → String
  | pbkdf2 => "pbkdf2"
  | hkdf => "hkdf"
  | argon2 => "argon2"

/-- All key derivation functions. -/
def all : List DerivationFunction := [pbkdf2, hkdf, argon2]

/-- The function with this name or short name, in any letter case. -/
def ofId (s : String) : Attempt DerivationFunction :=
  match all.find? fun a => Text.equalsIgnoringCase a.id s || Text.equalsIgnoringCase a.briefName s with
  | some a => .ok a
  | none => .error (.unsupportedAlgorithm ("key derivation '" ++ s ++ "'"))

end DerivationFunction

/-- A key derivation function and how it is used. -/
inductive DerivationParameters where
  | pbkdf2 (iterations : UInt32)
  | hkdf (info : String)
  | argon2 (parallelism memoryKib iterations : UInt32)
deriving DecidableEq, Repr, Inhabited

namespace DerivationParameters

/-- The function. -/
def algorithm : DerivationParameters → DerivationFunction
  | pbkdf2 _ => .pbkdf2
  | hkdf _ => .hkdf
  | argon2 .. => .argon2

/-- The parameters to use when nothing speaks for others. -/
def recommended : DerivationFunction → DerivationParameters
  | .pbkdf2 => pbkdf2 600000
  | .hkdf => hkdf "archivault/content-key/v1"
  | .argon2 => argon2 1 65536 3

/-! ## Bounds -/

/-- What is wrong with parameters, if anything is. -/
def complaint? : DerivationParameters → Option String
  | pbkdf2 iterations =>
    if iterations < 100000 then
      some ("PBKDF2 requires at least 100000 iterations, got " ++ toString iterations)
    else none
  | hkdf info => if 1024 < info.utf8ByteSize then some "HKDF info must be at most 1024 bytes" else none
  | argon2 parallelism memoryKib iterations =>
    if memoryKib < 65536 ∨ 4194304 < memoryKib then
      some ("Argon2 memory must be between 65536 and 4194304 KiB, got " ++ toString memoryKib)
    else if parallelism = 0 ∨ 16 < parallelism then
      some ("Argon2 parallelism must be between 1 and 16, got " ++ toString parallelism)
    else if iterations = 0 then some "Argon2 requires at least one iteration"
    else none

/-- Checks the bounds. -/
def validate (p : DerivationParameters) : Attempt Unit :=
  match p.complaint? with
  | some reason => .error (.invalidKdfParameters reason)
  | none => .ok ()

/-! ## JSON -/

/-- The member that names the function. -/
def tagName : String := "algorithm"

/-- Parameters as an object. -/
def toJson (p : DerivationParameters) : Json :=
  .object ((tagName, .string p.algorithm.id) :: match p with
    | pbkdf2 iterations => [("iterations", .ofNat iterations.toNat)]
    | hkdf info => [("info", .string info)]
    | argon2 parallelism memoryKib iterations =>
      [("parallelism", .ofNat parallelism.toNat), ("memory_kib", .ofNat memoryKib.toNat),
        ("iterations", .ofNat iterations.toNat)])

/-- Reads the fields that a function needs, given as an object or as an array. -/
def readFields? : DerivationFunction → Json → Option DerivationParameters
  | .pbkdf2, value => do
    let fields ← Json.fields? ["iterations"] value
    return pbkdf2 (← fields.required "iterations" Json.word32?)
  | .hkdf, value => do
    let fields ← Json.fields? ["info"] value
    return hkdf (← fields.required "info" Json.string?)
  | .argon2, value => do
    let fields ← Json.fields? ["parallelism", "memory_kib", "iterations"] value
    return argon2 (← fields.required "parallelism" Json.word32?) (← fields.required "memory_kib" Json.word32?)
      (← fields.required "iterations" Json.word32?)

/-- Reads parameters that name their function exactly: an object, or an array that begins with the name. -/
def read? : Json → Option DerivationParameters
  | .object members =>
    match members.filter fun (name, _) => name == tagName with
    | [(_, .string id)] => do
      let a ← DerivationFunction.all.find? fun a => a.id == id
      readFields? a (.object (members.filter fun (name, _) => name != tagName))
    | _ => none
  | .array (.string id :: values) => do
    let a ← DerivationFunction.all.find? fun a => a.id == id
    readFields? a (.array values)
  | _ => none

/-- Reads parameters that name their function in any way it can be named, and checks them. -/
def ofJson (value : Json) : Attempt DerivationParameters :=
  match value.get? tagName with
  | some (.string id) => do
    let a ← DerivationFunction.ofId id
    match readFields? a value with
    | none => .error (.invalidKdfParameters (a.id ++ ": malformed fields"))
    | some p =>
      p.validate
      return p
  | _ => .error (.invalidKdfParameters "missing 'algorithm' field")

end DerivationParameters

/-! ## Derivation -/

/-- The length of a fresh salt. -/
def saltLength : Nat := 32

/-- The length of the shortest salt. -/
def leastSaltLength : Nat := 8

namespace DerivationParameters

/-- The key that parameters give, whatever they are. -/
def key (p : DerivationParameters) (secret salt : Bytes) : Key :=
  match p with
  | pbkdf2 iterations => ⟨Pbkdf2.derive secret salt iterations.toNat, by simp⟩
  | hkdf info => ⟨Hkdf.derive secret salt (Bytes.ofString info), by simp⟩
  | argon2 parallelism memoryKib iterations =>
    ⟨Argon2.derive secret salt parallelism.toNat memoryKib.toNat iterations.toNat, by simp⟩

/-- Whether the function takes a secret and a salt of these lengths. -/
def Takes (p : DerivationParameters) (secret salt : Bytes) : Prop :=
  match p with
  | pbkdf2 _ => True
  | hkdf _ => True
  | argon2 .. => secret.length ≤ Argon2.longestInput ∧ salt.length ≤ Argon2.longestInput

instance (p : DerivationParameters) (secret salt : Bytes) : Decidable (p.Takes secret salt) :=
  match p with
  | pbkdf2 _ => inferInstanceAs (Decidable True)
  | hkdf _ => inferInstanceAs (Decidable True)
  | argon2 .. => inferInstanceAs (Decidable (_ ∧ _))

/-- The key that a function gives, if it does not refuse. -/
def limitedKey (p : DerivationParameters) (secret salt : Bytes) : Attempt Key :=
  match p with
  | pbkdf2 _ => .ok (p.key secret salt)
  | hkdf _ =>
    if Hkdf.longestOutput < keyLength then .error (.keyDerivationFailed "HKDF expand failed")
    else .ok (p.key secret salt)
  | argon2 parallelism memoryKib iterations =>
    match Argon2.refusal? parallelism.toNat memoryKib.toNat iterations.toNat keyLength with
    | some reason => .error (.invalidKdfParameters reason)
    | none =>
      match Argon2.inputRefusal? secret.length salt.length with
      | some reason => .error (.keyDerivationFailed reason)
      | none => .ok (p.key secret salt)

/-- The key for a secret and a salt, if the salt is long enough, the parameters are within their bounds and the
function does not refuse. -/
def derive (p : DerivationParameters) (secret salt : Bytes) : Attempt Key :=
  if salt.length < leastSaltLength then
    .error (.invalidKdfParameters ("salt must be at least 8 bytes, got " ++ toString salt.length))
  else
    match p.validate with
    | .error e => .error e
    | .ok () => p.limitedKey secret salt

end DerivationParameters

end ContentVault
