import ContentVault.Configuration.Basic

/-!
# Configuration documents

A configuration is written and read in JSON. Reading goes in three steps, so that a mistake in the name of an algorithm
is reported as such: the names are looked up in their registries and put into their proper spelling, then the document
is read setting by setting, each that is missing having its default, and then the settings are validated.
-/

namespace ContentVault

namespace KeyVersion

/-- A key version in JSON. -/
def toJson (v : KeyVersion) : Json :=
  Json.record [("version", some (.ofNat v.version.toNat)), ("kdf", some v.kdf.toJson)]

/-- Reads parameters, which are taken as a value in its own right. -/
def readKdf? (value : Json) : Option DerivationParameters :=
  if value.admissibleWithin (Json.maxDepth - 1) then DerivationParameters.read? value else none

/-- Reads a key version. -/
def read? (value : Json) : Option KeyVersion := do
  let fields ← Json.fields? ["version", "kdf"] value
  return ⟨← fields.required "version" Json.word32?, ← fields.required "kdf" readKdf?⟩

end KeyVersion

namespace Configuration

/-! ## Writing -/

/-- The settings with their names, in the order in which they are written. -/
def toJson (c : Configuration) : Json :=
  Json.record [
    ("hash_algorithm", some (.string c.hashAlgorithm.id)),
    ("cipher", some (.string c.cipher.id)),
    ("encryption_enabled", some (.bool c.encryptionEnabled)),
    ("double_check", some (.bool c.doubleCheck)),
    ("active_key_version", some (.ofNat c.activeKeyVersion.toNat)),
    ("key_versions", some (.array (c.keyVersions.map KeyVersion.toJson))),
    ("dedup_threshold_secs", some (.ofNat c.dedupThresholdSecs.toNat)),
    ("dedup_sweep_interval_secs", some (.ofNat c.dedupSweepIntervalSecs.toNat)),
    ("archive_interval_secs", some (.ofNat c.archiveIntervalSecs.toNat)),
    ("notarization_interval_secs", some (.ofNat c.notarizationIntervalSecs.toNat)),
    ("orphan_sweep_interval_secs", some (.ofNat c.orphanSweepIntervalSecs.toNat)),
    ("orphan_grace_secs", some (.ofNat c.orphanGraceSecs.toNat)),
    ("archive_query", some (.string c.archiveQuery)),
    ("delete_source_after_archive", some (.bool c.deleteSourceAfterArchive)),
    ("worker_count", some (.ofNat c.workerCount.toNat)),
    ("tee_buffer_size", some (.ofNat c.teeBufferSize.toNat)),
    ("cipher_chunk_size", some (.ofNat c.cipherChunkSize.toNat)),
    ("notarization", some c.notarization.toJson)]

/-! ## Reading -/

/-- The names of the settings, in the order in which they are written. -/
def fieldNames : List String := [
  "hash_algorithm", "cipher", "encryption_enabled", "double_check", "active_key_version", "key_versions",
  "dedup_threshold_secs", "dedup_sweep_interval_secs", "archive_interval_secs", "notarization_interval_secs",
  "orphan_sweep_interval_secs", "orphan_grace_secs", "archive_query", "delete_source_after_archive", "worker_count",
  "tee_buffer_size", "cipher_chunk_size", "notarization"]

/-- Reads the name of a digest algorithm, in its proper spelling. -/
def readHash? (value : Json) : Option DigestAlgorithm := do
  let name ← value.alternative?
  DigestAlgorithm.all.find? fun a => a.id == name

/-- Reads the name of a cipher, in its proper spelling. -/
def readCipher? (value : Json) : Option CipherSuite := do
  let name ← value.alternative?
  CipherSuite.all.find? fun a => a.id == name

/-- Reads settings; all have defaults. -/
def read? (value : Json) : Option Configuration := do
  let fields ← Json.fields? fieldNames value
  let plain : Configuration := {}
  return {
    hashAlgorithm := ← fields.withDefault "hash_algorithm" plain.hashAlgorithm readHash?
    cipher := ← fields.withDefault "cipher" plain.cipher readCipher?
    encryptionEnabled := ← fields.withDefault "encryption_enabled" plain.encryptionEnabled Json.bool?
    doubleCheck := ← fields.withDefault "double_check" plain.doubleCheck Json.bool?
    activeKeyVersion := ← fields.withDefault "active_key_version" plain.activeKeyVersion Json.word32?
    keyVersions := ← fields.withDefault "key_versions" plain.keyVersions (Json.list? KeyVersion.read?)
    dedupThresholdSecs := ← fields.withDefault "dedup_threshold_secs" plain.dedupThresholdSecs Json.word64?
    dedupSweepIntervalSecs :=
      ← fields.withDefault "dedup_sweep_interval_secs" plain.dedupSweepIntervalSecs Json.word64?
    archiveIntervalSecs := ← fields.withDefault "archive_interval_secs" plain.archiveIntervalSecs Json.word64?
    notarizationIntervalSecs :=
      ← fields.withDefault "notarization_interval_secs" plain.notarizationIntervalSecs Json.word64?
    orphanSweepIntervalSecs :=
      ← fields.withDefault "orphan_sweep_interval_secs" plain.orphanSweepIntervalSecs Json.word64?
    orphanGraceSecs := ← fields.withDefault "orphan_grace_secs" plain.orphanGraceSecs Json.word64?
    archiveQuery := ← fields.withDefault "archive_query" plain.archiveQuery Json.string?
    deleteSourceAfterArchive :=
      ← fields.withDefault "delete_source_after_archive" plain.deleteSourceAfterArchive Json.bool?
    workerCount := ← fields.withDefault "worker_count" plain.workerCount Json.word64?
    teeBufferSize := ← fields.withDefault "tee_buffer_size" plain.teeBufferSize Json.word64?
    cipherChunkSize := ← fields.withDefault "cipher_chunk_size" plain.cipherChunkSize Json.word64?
    notarization := ← fields.withDefault "notarization" plain.notarization NotaryConfiguration.read? }

/-! ## Names of algorithms -/

/-- Puts a member that is a name into its proper spelling, if the registry knows it. -/
def resolveName (member : String) (proper : String → Attempt String) (value : Json) : Attempt Json :=
  match value.get? member with
  | some (.string name) =>
    match proper name with
    | .ok spelled => .ok (value.set member (.string spelled))
    | .error e => .error e
  | _ => .ok value

/-- Puts the parameters of a key version into their proper form. -/
def resolveVersion (entry : Json) : Attempt Json :=
  match entry.get? "kdf" with
  | some kdf =>
    match DerivationParameters.ofJson kdf with
    | .ok p => .ok (entry.set "kdf" p.toJson)
    | .error e => .error e
  | none => .ok entry

/-- Puts the parameters of all key versions into their proper form. -/
def resolveVersions (value : Json) : Attempt Json :=
  match value.get? "key_versions" with
  | some (.array entries) =>
    match entries.mapM resolveVersion with
    | .ok entries => .ok (value.set "key_versions" (.array entries))
    | .error e => .error e
  | _ => .ok value

/-- Puts all names of algorithms into their proper spelling. -/
def resolveNames (value : Json) : Attempt Json := do
  let value ← resolveName "cipher" (fun name => (CipherSuite.ofId name).map CipherSuite.id) value
  let value ← resolveName "hash_algorithm" (fun name => (DigestAlgorithm.ofId name).map DigestAlgorithm.id) value
  resolveVersions value

/-! ## Documents -/

/-- The configuration that a value spells. -/
def ofJson (value : Json) : Attempt Configuration := do
  let value ← resolveNames value
  match read? value with
  | none => .error .malformedConfig
  | some c =>
    c.validate
    return c

/-- The configuration that a text spells. -/
def ofText (text : String) : Attempt Configuration :=
  match Json.parseValue? text with
  | none => .error (.config "invalid JSON: malformed document")
  | some value => ofJson value

/-- The configuration in a file, if the file is there and holds a text. -/
def load (path : String) (contents : Option Bytes) : Attempt Configuration :=
  match contents >>= Bytes.toString? with
  | none => .error (.config ("failed to read " ++ path ++ ": no such text file"))
  | some text => ofText text

end Configuration

end ContentVault
