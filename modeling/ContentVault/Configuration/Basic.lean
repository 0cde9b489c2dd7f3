import ContentVault.Cipher.Frames
import ContentVault.Configuration.Notary
import ContentVault.Derivation.KeyTable
import ContentVault.Digest.Basic

/-!
# Configuration

The settings of a vault, what they are when nothing speaks for others, and what makes them usable: `validate` refuses
intervals of no time, sizes out of range, and key versions that repeat, are out of bounds or leave out the active one.
-/

namespace ContentVault

/-- Parameters for one key version. -/
structure KeyVersion where
  version : UInt32
  kdf : DerivationParameters
deriving DecidableEq, Repr, Inhabited

/-- The settings of a vault. -/
structure Configuration where
  hashAlgorithm : DigestAlgorithm := .sha256
  cipher : CipherSuite := .aes256Gcm
  encryptionEnabled : Bool := true
  /-- Whether content is compared with the digest expected of it. -/
  doubleCheck : Bool := true
  activeKeyVersion : UInt32 := 1
  keyVersions : List KeyVersion := [⟨1, .recommended .pbkdf2⟩]
  dedupThresholdSecs : UInt64 := 300
  dedupSweepIntervalSecs : UInt64 := 600
  archiveIntervalSecs : UInt64 := 60
  notarizationIntervalSecs : UInt64 := 300
  orphanSweepIntervalSecs : UInt64 := 3600
  /-- How old a blob has to be to count as an orphan. -/
  orphanGraceSecs : UInt64 := 86400
  /-- What the source is asked for when it lists items to archive. -/
  archiveQuery : String := "archive:flagged"
  deleteSourceAfterArchive : Bool := false
  workerCount : UInt64 := 4
  teeBufferSize : UInt64 := 8192
  cipherChunkSize : UInt64 := 65536
  notarization : NotaryConfiguration := {}
deriving DecidableEq, Repr, Inhabited

namespace Configuration

/-! ## Validation -/

/-- The settings that must not be zero, under their names. -/
def intervals (c : Configuration) : List (String × UInt64) := [
  ("dedup_threshold_secs", c.dedupThresholdSecs), ("dedup_sweep_interval_secs", c.dedupSweepIntervalSecs),
  ("archive_interval_secs", c.archiveIntervalSecs), ("notarization_interval_secs", c.notarizationIntervalSecs),
  ("orphan_sweep_interval_secs", c.orphanSweepIntervalSecs)]

/-- Checks that no interval is zero. -/
def checkIntervals : List (String × UInt64) → Attempt Unit
  | [] => .ok ()
  | (name, secs) :: rest =>
    if secs = 0 then .error (.config (name ++ " must be positive")) else checkIntervals rest

/-- Checks the sizes. -/
def checkSizes (c : Configuration) : Attempt Unit :=
  if c.workerCount = 0 then .error (.config "worker_count must be at least 1")
  else if c.teeBufferSize = 0 then .error (.config "tee_buffer_size must be positive")
  else if c.cipherChunkSize = 0 ∨ largestChunk < c.cipherChunkSize.toNat then
    .error (.config ("cipher_chunk_size must be between 1 and " ++ toString largestChunk))
  else .ok ()

/-- Checks key versions that come after the versions in `seen`. -/
def checkVersions (seen : List UInt32) : List KeyVersion → Attempt Unit
  | [] => .ok ()
  | entry :: rest =>
    if entry.version ∈ seen then
      .error (.config ("key version " ++ toString entry.version ++ " is defined more than once"))
    else
      match entry.kdf.validate with
      | .error e => .error e
      | .ok () => checkVersions (entry.version :: seen) rest

/-- Checks that the active version is there. -/
def checkActive (c : Configuration) : Attempt Unit :=
  if c.activeKeyVersion ∈ c.keyVersions.map KeyVersion.version then .ok ()
  else .error (.config ("active key version " ++ toString c.activeKeyVersion ++ " is not in key_versions"))

/-- Checks that the settings can be used. -/
def validate (c : Configuration) : Attempt Unit := do
  checkIntervals c.intervals
  c.checkSizes
  checkVersions [] c.keyVersions
  c.checkActive

/-! ## What follows from the settings -/

/-- The key versions as a table. -/
def keyTable (c : Configuration) : Attempt KeyTable :=
  KeyTable.ofEntries (c.keyVersions.map fun entry => (entry.version, entry.kdf)) c.activeKeyVersion

/-- The size of a chunk of plaintext. -/
def chunkSize (c : Configuration) : ChunkSize := .clamp c.cipherChunkSize.toNat

end Configuration

end ContentVault
