/-!
# Failures

Layers of failure. A `StreamFailure` is what a stage of a streaming pipeline has to say about a stream: a
frame that failed authentication, or a sibling that went away. An `IoError` is what a read or a write reports, a
fault or a plain system error; a `ProducerFailure` is what the producer of a tee ends with. A `VaultFailure` is what the
operations of the vault return; each constructor is one cause, and `VaultFailure.message` is its wording.
-/

namespace ContentVault

/-! ## Streams -/

/-- A failure that a pipeline stage reports through the stream it feeds. -/
inductive StreamFailure where
  /-- Authenticated decryption rejected the data. -/
  | integrity (reason : String)
  /-- The other output of a tee went away before the stream was complete. -/
  | siblingClosed
deriving DecidableEq, Repr, Inhabited

/-- The kinds of system error. -/
inductive IoKind where
  | notFound
  | permissionDenied
  | connectionRefused
  | connectionReset
  | hostUnreachable
  | networkUnreachable
  | connectionAborted
  | notConnected
  | addressInUse
  | addressNotAvailable
  | networkDown
  | brokenPipe
  | alreadyExists
  | wouldBlock
  | notDirectory
  | isDirectory
  | directoryNotEmpty
  | readOnlyFilesystem
  | filesystemLoop
  | staleNetworkFileHandle
  | invalidInput
  | invalidData
  | timedOut
  | writeZero
  | storageFull
  | notSeekable
  | quotaExceeded
  | fileTooLarge
  | resourceBusy
  | executableFileBusy
  | deadlock
  | crossesDevices
  | tooManyLinks
  | invalidFilename
  | argumentListTooLong
  | interrupted
  | unsupported
  | unexpectedEof
  | outOfMemory
  | inProgress
  | other
  | uncategorized
deriving DecidableEq, Repr, Inhabited

/-- Why a read or a write failed. -/
inductive IoError where
  | system (kind : IoKind) (text : String)
  | fault (fault : StreamFailure)
deriving DecidableEq, Repr, Inhabited

namespace IoError

/-- The kind of system error that an error is, or, for a fault, that it travels as. -/
def kind : IoError → IoKind
  | system kind _ => kind
  | fault (.integrity _) => .invalidData
  | fault .siblingClosed => .brokenPipe

/-- The wording of an error. -/
def message : IoError → String
  | system _ text => text
  | fault (.integrity reason) => "integrity failure: " ++ reason
  | fault .siblingClosed => "sibling stream closed before completion"

/-- What a reader reports that is read again after it has failed. -/
def alreadyFailed : IoError := system .brokenPipe "stream already failed"

end IoError

/-- Why the producer of a tee has no count to give. -/
inductive ProducerFailure where
  /-- The source failed, or an output was dropped. -/
  | stream (error : IoError)
  /-- The producer crashed before it read anything: there is no room for a buffer of that size. -/
  | crashed
deriving DecidableEq, Repr, Inhabited

/-! ## The vault -/

/-- Why an operation of the vault failed. -/
inductive VaultFailure where
  | notFound (what : String)
  | alreadyArchived (id : String)
  | hashMismatch (expected actual : String)
  | integrity (reason : String)
  | incompleteDigest
  | unsupportedAlgorithm (what : String)
  | invalidKdfParameters (reason : String)
  | keyDerivationFailed (reason : String)
  | encryptionFailed (reason : String)
  | invalidSecret (reason : String)
  | externalService (reason : String)
  | storage (reason : String)
  | malformedMetadata (id reason : String)
  | database (reason : String)
  | io (error : IoError)
  | json (reason : String)
  | lock
  | config (reason : String)
  | internal (reason : String)
deriving DecidableEq, Repr, Inhabited

namespace VaultFailure

/-- The wording of an error. -/
def message : VaultFailure → String
  | notFound what => "Archived content not found: " ++ what
  | alreadyArchived id => "Content already archived: " ++ id
  | hashMismatch expected actual => "Hash mismatch: expected " ++ expected ++ ", computed " ++ actual
  | integrity reason => "Integrity check failed: " ++ reason
  | incompleteDigest => "Digest requested before the stream was fully drained"
  | unsupportedAlgorithm what => "Unsupported algorithm: " ++ what
  | invalidKdfParameters reason => "Invalid key derivation parameters: " ++ reason
  | keyDerivationFailed reason => "Key derivation failed: " ++ reason
  | encryptionFailed reason => "Encryption failed: " ++ reason
  | invalidSecret reason => "Invalid master secret: " ++ reason
  | externalService reason => "External service error: " ++ reason
  | storage reason => "Storage error: " ++ reason
  | malformedMetadata id reason => "Malformed metadata for " ++ id ++ ": " ++ reason
  | database reason => "Database error: " ++ reason
  | io error => "IO error: " ++ error.message
  | json reason => "JSON error: " ++ reason
  | lock => "Mutex lock error"
  | config reason => "Configuration error: " ++ reason
  | internal reason => "Internal error: " ++ reason

/-- The error of an operation whose stream failed: an integrity fault keeps its meaning, anything else stays a
failed read or write. -/
def ofIo : IoError → VaultFailure
  | .fault (.integrity reason) => integrity reason
  | error => io error

/-- The error of an operation whose producer came to no count. -/
def ofProducer : ProducerFailure → VaultFailure
  | .stream error => ofIo error
  | .crashed => internal "Background task failed: capacity overflow"

/-- A configuration in which a setting has the wrong type or is out of its range. -/
def malformedConfig : VaultFailure := config "malformed settings"

/-- Whether the only complaint is that a sibling stream went away. -/
def isSiblingClosed : VaultFailure → Bool
  | io (.fault .siblingClosed) => true
  | _ => false

/-- Which of two errors explains why both branches of a stream failed: the first, unless it only says that its
sibling went away and the second has more to say. -/
def explaining (first second : VaultFailure) : VaultFailure :=
  if first.isSiblingClosed && !second.isSiblingClosed then second else first

end VaultFailure

/-- The outcome of an operation of the vault. -/
abbrev Attempt (α : Type) := Except VaultFailure α

@[simp] theorem Attempt.ok_bind {α β : Type} (a : α) (f : α → Attempt β) : (Except.ok a >>= f) = f a := rfl

@[simp] theorem Attempt.error_bind {α β : Type} (e : VaultFailure) (f : α → Attempt β) :
    (Except.error e >>= f) = .error e := rfl

/-- An operation succeeds if its first step does, and then the rest of it. -/
theorem Attempt.bind_eq_ok {α β : Type} {x : Attempt α} {f : α → Attempt β} {b : β} :
    (x >>= f) = .ok b ↔ ∃ a, x = .ok a ∧ f a = .ok b := by
  cases x with
  | error e => exact ⟨nofun, nofun⟩
  | ok a =>
      constructor
      · intro h
        exact ⟨a, rfl, h⟩
      · rintro ⟨a', h, hf⟩
        cases h
        exact hf

theorem Attempt.map_eq_ok {α β : Type} {x : Attempt α} {f : α → β} {b : β} :
    x.map f = .ok b ↔ ∃ a, x = .ok a ∧ f a = b := by
  cases x with
  | error e => exact ⟨nofun, nofun⟩
  | ok a =>
      constructor
      · intro h
        exact ⟨a, rfl, Except.ok.inj h⟩
      · rintro ⟨a', h, hf⟩
        cases h
        exact congrArg Except.ok hf

end ContentVault
