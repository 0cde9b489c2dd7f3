import ContentVault.Configuration.Basic

/-!
# Choices and receipts

How one piece of content is to be archived, what comes back when it is, and the stages in between.
-/

namespace ContentVault

/-- How content is archived. -/
structure ArchiveChoices where
  /-- The digest that the caller believes the content has, in hexadecimal. -/
  expectedHash : Option String := none
  encrypt : Bool := false
  /-- Whether content with another digest than the expected one is refused. -/
  doubleCheck : Bool := false
deriving DecidableEq, Repr, Inhabited

namespace ArchiveChoices

/-- The choices that a configuration asks for. -/
def ofConfig (c : Configuration) : ArchiveChoices := ⟨none, c.encryptionEnabled, c.doubleCheck⟩

/-- Sets the expected digest. -/
def expecting (o : ArchiveChoices) (hash : String) : ArchiveChoices := { o with expectedHash := some hash }

end ArchiveChoices

/-- A stage of archiving: how long it took, and whether it was skipped. -/
structure Stage where
  name : String
  millis : Nat
  skipped : Bool
deriving DecidableEq, Repr, Inhabited

/-- A stage that was gone through. -/
def Stage.success (name : String) (millis : Nat) : Stage := ⟨name, millis, false⟩

/-- A stage that there was no need for; it takes no time. -/
def Stage.skip (name : String) : Stage := ⟨name, 0, true⟩

/-- The number of stages that were not skipped. -/
def stagesRun (stages : List Stage) : Nat := (stages.filter fun s => !s.skipped).length

/-- What comes back when content was archived. -/
structure ArchiveReceipt where
  id : String
  contentRef : String
  hash : Fingerprint
  /-- The number of bytes of the content. -/
  bytes : Nat
  encrypted : Bool
  keyVersion : UInt32
  stages : List Stage
deriving DecidableEq, Repr, Inhabited

end ContentVault
