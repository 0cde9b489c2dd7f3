import ContentVault.Origin.Shelf
import ContentVault.Proofs.Archiver.Expecting
import ContentVault.Proofs.Jobs.Errands

/-! # A digest that the source declares

    An item may come with a digest that its source declares, and the rules may
    name one that is expected of every item.  The declared one counts, and the
    configured one if nothing is declared (`choicesFor_eq`).  What this digest
    decides is what it decides when the content is archived by itself.

    Main statement: `digest_decides_by_value`. -/

namespace ContentVault

/-- What archiving the content came to, if it was tried. -/
def ItemOutcome.result? : ItemOutcome → Option (Attempt ArchiveReceipt)
  | .archived report => some (.ok report)
  | .failed e => some (.error e)
  | .duplicateSuppressed | .alreadyArchived | .cutShort => none

theorem ItemOutcome.eq_archived {outcome : ItemOutcome} {receipt : ArchiveReceipt}
    (h : outcome.result? = some (.ok receipt)) : outcome = .archived receipt := by
  cases outcome with
  | archived report => exact congrArg archived (Except.ok.inj (Option.some.inj h))
  | failed | duplicateSuppressed | alreadyArchived | cutShort => cases h

theorem ItemOutcome.eq_failed {outcome : ItemOutcome} {e : VaultFailure}
    (h : outcome.result? = some (.error e)) : outcome = .failed e := by
  cases outcome with
  | failed e' => exact congrArg failed (Except.error.inj (Option.some.inj h))
  | archived | duplicateSuppressed | alreadyArchived | cutShort => cases h

namespace Caretaker

variable {σ β ν : Type} (c : Caretaker)

/-- The digest that is expected of an item: the one that its source declares, and
    only if there is none, the configured one. -/
def expectedOf (content : OfferedContent) : Option String :=
  content.expectedHash.or c.rules.choices.expectedHash

theorem choicesFor_eq (content : OfferedContent) :
    c.choicesFor content = { c.rules.choices with expectedHash := c.expectedOf content } := by
  rw [choicesFor, expectedOf]
  cases content.expectedHash <;> rfl

/-- Whether no digest is checked for an item. -/
def ChecksNothingFor (content : OfferedContent) : Prop :=
  c.rules.choices.doubleCheck = false ∨ c.expectedOf content = none

variable {c} in
theorem ChecksNothingFor.choices {content : OfferedContent} (h : c.ChecksNothingFor content) :
    (c.choicesFor content).ChecksNothing := by
  rw [choicesFor_eq]
  exact h

/-- Whether two caretakers archive alike, but for the digests that they expect
    and check. -/
structure DiffersInDigest (c' c : Caretaker) : Prop where
  archiver : c'.archiver = c.archiver
  draws : c'.draws = c.draws
  encrypt : c'.rules.choices.encrypt = c.rules.choices.encrypt

/-- An item that the guard lets through and the repository gives comes to what
    archiving its content comes to. -/
theorem archiveItem_of_fetched [ContentOrigin σ] [BlobStorage β] {now : Instant} {id : String}
    {w : JobState σ β ν} {guard : RepeatGuard} {content : OfferedContent} {origin : σ}
    (hguard : w.guard.test now id = (.accepted, guard))
    (hfetch : ContentOrigin.fetch w.origin id = (.ok content, origin)) :
    c.archiveItem now id w
      = c.concluded id
          (c.archiver.archive (c.draws w.drawn) content (c.choicesFor content) w.stores).1
          { w with
            guard, origin
            stores :=
              (c.archiver.archive (c.draws w.drawn) content (c.choicesFor content) w.stores).2
            drawn := w.drawn + 1 } := by
  rw [archiveItem, hguard]
  dsimp only
  rw [hfetch]
  rfl

section

variable [ContentOrigin σ] (id : String) (result : Attempt ArchiveReceipt) (w : JobState σ β ν)

/-- What the repository is told leaves the stores as they are. -/
theorem concluded_stores : (c.concluded id result w).2.stores = w.stores := by
  cases result with
  | ok report => rfl
  | error e => cases e <;> rfl

/-- What comes of an item depends on what archiving its content came to. -/
theorem concluded_outcome (c' : Caretaker) (w' : JobState σ β ν) :
    (c'.concluded id result w').1 = (c.concluded id result w).1 := by
  cases result with
  | ok report => rfl
  | error e => cases e <;> rfl

end

/-! ## What it decides -/

variable [ContentOrigin σ] [BlobStorage β]

/-- What a checked digest decides about content it decides about the item. -/
theorem decides_item {now : Instant} {id : String} {w : JobState σ β ν} {guard : RepeatGuard}
    {content : OfferedContent} {origin : σ} {r : ArchiveReceipt} {t : Stores β} {expected : String}
    (hguard : w.guard.test now id = (.accepted, guard))
    (hfetch : ContentOrigin.fetch w.origin id = (.ok content, origin))
    (hplain : c.archiver.archive (c.draws w.drawn) content
      { c.rules.choices with expectedHash := none } w.stores = (.ok r, t))
    (hcheck : c.rules.choices.doubleCheck = true) (hexpected : c.expectedOf content = some expected) :
    ∃ result, (c.archiveItem now id w).1.result? = some result ∧
      c.archiver.Decides content expected w.stores t (result, (c.archiveItem now id w).2.stores) := by
  have hchoices : c.choicesFor content = c.rules.choices.checking expected := by
    rw [choicesFor_eq, hexpected, ArchiveChoices.checking, ← hcheck]
  have hdecides := c.archiver.archive_checking (c.draws w.drawn) hplain expected
  rw [c.archiveItem_of_fetched hguard hfetch, hchoices, concluded_stores]
  generalize c.archiver.archive (c.draws w.drawn) content (c.rules.choices.checking expected)
    w.stores = out at hdecides ⊢
  obtain ⟨result, u⟩ := out
  refine ⟨result, ?_, hdecides⟩
  cases result with
  | ok report => rfl
  | error e =>
      obtain ⟨-, rfl, -⟩ := hdecides
      rfl

/-- Where nothing is checked, an item comes to the same whatever was configured
    and whatever its source declares. -/
theorem archiveItem_unchecked {c' : Caretaker} {now : Instant} {id : String} {w : JobState σ β ν}
    {guard : RepeatGuard} {content : OfferedContent} {origin other origin' : σ}
    {declared : Option String} (hdiffers : c'.DiffersInDigest c)
    (hguard : w.guard.test now id = (.accepted, guard))
    (hfetch : ContentOrigin.fetch w.origin id = (.ok content, origin))
    (hother : ContentOrigin.fetch other id
      = (.ok { content with expectedHash := declared }, origin'))
    (hfree : c.ChecksNothingFor content)
    (hfree' : c'.ChecksNothingFor { content with expectedHash := declared }) :
    (c'.archiveItem now id { w with origin := other }).1 = (c.archiveItem now id w).1 ∧
      (c'.archiveItem now id { w with origin := other }).2.stores
        = (c.archiveItem now id w).2.stores := by
  obtain ⟨harchiver, hdraws, hencrypt⟩ := hdiffers
  have hchoices : (c'.choicesFor { content with expectedHash := declared }).encrypt
      = (c.choicesFor content).encrypt := by
    rw [choicesFor_eq, choicesFor_eq]
    exact hencrypt
  have hsame : c'.archiver.archive (c'.draws w.drawn) { content with expectedHash := declared }
      (c'.choicesFor { content with expectedHash := declared }) w.stores
      = c.archiver.archive (c.draws w.drawn) content (c.choicesFor content) w.stores := by
    rw [harchiver, hdraws]
    exact c.archiver.archive_unchecked (c.draws w.drawn) hfree.choices hfree'.choices hchoices
      declared
  have hguard' : ({ w with origin := other } : JobState σ β ν).guard.test now id
      = (.accepted, guard) := hguard
  rw [c.archiveItem_of_fetched hguard hfetch, c'.archiveItem_of_fetched hguard' hother]
  dsimp only
  rw [hsame, concluded_stores, concluded_stores]
  exact ⟨concluded_outcome _ _ _ _ _ _, rfl⟩

/-- With double-checking, content that would be archived without an expected
    digest is archived exactly if the expected text, freed of blanks at both ends,
    is the digest of its bytes in hexadecimal, in any letter case (`Decides`).
    Without double-checking, or if no digest is expected, it makes no difference
    what was chosen or declared.  The same goes for items, whose declared digest
    takes the place of the configured one. -/
theorem digest_decides_by_value {β : Type} [BlobStorage β] :
    (∀ (a : Archiver) (draws : Draws) (content : OfferedContent) (o : ArchiveChoices)
        (s : Stores β),
      (a.hashAlgorithm.digest content.stream.data).length = 32 ∧
      (∀ r t expected, a.archive draws content { o with expectedHash := none } s = (.ok r, t) →
        a.Decides content expected s t (a.archive draws content (o.checking expected) s)) ∧
      ∀ o' declared, o.ChecksNothing → o'.ChecksNothing → o'.encrypt = o.encrypt →
        a.archive draws { content with expectedHash := declared } o' s
          = a.archive draws content o s) ∧
    ∀ {σ ν : Type} [ContentOrigin σ] (c : Caretaker) (now : Instant) (id : String)
        (w : JobState σ β ν) (guard : RepeatGuard) (content : OfferedContent) (origin : σ),
      w.guard.test now id = (.accepted, guard) →
      ContentOrigin.fetch w.origin id = (.ok content, origin) →
      (∀ r t expected, c.archiver.archive (c.draws w.drawn) content
          { c.rules.choices with expectedHash := none } w.stores = (.ok r, t) →
        c.rules.choices.doubleCheck = true → c.expectedOf content = some expected →
        ∃ result, (c.archiveItem now id w).1.result? = some result ∧
          c.archiver.Decides content expected w.stores t
            (result, (c.archiveItem now id w).2.stores)) ∧
      ∀ (c' : Caretaker) (declared : Option String) (other origin' : σ), c'.DiffersInDigest c →
        ContentOrigin.fetch other id = (.ok { content with expectedHash := declared }, origin') →
        c.ChecksNothingFor content →
        c'.ChecksNothingFor { content with expectedHash := declared } →
        (c'.archiveItem now id { w with origin := other }).1 = (c.archiveItem now id w).1 ∧
          (c'.archiveItem now id { w with origin := other }).2.stores
            = (c.archiveItem now id w).2.stores := by
  constructor
  · intro a draws content o s
    refine ⟨a.hashAlgorithm.length_digest _, fun r t expected hplain => ?_,
      fun o' declared hfree hfree' hencrypt => ?_⟩
    · exact a.archive_checking draws hplain expected
    · exact a.archive_unchecked draws hfree hfree' hencrypt declared
  · intro σ ν _ c now id w guard content origin hguard hfetch
    refine ⟨fun r t expected hplain hcheck hexpected => ?_,
      fun c' declared other origin' hdiffers hother hfree hfree' => ?_⟩
    · exact c.decides_item hguard hfetch hplain hcheck hexpected
    · exact c.archiveItem_unchecked hdiffers hguard hfetch hother hfree hfree'

end Caretaker

/-! ## A digest from a command line -/

namespace Sample

/-- The digest of the sample content. -/
def contentDigest : Bytes := archiver.hashAlgorithm.digest content.stream.data

/-- The digest as a tool prints it, with a line end. -/
def printed : String := Text.hex contentDigest ++ "\n"

theorem isHexOf_printed : Text.IsHexOf printed contentDigest := by
  refine ⟨[], Text.hexChars contentDigest, ['\n'], ?_, nofun, ?_, Text.unhexChars?_hexChars _⟩
  · rw [printed, String.toList_append, Text.hex, String.toList_ofList]
    rfl
  · intro c hc
    rw [List.mem_singleton.mp hc]
    rfl

/-- Double-checks, and expects of every item what is the digest of none. -/
def suspicious : Caretaker :=
  ⟨archiver, ⟨"flagged", 1, { expectedHash := some "00", doubleCheck := true }, false, 0⟩,
    fun _ => draws⟩

/-- The sample content with a digest that its source declares, or with none. -/
def declaring (declared : Option String) : OfferedContent :=
  { content with expectedHash := declared }

/-- The content on a shelf, with nothing archived yet. -/
def offering (declared : Option String) : JobState Shelf BlobStore StandInNotary where
  origin := { items := [("report", { content := declaring declared })] }
  stores := stores
  notary := {}
  guard := { threshold := 0 }

end Sample

namespace Caretaker

/-- A declared digest that spells that of the content takes the place of a
    configured one that does not, and by that one the item would have failed. -/
theorem declared_digest_accepted :
    (∃ receipt,
      (Sample.suspicious.archiveItem 0 "report" (Sample.offering (some Sample.printed))).1
        = .archived receipt) ∧
    (Sample.suspicious.archiveItem 0 "report" (Sample.offering none)).1
      = .failed (.hashMismatch "00" (Text.hex Sample.contentDigest)) := by
  have hdecided : ∀ declared expected,
      Sample.suspicious.expectedOf (Sample.declaring declared) = some expected →
      ∃ result t u,
        (Sample.suspicious.archiveItem 0 "report" (Sample.offering declared)).1.result?
          = some result ∧
        Sample.archiver.Decides (Sample.declaring declared) expected Sample.stores t
          (result, u) := by
    intro declared expected hexpected
    have hvouched : Sample.archiver.IsVouched
        { Sample.suspicious.rules.choices with expectedHash := none }
        (Sample.declaring declared) := by
      refine ⟨by decide, fun n hn => ?_, fun ⟨_, _, hnone, _⟩ => nomatch hnone⟩
      cases hn
      rfl
    have hbegins : Sample.archiver.Begins (Sample.declaring declared)
        { Sample.suspicious.rules.choices with expectedHash := none } Sample.stores.records :=
      ⟨rfl, Sample.hasKey _⟩
    obtain ⟨verify, records, hplain, -⟩ :=
      Sample.archiver.archive_of_vouched Sample.draws hbegins rfl hvouched
    obtain ⟨result, hresult, hdecides⟩ :=
      ((digest_decides_by_value (β := BlobStore)).2 Sample.suspicious 0 "report"
        (Sample.offering declared) _ _ _ rfl rfl).1 _ _ expected hplain rfl hexpected
    exact ⟨result, _, _, hresult, hdecides⟩
  constructor
  · obtain ⟨result, t, u, hresult, hdecides⟩ := hdecided (some Sample.printed) Sample.printed rfl
    cases result with
    | error e => exact absurd Sample.isHexOf_printed hdecides.1
    | ok receipt => exact ⟨receipt, ItemOutcome.eq_archived hresult⟩
  · obtain ⟨result, t, u, hresult, hdecides⟩ := hdecided none "00" rfl
    cases result with
    | ok receipt =>
        have hlength := Text.IsHexOf.length_le hdecides.1
        rw [DigestAlgorithm.length_digest] at hlength
        exact absurd hlength (by decide)
    | error e =>
        obtain ⟨-, rfl, -⟩ := hdecides
        exact ItemOutcome.eq_failed hresult

end Caretaker

end ContentVault
