import ContentVault.Proofs.Archiver.Answers
import ContentVault.Proofs.Text.Pasted

/-! # What an expected digest decides

    Archiving looks at an expected digest in one place only, after the content is
    stored and before its record is saved.  Content that is archived when no
    digest is expected is therefore archived just the same if the text spells its
    digest, and otherwise leaves its blob behind and no record
    (`archive_checking`).  Where nothing is checked, no text that came with the
    content or with the choices makes a difference (`archive_unchecked`). -/

namespace ContentVault

namespace ArchiveChoices

/-- Whether no digest is held against an expected one. -/
def ChecksNothing (o : ArchiveChoices) : Prop := o.doubleCheck = false ∨ o.expectedHash = none

/-- The same choices, but that a digest is expected and checked. -/
def checking (o : ArchiveChoices) (expected : String) : ArchiveChoices :=
  { o with expectedHash := some expected, doubleCheck := true }

end ArchiveChoices

/-- What two branches and the producer came to, if it was no failure. -/
theorem joined_eq_ok {α γ ρ : Type} {combine : α → γ → Nat → ρ} {x : Attempt α} {y : Attempt γ}
    {passed : Except ProducerFailure Nat} {r : ρ} (h : joined combine x y passed = .ok r) :
    ∃ p q n, x = .ok p ∧ y = .ok q ∧ passed = .ok n ∧ r = combine p q n := by
  cases x with
  | error f => cases y <;> cases h
  | ok p =>
      cases y with
      | error g => cases h
      | ok q =>
          cases passed with
          | error e => cases h
          | ok n => exact ⟨p, q, n, rfl, rfl, rfl, (Except.ok.inj h).symm⟩

/-- The digest of content that was stored is that of all its bytes, wherever it
    was stored. -/
theorem Archiver.hash_of_stored {β : Type} [BlobStorage β] {a : Archiver} {draws : Draws}
    {key : Option Key} {c : OfferedContent} {blobs blobs' : β} {stored : StoredContent}
    (h : a.storeContent draws key c blobs = (.ok stored, blobs')) :
    stored.hash = Fingerprint.ofBytes a.hashAlgorithm c.stream.data := by
  obtain ⟨toDigest, toBlob, passed, hsplit, hbytes, hend, -, -, hpassed⟩ := a.split_seen c
  have hjoined := a.storeContent_joined draws key c blobs
  rw [h, hsplit] at hjoined
  obtain ⟨ref, hash, n, -, hhash, hcounted, rfl⟩ := joined_eq_ok hjoined.symm
  rw [digestContent_eq, hbytes, hend] at hhash
  cases hfailure : (a.seen c).failure with
  | some e =>
      rw [hfailure] at hhash
      cases hhash
  | none =>
      rw [hfailure] at hhash
      -- the producer has counted, so it had its buffer
      have hbuffer : Tee.Bufferable a.branchBuffer := by
        refine Decidable.byContradiction fun hnot => ?_
        have hcrashed := (hpassed hfailure).trans (if_neg hnot)
        cases hcrashed.symm.trans hcounted
      rw [← seen_of_bufferable hbuffer c]
      exact (Except.ok.inj hhash).symm

namespace Archiver

variable {β : Type} [BlobStorage β] (a : Archiver) (draws : Draws) {c : OfferedContent}
  {o : ArchiveChoices} {s t : Stores β} {r : ArchiveReceipt}

/-! ## Where nothing is checked -/

theorem checkExpected_unchecked (h : o.ChecksNothing) (hash : Fingerprint) :
    checkExpected o hash = .ok (.skip "verify") := by
  obtain ⟨expected, encrypt, doubleCheck⟩ := o
  rcases h with rfl | rfl
  · cases expected <;> rfl
  · rfl

/-- Where nothing is checked, archiving depends on whether to encrypt, and on
    nothing else that was chosen or declared. -/
theorem archive_unchecked {o' : ArchiveChoices} (h : o.ChecksNothing) (h' : o'.ChecksNothing)
    (hencrypt : o'.encrypt = o.encrypt) (declared : Option String) :
    a.archive draws { c with expectedHash := declared } o' s = a.archive draws c o s := by
  have hkey : a.contentKey draws o' = a.contentKey draws o := by
    rw [contentKey, contentKey, hencrypt]
  have hcheck : ∀ stored, checkContent o' { c with expectedHash := declared } stored
      = checkContent o c stored := by
    intro stored
    rw [checkContent, checkContent, checkExpected_unchecked h, checkExpected_unchecked h']
  simp only [archive, hkey, hcheck]
  rfl

/-! ## Where a digest is checked -/

/-- All that archiving did that succeeded. -/
theorem archive_ok (h : a.archive draws c o s = (.ok r, t)) :
    a.Begins c o s.records ∧
    ∃ stored verify, a.storeContent draws (a.keyFor draws o) c s.blobs = (.ok stored, t.blobs) ∧
      checkContent o c stored = .ok verify ∧
      s.records.save (a.newEntry draws (a.keyFor draws o) c stored) = .ok t.records := by
  cases hcontains : s.records.contains c.id with
  | error e =>
      rw [archive, hcontains] at h
      cases h
  | ok present =>
      cases present with
      | true =>
          rw [archive, hcontains] at h
          cases h
      | false =>
          by_cases hkey : a.HasKey o
          · rw [archive_eq_concluded draws ⟨hcontains, hkey⟩] at h
            rcases hstore : a.storeContent draws (a.keyFor draws o) c s.blobs with ⟨result, blobs⟩
            rw [hstore] at h
            cases result with
            | error e => cases h
            | ok stored =>
                dsimp only [concluded] at h
                split at h
                · cases h
                · rename_i verify hverify
                  split at h
                  · cases h
                  · rename_i records hsave
                    cases h
                    exact ⟨⟨hcontains, hkey⟩, stored, verify, rfl, hverify, hsave⟩
          · obtain ⟨reason, hreason⟩ := contentKey_refused hkey
            rw [archive, hcontains] at h
            simp only [hreason] at h
            cases h

/-- Content that is archived under some choices comes, under any others that
    encrypt it just as well, to what is then made of its digest. -/
theorem archive_of_ok (h : a.archive draws c o s = (.ok r, t)) {o' : ArchiveChoices}
    (hencrypt : o'.encrypt = o.encrypt) :
    ∃ stored, a.archive draws c o' s =
      match checkExpected o' (Fingerprint.ofBytes a.hashAlgorithm c.stream.data) with
      | .error e => (.error e, { t with records := s.records })
      | .ok verify => (.ok (a.receipt (a.keyFor draws o) c stored verify), t) := by
  obtain ⟨hbegins, stored, verify, hstore, hcheck, hsave⟩ := a.archive_ok draws h
  obtain ⟨⟨⟩, hdeclared, -⟩ := Attempt.bind_eq_ok.mp hcheck
  have hkey : a.keyFor draws o' = a.keyFor draws o := by rw [keyFor, keyFor, hencrypt]
  have hbegins' : a.Begins c o' s.records := ⟨hbegins.1, fun he => hbegins.2 (hencrypt ▸ he)⟩
  refine ⟨stored, ?_⟩
  rw [archive_eq_concluded draws hbegins', hkey, hstore, ← hash_of_stored hstore]
  dsimp only [concluded]
  rw [checkContent, hdeclared, Attempt.ok_bind]
  cases checkExpected o' stored.hash with
  | error e => rfl
  | ok verify =>
      dsimp only
      rw [hsave]

/-- Whether this is what a checked digest decides, over stores that were `s`
    before and would be `t` after archiving without it.  If the text spells the
    digest, the content is archived.  If not, the error has the text as it was
    given and the digest in lower case, and the stores differ in that there is no
    record. -/
def Decides (a : Archiver) (c : OfferedContent) (expected : String) (s t : Stores β) :
    Attempt ArchiveReceipt × Stores β → Prop
  | (.ok _, u) => Text.IsHexOf expected (a.hashAlgorithm.digest c.stream.data) ∧ u = t
  | (.error e, u) =>
    ¬Text.IsHexOf expected (a.hashAlgorithm.digest c.stream.data) ∧
    e = .hashMismatch expected (Text.hex (a.hashAlgorithm.digest c.stream.data)) ∧
    u = { t with records := s.records } ∧ u.records.contains c.id = .ok false

/-- A digest that is expected and checked decides about content that is archived
    without it. -/
theorem archive_checking (h : a.archive draws c { o with expectedHash := none } s = (.ok r, t))
    (expected : String) :
    a.Decides c expected s t (a.archive draws c (o.checking expected) s) := by
  have hcontains := (a.archive_ok draws h).1.1
  have hcheck : checkExpected (o.checking expected)
      (Fingerprint.ofBytes a.hashAlgorithm c.stream.data)
      = if (Fingerprint.ofBytes a.hashAlgorithm c.stream.data).isSpelled expected
        then .ok (.success "verify" 0)
        else .error (.hashMismatch expected (Text.hex (a.hashAlgorithm.digest c.stream.data))) := rfl
  have hencrypt : (o.checking expected).encrypt = o.encrypt := rfl
  obtain ⟨stored, harchive⟩ := a.archive_of_ok draws h hencrypt
  rw [harchive, hcheck]
  by_cases hspelled : (Fingerprint.ofBytes a.hashAlgorithm c.stream.data).isSpelled expected = true
  · rw [if_pos hspelled]
    exact ⟨Fingerprint.isSpelled_iff.mp hspelled, rfl⟩
  · rw [if_neg hspelled]
    exact ⟨fun hhex => hspelled (Fingerprint.isSpelled_iff.mpr hhex), rfl, rfl, hcontains⟩

end Archiver

end ContentVault
