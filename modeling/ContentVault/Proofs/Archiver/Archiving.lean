import ContentVault.Proofs.Archiver.Storing
import ContentVault.Proofs.Store.Records

/-! # What archiving leaves behind

    An archive run has four ends (`archive_cases`): it is refused before a
    blob is begun, the blob is discarded, the blob stays without a record, or
    blob and record are there.  Which of them it is depends on the id, on the
    key, on what the branches of the tee see of the stream, and on what was said
    about the content in advance.

    Main statement: `archive_all_or_orphan`. -/

namespace ContentVault

/-! ## What was said in advance -/

namespace OfferedContent

/-- Whether the declared length, if there is one, is that of the bytes that
    are delivered. -/
def IsDeclaredRight (c : OfferedContent) : Prop :=
  ∀ n, c.length = some n → n.toNat = c.stream.data.length

end OfferedContent

namespace ArchiveChoices

/-- Whether a digest is refused: one is expected and checked, and this is
    another. -/
def Refuses (o : ArchiveChoices) (hash : Fingerprint) : Prop :=
  o.doubleCheck = true ∧ ∃ expected, o.expectedHash = some expected ∧
    hash.isSpelled expected = false

end ArchiveChoices

theorem BlobStore.checkLength_of_right {length : Option UInt64} {written : Nat}
    (h : ∀ n, length = some n → n.toNat = written) :
    checkLength length written = .ok () := by
  cases length with
  | none => rfl
  | some n => exact if_pos (h n rfl).symm

theorem BlobStore.checkLength_of_wrong {length : Option UInt64} {written : Nat}
    (h : ¬ ∀ n, length = some n → n.toNat = written) :
    ∃ e, checkLength length written = .error e := by
  cases length with
  | none => exact absurd (fun _ hn => nomatch hn) h
  | some n =>
      refine ⟨_, if_neg fun hn => h fun m hm => ?_⟩
      cases hm
      exact hn.symm

namespace Archiver

theorem checkDeclared_of_right {length : Option UInt64} {bytes : Nat}
    (h : ∀ n, length = some n → n.toNat = bytes) : checkDeclared length bytes = .ok () := by
  cases length with
  | none => rfl
  | some n => exact if_pos (h n rfl)

theorem checkDeclared_of_wrong {length : Option UInt64} {bytes : Nat}
    (h : ¬ ∀ n, length = some n → n.toNat = bytes) :
    ∃ e, checkDeclared length bytes = .error e := by
  cases length with
  | none => exact absurd (fun _ hn => nomatch hn) h
  | some n =>
      refine ⟨_, if_neg fun hn => h fun m hm => ?_⟩
      cases hm
      exact hn

theorem checkExpected_of_refuses {o : ArchiveChoices} {hash : Fingerprint}
    (h : o.Refuses hash) : ∃ e, checkExpected o hash = .error e := by
  obtain ⟨hcheck, expected, hexpected, hspelled⟩ := h
  refine ⟨.hashMismatch expected hash.value, ?_⟩
  unfold checkExpected
  rw [hcheck, hexpected]
  show (if hash.isSpelled expected then _ else _) = _
  rw [hspelled]
  rfl

theorem checkExpected_of_not_refuses {o : ArchiveChoices} {hash : Fingerprint}
    (h : ¬ o.Refuses hash) : ∃ stage, checkExpected o hash = .ok stage := by
  unfold checkExpected
  split
  · rename_i expected hexpected hcheck
    by_cases hspelled : hash.isSpelled expected = true
    · exact ⟨_, if_pos hspelled⟩
    · exact absurd ⟨hcheck, expected, hexpected, Bool.eq_false_iff.mpr hspelled⟩ h
  · exact ⟨_, rfl⟩

/-! ## The stages -/

/-- Whether a blob is begun: there is no record yet, and the key is there. -/
def Begins (a : Archiver) (c : OfferedContent) (o : ArchiveChoices) (records : RecordStore) : Prop :=
  records.contains c.id = .ok false ∧ a.HasKey o

/-- Whether a blob is completed: what is seen of the stream ends cleanly, and
    unless it is encrypted on the way, the blob has the declared length. -/
def IsCompleted (a : Archiver) (o : ArchiveChoices) (c : OfferedContent) : Prop :=
  (a.seen c).failure = none ∧
    (o.encrypt = true ∨ ∀ n, c.length = some n → n.toNat = (a.seen c).data.length)

theorem storeContent_of_completed (a : Archiver) (draws : Draws) {c : OfferedContent}
    {o : ArchiveChoices} (s : BlobStore) (h : a.IsCompleted o c) :
    a.storeContent draws (a.keyFor draws o) c s
      = (a.countedAs draws (a.seen c).data,
          added draws s (a.blobBytes draws (a.keyFor draws o) (a.seen c).data)) := by
  obtain ⟨hfailure, hlength⟩ := h
  have hcheck : BlobStore.checkLength (blobLength (a.keyFor draws o) c.length)
      (a.seen c).data.length = .ok () := by
    unfold blobLength
    rw [isSome_keyFor]
    rcases hlength with hencrypt | hright
    · rw [hencrypt]
      rfl
    · split
      · rfl
      · exact BlobStore.checkLength_of_right hright
  rw [storeContent_eq, hfailure]
  simp only [hcheck]

theorem storeContent_of_not_completed (a : Archiver) (draws : Draws) {c : OfferedContent}
    {o : ArchiveChoices} (s : BlobStore) (h : ¬ a.IsCompleted o c) :
    ∃ e, a.storeContent draws (a.keyFor draws o) c s = (.error e, discarded draws s) := by
  rw [storeContent_eq]
  cases hfailure : (a.seen c).failure with
  | some e => exact ⟨_, rfl⟩
  | none =>
      have hlength := fun hl => h ⟨hfailure, hl⟩
      have hencrypt : o.encrypt = false := Bool.eq_false_iff.mpr fun he => hlength (Or.inl he)
      obtain ⟨e, he⟩ := BlobStore.checkLength_of_wrong fun hr => hlength (Or.inr hr)
      have hcheck : BlobStore.checkLength (blobLength (a.keyFor draws o) c.length)
          (a.seen c).data.length = .error e := by
        unfold blobLength
        rw [isSome_keyFor, hencrypt]
        exact he
      refine ⟨e, ?_⟩
      simp only [hcheck]

/-- Whether content is vouched for once its blob is complete: the producer has
    counted it, and nothing of what was said about it in advance is wrong. -/
def IsVouched (a : Archiver) (o : ArchiveChoices) (c : OfferedContent) : Prop :=
  Tee.Bufferable a.branchBuffer ∧ c.IsDeclaredRight ∧
    ¬ o.Refuses (Fingerprint.ofBytes a.hashAlgorithm c.stream.data)

theorem countedAs_of_bufferable {a : Archiver} (h : Tee.Bufferable a.branchBuffer) (draws : Draws)
    (c : OfferedContent) :
    a.countedAs draws (a.seen c).data = .ok (a.storedAs draws c.stream.data) := by
  rw [seen_of_bufferable h, countedAs, if_pos h]

theorem checkContent_of_vouched {a : Archiver} (draws : Draws) {c : OfferedContent}
    {o : ArchiveChoices} (h : a.IsVouched o c) :
    ∃ verify, checkContent o c (a.storedAs draws c.stream.data) = .ok verify := by
  obtain ⟨-, hright, hrefuses⟩ := h
  have hdeclared : checkDeclared c.length (a.storedAs draws c.stream.data).bytes = .ok () :=
    checkDeclared_of_right hright
  unfold checkContent
  rw [hdeclared, Attempt.ok_bind]
  exact checkExpected_of_not_refuses hrefuses

/-- Content that is counted and still not vouched for does not stand a check. -/
theorem checkContent_of_not_vouched {a : Archiver} (draws : Draws) {c : OfferedContent}
    {o : ArchiveChoices} (hbuffer : Tee.Bufferable a.branchBuffer) (h : ¬ a.IsVouched o c) :
    ∃ e, checkContent o c (a.storedAs draws c.stream.data) = .error e := by
  have hbytes : (a.storedAs draws c.stream.data).bytes = c.stream.data.length := rfl
  unfold checkContent
  rw [hbytes]
  by_cases hright : c.IsDeclaredRight
  · have hrefuses : o.Refuses (Fingerprint.ofBytes a.hashAlgorithm c.stream.data) :=
      Classical.byContradiction fun hr => h ⟨hbuffer, hright, hr⟩
    rw [checkDeclared_of_right hright, Attempt.ok_bind]
    exact checkExpected_of_refuses hrefuses
  · obtain ⟨e, he⟩ := checkDeclared_of_wrong hright
    rw [he]
    exact ⟨e, rfl⟩

/-- The entry of content that was archived. -/
def entryFor (a : Archiver) (draws : Draws) (c : OfferedContent) (o : ArchiveChoices) : Entry :=
  a.newEntry draws (a.keyFor draws o) c (a.storedAs draws c.stream.data)

@[simp] theorem id_entryFor (a : Archiver) (draws : Draws) (c : OfferedContent)
    (o : ArchiveChoices) : (a.entryFor draws c o).record.id = c.id := by
  unfold entryFor newEntry newRecord
  cases a.keyFor draws o <;> rfl

/-- The bytes of the blob of content, once it is complete. -/
def blobFor (a : Archiver) (draws : Draws) (c : OfferedContent) (o : ArchiveChoices) : Bytes :=
  a.blobBytes draws (a.keyFor draws o) (a.seen c).data

theorem blobFor_of_bufferable {a : Archiver} (h : Tee.Bufferable a.branchBuffer) (draws : Draws)
    (c : OfferedContent) (o : ArchiveChoices) :
    a.blobFor draws c o = a.blobBytes draws (a.keyFor draws o) c.stream.data := by
  rw [blobFor, seen_of_bufferable h]

/-! ## The four ends -/

/-- All that archiving can come to. -/
theorem archive_cases (a : Archiver) (draws : Draws) (c : OfferedContent) (o : ArchiveChoices)
    (s : Stores BlobStore) :
    (¬ a.Begins c o s.records ∧ ∃ e, a.archive draws c o s = (.error e, s)) ∨
    (a.Begins c o s.records ∧ ¬ a.IsCompleted o c ∧
      ∃ e, a.archive draws c o s = (.error e, { s with blobs := discarded draws s.blobs })) ∨
    (a.Begins c o s.records ∧ a.IsCompleted o c ∧ ¬ a.IsVouched o c ∧
      ∃ e, a.archive draws c o s
        = (.error e, { s with blobs := added draws s.blobs (a.blobFor draws c o) })) ∨
    (a.Begins c o s.records ∧ a.IsCompleted o c ∧ a.IsVouched o c ∧
      ∃ verify records, a.archive draws c o s
          = (.ok (a.receipt (a.keyFor draws o) c (a.storedAs draws c.stream.data) verify),
            ⟨added draws s.blobs (a.blobFor draws c o), records⟩) ∧
        records.table.rows = s.records.table.rows ++ [Row.ofEntry (a.entryFor draws c o)]) := by
  by_cases hcontains : s.records.contains c.id = .ok false
  · by_cases hkey : a.HasKey o
    · refine Or.inr ?_
      have hbegins : a.Begins c o s.records := ⟨hcontains, hkey⟩
      have hcontent := contentKey_eq draws hkey
      by_cases hcompleted : a.IsCompleted o c
      · have hstore := a.storeContent_of_completed draws s.blobs hcompleted
        by_cases hvouched : a.IsVouched o c
        · -- saving is not refused: there was no record when the run began
          obtain ⟨verify, hverify⟩ := checkContent_of_vouched draws hvouched
          have hcounted := countedAs_of_bufferable hvouched.1 draws c
          have hfind := RecordStore.contains_eq_ok_false_iff.mp hcontains
          rcases s.records.save_cases (a.entryFor draws c o) with ⟨-, t, hsave, hrows⟩
            | ⟨hfound, -⟩
          · refine Or.inr (Or.inr ⟨hbegins, hcompleted, hvouched, verify, t, ?_, hrows⟩)
            unfold archive entryFor at *
            simp only [hcontains, hcontent, hstore, hcounted, hverify, hsave]
            rfl
          · rw [id_entryFor] at hfound
            exact absurd hfind hfound
        · refine Or.inr (Or.inl ⟨hbegins, hcompleted, hvouched, ?_⟩)
          unfold archive
          by_cases hbuffer : Tee.Bufferable a.branchBuffer
          · obtain ⟨e, he⟩ := checkContent_of_not_vouched draws hbuffer hvouched
            simp only [hcontains, hcontent, hstore, countedAs_of_bufferable hbuffer draws c, he]
            exact ⟨e, rfl⟩
          · rw [countedAs, if_neg hbuffer] at hstore
            simp only [hcontains, hcontent, hstore]
            exact ⟨_, rfl⟩
      · obtain ⟨e, he⟩ := a.storeContent_of_not_completed draws s.blobs hcompleted
        refine Or.inl ⟨hbegins, hcompleted, e, ?_⟩
        unfold archive
        simp only [hcontains, hcontent, he]
    · -- there is no record yet, but the key is refused
      obtain ⟨reason, hreason⟩ := contentKey_refused hkey
      refine Or.inl ⟨fun h => hkey h.2, .keyDerivationFailed reason, ?_⟩
      unfold archive
      simp only [hcontains, hreason]
  · -- there is a record already, or its row cannot be read
    refine Or.inl ⟨fun h => hcontains h.1, ?_⟩
    unfold archive
    cases hc : s.records.contains c.id with
    | error e => exact ⟨e, rfl⟩
    | ok present =>
        cases present with
        | true => exact ⟨_, rfl⟩
        | false => exact absurd hc hcontains

/-- New content is archived if its key is there, it ends cleanly and it is
    vouched for. -/
theorem archive_of_vouched (a : Archiver) (draws : Draws) {c : OfferedContent}
    {o : ArchiveChoices} {s : Stores BlobStore} (hbegins : a.Begins c o s.records)
    (hclean : c.stream.failure = none) (hvouched : a.IsVouched o c) :
    ∃ verify records, a.archive draws c o s
        = (.ok (a.receipt (a.keyFor draws o) c (a.storedAs draws c.stream.data) verify),
          ⟨added draws s.blobs (a.blobFor draws c o), records⟩) ∧
      records.table.rows = s.records.table.rows ++ [Row.ofEntry (a.entryFor draws c o)] := by
  have hseen := seen_of_bufferable hvouched.1 c
  rcases a.archive_cases draws c o s with ⟨hnot, -⟩ | ⟨-, hcompleted, -⟩
    | ⟨-, -, hrefused, -⟩ | ⟨-, -, -, hends⟩
  · exact absurd hbegins hnot
  · exact absurd ⟨hseen ▸ hclean, Or.inr (hseen ▸ hvouched.2.1)⟩ hcompleted
  · exact absurd hvouched hrefused
  · exact hends

end Archiver

/-! ## All or an orphan -/

/-- Whether a UUID is fresh: no file has the name of its blob or the name under
    which that is written, and no row refers to it in any spelling. -/
structure Stores.IsFresh (s : Stores BlobStore) (id : Uuid) : Prop where
  unused : s.blobs.root.get? id.text = none
  unwritten : s.blobs.root.get? (BlobStore.temporaryName id) = none
  unnamed : ∀ r ∈ s.records.table.rows, ∀ ref, r .contentRefId = .text ref →
    BlobStore.fileName? ref ≠ some id.text

/-- Whether all that happened to a store is that it gained a blob. -/
def BlobStore.Gains (s t : BlobStore) (ref : String) (bytes : Bytes) (created : Timestamp) : Prop :=
  t.root.entries = s.root.entries ++ [(ref, .file bytes created)]

namespace Archiver

theorem gains_added {draws : Draws} {s : Stores BlobStore} (h : s.IsFresh draws.blob)
    (bytes : Bytes) :
    s.blobs.Gains (added draws s.blobs bytes) draws.blob.text bytes draws.now := by
  rw [added_of_unwritten h.unwritten]
  exact Directory.entries_set h.unused _

/-- Whether archiving leaves a blob without a record.  There has to be no record
    yet, and a key.  If the tee has its buffer, the stream has to end cleanly,
    and either the content is encrypted and its declared length is wrong, or it
    is not but the digest is refused.  If it has none, an empty blob is left
    unless it is held against a declared length of more than nothing. -/
def LeavesOrphan (a : Archiver) (c : OfferedContent) (o : ArchiveChoices)
    (s : Stores BlobStore) : Prop :=
  a.Begins c o s.records ∧
    if Tee.Bufferable a.branchBuffer then
      c.stream.failure = none ∧
        ((o.encrypt = true ∧ ¬ c.IsDeclaredRight) ∨
          (c.IsDeclaredRight ∧ o.Refuses (Fingerprint.ofBytes a.hashAlgorithm c.stream.data)))
    else o.encrypt = true ∨ ∀ n, c.length = some n → n.toNat = 0

/-- A blob without a record is one that is completed and then not vouched for. -/
theorem leavesOrphan_iff {a : Archiver} {c : OfferedContent} {o : ArchiveChoices}
    {s : Stores BlobStore} :
    a.LeavesOrphan c o s ↔
      a.Begins c o s.records ∧ a.IsCompleted o c ∧ ¬ a.IsVouched o c := by
  unfold LeavesOrphan IsCompleted
  refine and_congr_right fun _ => ?_
  by_cases hbuffer : Tee.Bufferable a.branchBuffer
  · rw [if_pos hbuffer, seen_of_bufferable hbuffer]
    constructor
    · rintro ⟨hfailure, ⟨hencrypt, hwrong⟩ | ⟨hright, hrefuses⟩⟩
      · exact ⟨⟨hfailure, Or.inl hencrypt⟩, fun h => hwrong h.2.1⟩
      · exact ⟨⟨hfailure, Or.inr hright⟩, fun h => h.2.2 hrefuses⟩
    · -- a plain blob was held against the declared length before it was completed
      rintro ⟨⟨hfailure, hlength⟩, hvouched⟩
      refine ⟨hfailure, ?_⟩
      by_cases hright : c.IsDeclaredRight
      · exact Or.inr
          ⟨hright, Classical.byContradiction fun hr => hvouched ⟨hbuffer, hright, hr⟩⟩
      · exact Or.inl ⟨hlength.resolve_right hright, hright⟩
  · -- nothing is seen, and nothing is counted
    rw [if_neg hbuffer, seen_of_not_bufferable hbuffer]
    exact ⟨fun h => ⟨⟨rfl, h⟩, fun hvouched => hbuffer hvouched.1⟩, fun h => h.1.2⟩

/-- Archiving adds a record and the blob that it names, or no record at all.
    Without a record at most one blob is added, a complete one that no record
    names, and this happens exactly in the cases of `LeavesOrphan`. -/
theorem archive_all_or_orphan (a : Archiver) (draws : Draws) (c : OfferedContent)
    (o : ArchiveChoices) (s : Stores BlobStore) (hfresh : s.IsFresh draws.blob) :
    match a.archive draws c o s with
    | (.ok _, t) =>
      ¬ a.LeavesOrphan c o s ∧
      (∃ e : Entry, t.records.table.rows = s.records.table.rows ++ [Row.ofEntry e] ∧
        e.record.id = c.id ∧ e.content.contentRef = draws.blob.text) ∧
      s.blobs.Gains t.blobs draws.blob.text (a.blobFor draws c o) draws.now
    | (.error _, t) =>
      t.records = s.records ∧
      (a.LeavesOrphan c o s →
        s.blobs.Gains t.blobs draws.blob.text (a.blobFor draws c o) draws.now ∧
        ∀ r ∈ t.records.table.rows, ∀ ref, r .contentRefId = .text ref →
          BlobStore.fileName? ref ≠ some draws.blob.text) ∧
      (¬ a.LeavesOrphan c o s → t.blobs = s.blobs) := by
  rcases a.archive_cases draws c o s with ⟨hnot, e, harchive⟩
    | ⟨hbegins, hcompleted, e, harchive⟩ | ⟨hbegins, hcompleted, hvouched, e, harchive⟩
    | ⟨hbegins, hcompleted, hvouched, verify, records, harchive, hrows⟩
  · rw [harchive]
    exact ⟨rfl, fun h => absurd h.1 hnot, fun _ => rfl⟩
  · rw [harchive]
    exact ⟨rfl, fun h => absurd (leavesOrphan_iff.mp h).2.1 hcompleted,
      fun _ => discarded_of_unwritten hfresh.unwritten⟩
  · rw [harchive]
    have horphan : a.LeavesOrphan c o s := leavesOrphan_iff.mpr ⟨hbegins, hcompleted, hvouched⟩
    exact ⟨rfl, fun _ => ⟨gains_added hfresh _, hfresh.unnamed⟩, fun h => absurd horphan h⟩
  · rw [harchive]
    exact ⟨fun h => (leavesOrphan_iff.mp h).2.2 hvouched,
      ⟨a.entryFor draws c o, hrows, a.id_entryFor draws c o, rfl⟩, gains_added hfresh _⟩

end Archiver

/-! ## A vault to look at -/

namespace Sample

/-- A vault with one key version. -/
def archiver : Archiver where
  keys := ⟨[(1, .hkdf "content")], 1, by decide, by decide⟩
  secret := ⟨List.replicate 16 7, by decide⟩
  branchBuffer := 1
  branchBuffer_pos := Nat.one_pos

/-- The draws for one piece of content. -/
def draws : Draws where
  blob := .ofNat 1
  salt := List.replicate 32 0
  length_salt := rfl
  contentNonce := ⟨List.replicate 12 0, rfl⟩
  metadataNonce := ⟨List.replicate 12 1, rfl⟩
  now := .midnight ((Date.ofParts? 2024 1 1).get (by decide))

/-- The same vault with a buffer that is too large for any memory. -/
def unbuffered : Archiver := archiver.withBuffer 18446744073709551615

theorem not_bufferable_unbuffered : ¬ Tee.Bufferable unbuffered.branchBuffer := by decide

/-- A derivation of keys from an application context takes every secret. -/
theorem hasKey (o : ArchiveChoices) : archiver.HasKey o := fun _ _ => trivial

/-- Three bytes that are declared to be five. -/
def misdeclared : OfferedContent :=
  ⟨"report", "report.txt", "text/plain", some 5, none, { data := [104, 105, 33] }⟩

/-- Three bytes of which nothing is declared. -/
def undeclared : OfferedContent := { misdeclared with length := none }

/-- A vault that nothing was archived in. -/
def stores : Stores BlobStore := ⟨.empty, .empty⟩

theorem isFresh (id : Uuid) : stores.IsFresh id :=
  ⟨rfl, rfl, fun _ h => nomatch h⟩

end Sample

namespace Archiver

/-- Encrypted content that is shorter than it was declared to be leaves its
    blob behind, and no record; so does content for which there is no buffer, and
    that blob is empty. -/
theorem misdeclared_leaves_orphan :
    Sample.stores.IsFresh Sample.draws.blob ∧
    (∃ e t, Sample.archiver.archive Sample.draws Sample.misdeclared { encrypt := true }
        Sample.stores = (.error e, t) ∧
      t.records = Sample.stores.records ∧
      Sample.stores.blobs.Gains t.blobs Sample.draws.blob.text
        (Sample.archiver.blobFor Sample.draws Sample.misdeclared { encrypt := true })
        Sample.draws.now) ∧
    ∃ e t, Sample.unbuffered.archive Sample.draws Sample.undeclared {} Sample.stores
        = (.error e, t) ∧
      t.records = Sample.stores.records ∧
      Sample.stores.blobs.Gains t.blobs Sample.draws.blob.text [] Sample.draws.now := by
  have hfresh := Sample.isFresh Sample.draws.blob
  refine ⟨hfresh, ?_, ?_⟩
  · have hends := archive_all_or_orphan Sample.archiver Sample.draws Sample.misdeclared
      { encrypt := true } Sample.stores hfresh
    have horphan : Sample.archiver.LeavesOrphan Sample.misdeclared { encrypt := true }
        Sample.stores := by
      refine ⟨⟨rfl, Sample.hasKey _⟩, ?_⟩
      rw [if_pos (by decide)]
      refine ⟨rfl, Or.inl ⟨rfl, fun h => ?_⟩⟩
      exact absurd (h 5 rfl) (by decide)
    generalize Sample.archiver.archive Sample.draws Sample.misdeclared { encrypt := true }
      Sample.stores = out at hends ⊢
    obtain ⟨result, t⟩ := out
    cases result with
    | ok receipt => exact absurd horphan hends.1
    | error e => exact ⟨e, t, rfl, hends.1, (hends.2.1 horphan).1⟩
  · have hends := archive_all_or_orphan Sample.unbuffered Sample.draws Sample.undeclared {}
      Sample.stores hfresh
    have horphan : Sample.unbuffered.LeavesOrphan Sample.undeclared {} Sample.stores := by
      refine ⟨⟨rfl, Sample.hasKey _⟩, ?_⟩
      rw [if_neg Sample.not_bufferable_unbuffered]
      exact Or.inr fun n hn => nomatch hn
    have hempty : Sample.unbuffered.blobFor Sample.draws Sample.undeclared {} = [] := by
      rw [blobFor, seen_of_not_bufferable Sample.not_bufferable_unbuffered]
      rfl
    rw [hempty] at hends
    generalize Sample.unbuffered.archive Sample.draws Sample.undeclared {} Sample.stores = out
      at hends ⊢
    obtain ⟨result, t⟩ := out
    cases result with
    | ok receipt => exact absurd horphan hends.1
    | error e => exact ⟨e, t, rfl, hends.1, (hends.2.1 horphan).1⟩

end Archiver

end ContentVault
