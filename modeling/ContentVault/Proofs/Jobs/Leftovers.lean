import ContentVault.Proofs.Jobs.Collecting
import ContentVault.Proofs.Store.Refused

/-! # What a failed upload leaves behind

    An upload that fails leaves the directory as it was, with one exception:
    where the renaming is all that stands in its way, the complete file stays
    under its name for writing.  No reference leads to such a name and no list
    has it, so the file is out of everybody's reach, and no run of the orphan
    sweep removes it (`get?_sweptBy`).

    Main statement: `failed_put_traceless_iff`. -/

namespace ContentVault

open ReaderView

/-! ## Files that are being written -/

/-- A file that is being written is not listed. -/
theorem BlobStore.list_of_gains {s t : BlobStore} {id : Uuid} {bytes : Bytes}
    {created : Timestamp} (h : s.Gains t (temporaryName id) bytes created) : t.list = s.list := by
  have hunlisted : blobInfo? (temporaryName id, .file bytes created) = none := by
    rw [blobInfo?, parse?_temporaryName]
    rfl
  rw [list, show t.root.entries = _ from h, List.filterMap_append,
    List.filterMap_cons_none hunlisted]
  exact List.append_nil _

namespace Caretaker

variable {ω ν : Type}

/-- No run of the sweep takes a file that is being written. -/
theorem not_sweepTakes_temporaryName (c : Caretaker) (time : Timestamp)
    (w : JobState ω BlobStore ν) (id : Uuid) :
    ¬ c.SweepTakes time w (BlobStore.temporaryName id) := by
  rintro ⟨cutoff, known, -, b, -, ⟨-, hname⟩, -⟩
  exact BlobStore.fileName?_ne_temporaryName b.contentRef id hname

variable [ContentOrigin ω] [NotaryService ν]

/-- The state after one run of the sweep after the other, each by its own rules and at
    its own time. -/
def sweptBy (w : JobState ω BlobStore ν) (runs : List (Caretaker × Instant × Timestamp)) :
    JobState ω BlobStore ν :=
  runs.foldl (fun w r => (r.1.run r.2.1 r.2.2 .orphans w).2) w

/-- A file that is being written survives all of them. -/
theorem get?_sweptBy (w : JobState ω BlobStore ν)
    (runs : List (Caretaker × Instant × Timestamp)) {id : Uuid} {bytes : Bytes}
    {created : Timestamp}
    (h : w.stores.blobs.root.get? (BlobStore.temporaryName id) = some (.file bytes created)) :
    (sweptBy w runs).stores.blobs.root.get? (BlobStore.temporaryName id)
      = some (.file bytes created) := by
  induction runs generalizing w with
  | nil => exact h
  | cons r runs ih =>
      refine ih _ ?_
      rcases r.1.get?_run_orphans r.2.1 r.2.2 w h with ⟨htakes, -⟩ | ⟨-, hstays⟩
      · exact absurd htakes (r.1.not_sweepTakes_temporaryName r.2.2 w id)
      · exact hstays

end Caretaker

/-! ## Failed uploads -/

namespace BlobStore

/-- Whether all that happened to a store is that it gained a file under a name for
    writing, which is beyond the reach of references, lists and sweeps. -/
structure LeavesFile (s t : BlobStore) (id : Uuid) (bytes : Bytes) (created : Timestamp) :
    Prop where
  gains : s.Gains t (temporaryName id) bytes created
  unlisted : t.list = s.list
  unreached : ∀ ref, fileName? ref ≠ some (temporaryName id)
  unswept : ∀ {ω ν : Type} [ContentOrigin ω] [NotaryService ν] (w : JobState ω BlobStore ν)
    (runs : List (Caretaker × Instant × Timestamp)), w.stores.blobs = t →
      (Caretaker.sweptBy w runs).stores.blobs.root.get? (temporaryName id)
        = some (.file bytes created)

theorem leavesFile_set {s : BlobStore} {id : Uuid} (h : s.root.get? (temporaryName id) = none)
    (bytes : Bytes) (created : Timestamp) :
    s.LeavesFile ⟨s.root.set (temporaryName id) (.file bytes created)⟩ id bytes created := by
  have hgains : s.Gains ⟨s.root.set (temporaryName id) (.file bytes created)⟩
      (temporaryName id) bytes created := Directory.entries_set h _
  constructor
  case gains => exact hgains
  case unlisted => exact list_of_gains hgains
  case unreached => exact fun ref => fileName?_ne_temporaryName ref id
  case unswept =>
    rintro ω ν _ _ w runs hblobs
    apply Caretaker.get?_sweptBy
    rw [hblobs]
    exact Directory.get?_set_self _ _ _

/-- Whatever the file system refuses, a blob that could not be stored has left the
    directory as it was, unless nothing but the renaming was in its way: with the renaming
    it would have been stored.  In that case the renaming is what failed, and the complete
    file stays for ever under its name for writing. -/
theorem failed_put_traceless_iff {σ : Type} [ByteReader σ] [ReaderView σ] (refuse : Refusals)
    (s t : BlobStore) (id : Uuid) (now : Timestamp) (stream : σ) (length : Option UInt64)
    (e : VaultFailure) (hunwritten : s.root.get? (temporaryName id) = none)
    (hfailed : s.putUnless refuse id now stream length = (.error e, t)) :
    (t = s ↔ ¬ ∃ u, s.putUnless (refuse.sparing .rename) id now stream length
      = (.ok id.text, u)) ∧
    (t ≠ s → (∃ cause, refuse .rename = some cause ∧ e = .ofIo cause) ∧
      s.LeavesFile t id (content stream) now) := by
  rcases s.putUnless_cases refuse id now stream length with ⟨e', hput, hspared⟩
    | ⟨cause, hrename, hput, u, hspared⟩ | ⟨-, u, hput⟩
  · -- the file was removed again
    obtain ⟨-, rfl⟩ := Prod.mk.inj (hfailed.symm.trans hput)
    rw [Directory.erase_of_get? hunwritten]
    refine ⟨iff_of_true rfl ?_, fun hne => absurd rfl hne⟩
    rintro ⟨u, hok⟩
    cases hspared.symm.trans hok
  · -- the file stays, and so there is one more entry than before
    obtain ⟨he, rfl⟩ := Prod.mk.inj (hfailed.symm.trans hput)
    have hleft := leavesFile_set hunwritten (content stream) now
    refine ⟨iff_of_false ?_ (fun hnot => hnot ⟨u, hspared⟩), fun _ =>
      ⟨⟨cause, hrename, Except.error.inj he⟩, hleft⟩⟩
    intro hsame
    have hgains : s.root.entries = s.root.entries ++ [_] :=
      (congrArg (fun u : BlobStore => u.root.entries) hsame).symm.trans hleft.gains
    have hlen := congrArg List.length hgains
    rw [List.length_append] at hlen
    exact Nat.succ_ne_self _ hlen.symm
  · cases hfailed.symm.trans hput

end BlobStore

namespace Sample

/-- A file system that does everything but rename. -/
def unrenaming : Refusals := .only .rename (.system .permissionDenied "not allowed")

/-- Two bytes. -/
def brief : Source := { data := [104, 105] }

theorem unrenaming_sparing : unrenaming.sparing .rename = fun _ => none := by
  funext step
  cases step <;> rfl

end Sample

namespace BlobStore

/-- Two bytes that could all be written stay behind when their file is not renamed. -/
theorem unrenamed_bytes_stay :
    empty.root.get? (temporaryName (.ofNat 1)) = none ∧
    ∃ t, empty.putUnless Sample.unrenaming (.ofNat 1) Sample.draws.now Sample.brief (some 2)
        = (.error (.io (.system .permissionDenied "not allowed")), t) ∧
      t ≠ empty ∧ empty.LeavesFile t (.ofNat 1) [104, 105] Sample.draws.now := by
  obtain ⟨u, hstored⟩ : ∃ u, empty.putUnless (Sample.unrenaming.sparing .rename) (.ofNat 1)
      Sample.draws.now Sample.brief (some 2) = (.ok (Uuid.ofNat 1).text, u) := by
    rw [Sample.unrenaming_sparing]
    exact ⟨_, put_eq empty (.ofNat 1) Sample.draws.now Sample.brief (some 2)⟩
  refine ⟨rfl, ?_⟩
  rcases empty.putUnless_cases Sample.unrenaming (.ofNat 1) Sample.draws.now Sample.brief (some 2)
    with ⟨e, -, hspared⟩ | ⟨cause, hrename, hput, -⟩ | ⟨hnone, -⟩
  · cases hstored.symm.trans hspared
  · cases hrename
    obtain ⟨hsame, hleaves⟩ := failed_put_traceless_iff Sample.unrenaming empty _ (.ofNat 1)
      Sample.draws.now Sample.brief (some 2) _ rfl hput
    have hne := fun heq => hsame.mp heq ⟨u, hstored⟩
    exact ⟨_, hput, hne, (hleaves hne).2⟩
  · cases hnone

end BlobStore

end ContentVault
