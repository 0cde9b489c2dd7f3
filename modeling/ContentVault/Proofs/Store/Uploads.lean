import ContentVault.Proofs.Store.Blobs

/-! # Storing a blob, one file operation after the other

    A blob is written to a file with a name for writing, a portion at a time, and
    only when all of it is there and has the length that was declared is the file
    renamed.  A `Upload` is content on this way.  How it goes on depends on its
    stream alone (`advance`); what it does to a directory on the way is a `FileChange`.

    It ends as its stream does (`IsAt`), after no more steps than it has bytes and
    three (`rank_advance_le`).  With nothing in between, its changes are what
    `BlobStore.put` does (`proceed_eq_put`). -/

namespace ContentVault

open ByteReader ReaderView

/-- A stream that is stored under a UUID, and the length that was declared for it. -/
structure Upload (σ : Type) where
  id : Uuid
  stream : σ
  length : Option UInt64

/-- How far an upload has come. -/
inductive UploadStage (σ : Type) where
  | called
  /-- There is a file under the name for writing, with what was read so far. -/
  | writing (rest : σ) (written : Bytes) (created : Timestamp)
  /-- The file is complete. -/
  | complete (written : Bytes) (created : Timestamp)
  /-- There will be no blob, but the file is still there. -/
  | failed (e : VaultFailure) (written : Bytes) (created : Timestamp)
  | ended (result : Attempt String)

/-- What a step of an upload does where blobs are kept. -/
inductive FileChange where
  | nothing
  /-- Creates the file under the name for writing. -/
  | create (now : Timestamp)
  /-- Writes at its end. -/
  | append (bytes : Bytes)
  /-- Removes it. -/
  | discard
  /-- Gives it the name of the blob; by then it holds these bytes. -/
  | publish (bytes : Bytes) (created : Timestamp)

namespace UploadStage

variable {σ : Type}

/-- The result of an upload that has ended. -/
def result? : UploadStage σ → Option (Attempt String)
  | ended result => some result
  | _ => none

/-- What stands under the name for writing. -/
def file? : UploadStage σ → Option Node
  | writing _ written created => some (.file written created)
  | complete written created => some (.file written created)
  | failed _ written created => some (.file written created)
  | called => none
  | ended _ => none

end UploadStage

namespace Upload

variable {σ : Type} [ByteReader σ]

/-- Takes an upload to its next stage. -/
def advance (d : Upload σ) (now : Timestamp) : UploadStage σ → UploadStage σ × FileChange
  | .called => (.writing d.stream [] now, .create now)
  | .writing rest written created =>
    match read rest copyBuffer with
    | (.error e, _) => (.failed (.ofIo e) written created, .nothing)
    | (.ok bytes, rest') =>
      if bytes = [] then
        match BlobStore.checkLength d.length written.length with
        | .error e => (.failed e written created, .nothing)
        | .ok () => (.complete written created, .nothing)
      else (.writing rest' (written ++ bytes) created, .append bytes)
  | .complete written created => (.ended (.ok d.id.text), .publish written created)
  | .failed e _ _ => (.ended (.error e), .discard)
  | .ended result => (.ended result, .nothing)

/-- What an upload comes to. -/
def verdict [ReaderView σ] (d : Upload σ) : Attempt String :=
  match ending d.stream with
  | some e => .error (.ofIo e)
  | none =>
    match BlobStore.checkLength d.length (content d.stream).length with
    | .error e => .error e
    | .ok () => .ok d.id.text

/-- How many steps are left at most. -/
def rank (d : Upload σ) : UploadStage σ → Nat
  | .called => left d.stream + 3
  | .writing rest _ _ => left rest + 2
  | .complete _ _ => 1
  | .failed _ _ _ => 1
  | .ended _ => 0

end Upload

namespace Directory

/-- Writes at the end of a file. -/
def append (d : Directory) (name : String) (bytes : Bytes) : Directory :=
  match d.get? name with
  | some (.file written created) => d.set name (.file (written ++ bytes) created)
  | _ => d

theorem set_set (d : Directory) (name : String) (node other : Node) :
    (d.set name node).set name other = d.set name other := by
  apply ext_entries
  show ((d.set name node).erase name).entries ++ _ = (d.erase name).entries ++ _
  rw [erase_set]

/-- What is written at the end of a file stands there. -/
theorem append_of_get? {d : Directory} {name : String} {written : Bytes} {created : Timestamp}
    (h : d.get? name = some (.file written created)) (bytes : Bytes) :
    d.append name bytes = d.set name (.file (written ++ bytes) created) := by
  rw [append, h]

end Directory

namespace BlobStore

/-- Does to a directory what a step of an upload does. -/
def perform (s : BlobStore) (id : Uuid) : FileChange → BlobStore
  | .nothing => s
  | .create now => ⟨s.root.set (temporaryName id) (.file [] now)⟩
  | .append bytes => ⟨s.root.append (temporaryName id) bytes⟩
  | .discard => ⟨s.root.erase (temporaryName id)⟩
  | .publish _ _ => ⟨s.root.rename (temporaryName id) id.text⟩

/-- A length check passes exactly if no other length was declared. -/
theorem checkLength_eq_ok_iff (length : Option UInt64) (written : Nat) :
    checkLength length written = .ok () ↔ ∀ n, length = some n → written = n.toNat := by
  cases length with
  | none => exact iff_of_true rfl fun _ h => nomatch h
  | some expected =>
      simp only [checkLength, Option.some.injEq]
      by_cases hsame : written = expected.toNat
      · rw [if_pos hsame]
        exact iff_of_true rfl fun n hn => hn ▸ hsame
      · rw [if_neg hsame]
        exact iff_of_false (fun h => nomatch h) fun h => hsame (h expected rfl)

end BlobStore

/-! ## One step -/

namespace Upload

variable {σ : Type} [ByteReader σ] (d : Upload σ)

/-- All that a step of an upload that is being written can come to. -/
theorem advance_writing (now : Timestamp) (rest : σ) (written : Bytes) (created : Timestamp) :
    (∃ e rest', read rest copyBuffer = (.error e, rest') ∧
      d.advance now (.writing rest written created)
        = (.failed (.ofIo e) written created, .nothing)) ∨
    (∃ rest' e, read rest copyBuffer = (.ok [], rest') ∧
      BlobStore.checkLength d.length written.length = .error e ∧
      d.advance now (.writing rest written created)
        = (.failed e written created, .nothing)) ∨
    (∃ rest', read rest copyBuffer = (.ok [], rest') ∧
      BlobStore.checkLength d.length written.length = .ok () ∧
      d.advance now (.writing rest written created) = (.complete written created, .nothing)) ∨
    (∃ bytes rest', read rest copyBuffer = (.ok bytes, rest') ∧ bytes ≠ [] ∧
      d.advance now (.writing rest written created)
        = (.writing rest' (written ++ bytes) created, .append bytes)) := by
  rw [advance]
  rcases hread : read rest copyBuffer with ⟨result, rest'⟩
  cases result with
  | error e => exact Or.inl ⟨e, rest', rfl, rfl⟩
  | ok bytes =>
      by_cases hend : bytes = []
      · subst hend
        simp only [if_pos]
        cases hcheck : BlobStore.checkLength d.length written.length with
        | error e => exact Or.inr (Or.inl ⟨rest', e, rfl, rfl, rfl⟩)
        | ok u => exact Or.inr (Or.inr (Or.inl ⟨rest', rfl, rfl, rfl⟩))
      · refine Or.inr (Or.inr (Or.inr ⟨bytes, rest', rfl, hend, ?_⟩))
        simp only [if_neg hend]

/-- Every step brings an upload closer to its end. -/
theorem rank_advance_le (now : Timestamp) (stage : UploadStage σ) :
    d.rank (d.advance now stage).1 ≤ d.rank stage - 1 := by
  cases stage with
  | called => exact Nat.le_refl _
  | writing rest written created =>
      rcases d.advance_writing now rest written created with ⟨e, rest', -, hstep⟩
        | ⟨rest', e, -, -, hstep⟩ | ⟨rest', -, -, hstep⟩ | ⟨bytes, rest', hread, hne, hstep⟩
      · rw [hstep]
        exact Nat.le_add_left 1 (left rest)
      · rw [hstep]
        exact Nat.le_add_left 1 (left rest)
      · rw [hstep]
        exact Nat.le_add_left 1 (left rest)
      · rw [hstep]
        have hleft := left_read hread
        have hpos := List.length_pos_iff.mpr hne
        show left rest' + 2 ≤ left rest + 1
        omega
  | complete written created => exact Nat.le_refl _
  | failed e written created => exact Nat.le_refl _
  | ended result => exact Nat.le_refl _

theorem ended_of_rank {stage : UploadStage σ} (h : d.rank stage = 0) :
    ∃ result, stage = .ended result := by
  cases stage with
  | ended result => exact ⟨result, rfl⟩
  | called => exact absurd h (Nat.succ_ne_zero _)
  | writing rest written created => exact absurd h (Nat.succ_ne_zero _)
  | complete written created => exact absurd h (Nat.succ_ne_zero _)
  | failed e written created => exact absurd h (Nat.succ_ne_zero _)

variable [ReaderView σ]

/-- What is true of an upload at a stage: what was written is what was read, and it
    ends as its stream does. -/
def IsAt : UploadStage σ → Prop
  | .called => True
  | .writing rest written _ =>
    content d.stream = written ++ content rest ∧ ending d.stream = ending rest
  | .complete written _ => written = content d.stream ∧ d.verdict = .ok d.id.text
  | .failed e _ _ => d.verdict = .error e
  | .ended result => result = d.verdict

theorem isAt_advance (now : Timestamp) {stage : UploadStage σ} (h : d.IsAt stage) :
    d.IsAt (d.advance now stage).1 := by
  have hroom : 0 < copyBuffer := by decide
  cases stage with
  | called => exact ⟨rfl, rfl⟩
  | writing rest written created =>
      obtain ⟨hwritten, hending⟩ := h
      rcases d.advance_writing now rest written created with ⟨e, rest', hread, hstep⟩
        | ⟨rest', e, hread, hcheck, hstep⟩ | ⟨rest', hread, hcheck, hstep⟩
        | ⟨bytes, rest', hread, hne, hstep⟩
      · rw [hstep]
        obtain ⟨-, hfailure⟩ := read_failure hroom hread
        show d.verdict = _
        rw [verdict, hending, hfailure]
      · rw [hstep]
        obtain ⟨hnil, hclean, -⟩ := read_end hroom hread
        rw [hnil, List.append_nil] at hwritten
        show d.verdict = _
        rw [verdict, hending, hclean, hwritten]
        simp only [hcheck]
      · rw [hstep]
        obtain ⟨hnil, hclean, -⟩ := read_end hroom hread
        rw [hnil, List.append_nil] at hwritten
        refine ⟨hwritten.symm, ?_⟩
        rw [verdict, hending, hclean, hwritten]
        simp only [hcheck]
      · rw [hstep]
        obtain ⟨hcontent, hsame⟩ := read_bytes hroom hne hread
        refine ⟨?_, hending.trans hsame.symm⟩
        rw [hwritten, hcontent, List.append_assoc]
  | complete written created => exact h.2.symm
  | failed e written created => exact h.symm
  | ended result => exact h

/-- An upload succeeds exactly if its stream ends cleanly and has the length that was
    declared, if one was. -/
theorem verdict_eq_ok_iff (ref : String) :
    d.verdict = .ok ref ↔ ref = d.id.text ∧ ending d.stream = none ∧
      ∀ n, d.length = some n → (content d.stream).length = n.toNat := by
  rw [← BlobStore.checkLength_eq_ok_iff, verdict]
  cases ending d.stream with
  | some e => exact iff_of_false (fun h => nomatch h) fun h => nomatch h.2.1
  | none =>
      cases BlobStore.checkLength d.length (content d.stream).length with
      | error e => exact iff_of_false (fun h => nomatch h) fun h => nomatch h.2.2
      | ok u =>
          constructor
          · intro h
            exact ⟨(Except.ok.inj h).symm, rfl, rfl⟩
          · exact fun h => congrArg Except.ok h.1.symm

/-! ## An upload by itself -/

/-- Takes an upload a number of steps further, with nothing in between. -/
def proceed (now : Timestamp) :
    Nat → UploadStage σ × BlobStore → UploadStage σ × BlobStore
  | 0, reached => reached
  | k + 1, (stage, s) =>
    proceed now k ((d.advance now stage).1, s.perform d.id (d.advance now stage).2)

theorem put_eq_verdict (s : BlobStore) (now : Timestamp) :
    s.put d.id now d.stream d.length = (d.verdict, match d.verdict with
      | .error _ => ⟨s.root.erase (BlobStore.temporaryName d.id)⟩
      | .ok _ => ⟨(s.root.erase (BlobStore.temporaryName d.id)).set d.id.text
          (.file (content d.stream) now)⟩) := by
  rw [BlobStore.put_eq, verdict]
  cases ending d.stream with
  | some e => rfl
  | none =>
      simp only
      cases BlobStore.checkLength d.length (content d.stream).length with
      | error e => rfl
      | ok u => rfl

/-- How an upload that began with the store `s` left it at a stage. -/
def Left (s : BlobStore) (now : Timestamp) : UploadStage σ → BlobStore → Prop
  | .called, t => t = s
  | .writing _ written created, t => created = now ∧
    t = ⟨s.root.set (BlobStore.temporaryName d.id) (.file written now)⟩
  | .complete written created, t => created = now ∧
    t = ⟨s.root.set (BlobStore.temporaryName d.id) (.file written now)⟩
  | .failed _ written _, t =>
    t = ⟨s.root.set (BlobStore.temporaryName d.id) (.file written now)⟩
  | .ended _, t => t = (s.put d.id now d.stream d.length).2

theorem left_perform {s t : BlobStore} {now : Timestamp} {stage : UploadStage σ}
    (hat : d.IsAt stage) (h : d.Left s now stage t) :
    d.Left s now (d.advance now stage).1 (t.perform d.id (d.advance now stage).2) := by
  cases stage with
  | called =>
      cases h
      exact ⟨rfl, rfl⟩
  | writing rest written created =>
      obtain ⟨rfl, rfl⟩ := h
      rcases d.advance_writing created rest written created with ⟨e, rest', -, hstep⟩
        | ⟨rest', e, -, -, hstep⟩ | ⟨rest', -, -, hstep⟩ | ⟨bytes, rest', -, -, hstep⟩
      · rw [hstep]
        rfl
      · rw [hstep]
        rfl
      · rw [hstep]
        exact ⟨rfl, rfl⟩
      · rw [hstep]
        refine ⟨rfl, congrArg BlobStore.mk ?_⟩
        rw [Directory.append_of_get? (Directory.get?_set_self _ _ _), Directory.set_set]
  | complete written created =>
      obtain ⟨rfl, rfl⟩ := h
      obtain ⟨rfl, hverdict⟩ := hat
      show BlobStore.mk _ = _
      rw [put_eq_verdict, hverdict, Directory.rename_set]
  | failed e written created =>
      cases h
      have hverdict : d.verdict = .error e := hat
      show BlobStore.mk _ = _
      rw [put_eq_verdict, hverdict, Directory.erase_set]
  | ended result => exact h

/-- With nothing in between, an upload does what storing its stream does. -/
theorem proceed_eq_put (s : BlobStore) (now : Timestamp) {k : Nat} (h : left d.stream + 3 ≤ k) :
    d.proceed now k (.called, s)
      = (.ended (s.put d.id now d.stream d.length).1, (s.put d.id now d.stream d.length).2) := by
  suffices hgen : ∀ k stage t, d.IsAt stage → d.Left s now stage t → d.rank stage ≤ k →
      d.proceed now k (stage, t) = (.ended (s.put d.id now d.stream d.length).1,
        (s.put d.id now d.stream d.length).2) from hgen k .called s trivial rfl h
  intro k
  induction k with
  | zero =>
      intro stage t hat hleft hrank
      obtain ⟨result, rfl⟩ := d.ended_of_rank (Nat.le_zero.mp hrank)
      have hresult : result = d.verdict := hat
      have hstore : t = (s.put d.id now d.stream d.length).2 := hleft
      rw [proceed, hresult, hstore, put_eq_verdict]
  | succ k ih =>
      intro stage t hat hleft hrank
      rw [proceed]
      refine ih _ _ (d.isAt_advance now hat) (d.left_perform hat hleft) ?_
      exact Nat.le_trans (d.rank_advance_le now stage) (Nat.sub_le_of_le_add hrank)

end Upload

end ContentVault
