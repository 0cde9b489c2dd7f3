import ContentVault.Proofs.Cipher.Grammar
import ContentVault.Proofs.Cipher.Layout

/-! # A plaintext that breaks off

    The last chunk of a plaintext is the one that does not fill its buffer.  A
    plaintext that fails does not fill a buffer either, but no frame comes of
    that: what is encrypted is one frame for each full chunk, none of them
    final, and then the failure (`framesFrom_interrupted`).  So the bytes that
    come before the failure never decrypt to a clean end
    (`interrupted_stays_incomplete`). -/

namespace ContentVault

namespace Frames

open ByteReader ReaderView

/-! ## The frames before a failure -/

section

variable (a : Aead) (key : Key) (base : Nonce) (size : ChunkSize)

/-- Frame `i` of a plaintext as long as it is not the final one. -/
def fullFrameAt (plain : Bytes) (i : Nat) : Bytes :=
  encryptChunk a key base i (chunkAt size plain i) false

/-- The frames of the full chunks of a plaintext. -/
def fullFrames (plain : Bytes) : List Bytes :=
  (List.range (plain.length / size.val)).map (fullFrameAt a key base size plain)

variable {a key base size}

/-- The frames of the full chunks are all frames of the plaintext but the final
    one. -/
theorem fullFrames_eq_take (plain : Bytes) :
    fullFrames a key base size plain
      = (framesOf a key base size plain).take (plain.length / size.val) := by
  rw [framesOf, ← List.map_take, List.take_range, Nat.min_eq_left (Nat.le_succ _)]
  refine List.map_congr_left fun i hi => ?_
  have hne : decide (i = plain.length / size.val) = false :=
    decide_eq_false (Nat.ne_of_lt (List.mem_range.mp hi))
  rw [frameAt, bodyAt, hne]
  rfl

theorem length_fullFrames (plain : Bytes) :
    (fullFrames a key base size plain).length = plain.length / size.val := by
  rw [fullFrames, List.length_map, List.length_range]

/-- A plaintext that fails is encrypted to the frames of its full chunks, from
    chunk `index` on, and the failure. -/
theorem framesFrom_interrupted (index : Nat) (plain : Bytes) (e : IoError) :
    framesFrom a key base size index plain (some e) =
      (List.range (plain.length / size.val)).map (fun i =>
        .chunk (encryptChunk a key base (index + i) (chunkAt size plain i) false)) ++
        [.failure e] := by
  induction hn : plain.length using Nat.strongRecOn generalizing index plain with
  | ind n ih =>
      subst hn
      rcases Nat.lt_or_ge plain.length size.val with hlt | hge
      · rw [framesFrom_failure hlt, Nat.div_eq_of_lt hlt]
        rfl
      · have hpos := size.pos
        have hdiv : plain.length / size.val = (plain.length - size.val) / size.val + 1 :=
          Nat.div_eq_sub_div hpos hge
        rw [framesFrom_full hge, hdiv, List.range_succ_eq_map, List.map_cons, List.map_map,
          ih (plain.drop size.val).length (by rw [List.length_drop]; omega) (index + 1) _ rfl,
          List.length_drop, chunkAt_zero, Nat.add_zero, List.cons_append]
        refine congrArg (_ :: ·) (congrArg (· ++ _) (List.map_congr_left fun i _ => ?_))
        rw [Function.comp_apply, chunkAt_succ, Nat.succ_eq_add_one, Nat.add_comm i 1, Nat.add_assoc]

/-- The frame of a chunk opens at its place. -/
theorem opensAt_encryptChunk (a : Aead) (key : Key) (base : Nonce) (index : Nat) {chunk : Bytes}
    (final : Bool) (h : chunk.length ≤ largestChunk) :
    OpensAt a key base index final
      (a.encrypt key (base.forChunk index) (Cipher.chunkBinding index final) chunk) chunk := by
  have hlen := a.length_encrypt key (base.forChunk index) (Cipher.chunkBinding index final) chunk
  constructor
  case low => omega
  case high => omega
  case opens => exact a.decrypt_encrypt ..

/-- Frames that are not final open one after the other, and leave nothing. -/
theorem opens_range (a : Aead) (key : Key) (base : Nonce) (k index : Nat) (chunks : Nat → Bytes)
    (h : ∀ i, (chunks i).length ≤ largestChunk) :
    Opens a key base index
      ((List.range k).map fun i => encryptChunk a key base (index + i) (chunks i) false).flatten
      ((List.range k).map chunks) false [] := by
  induction k generalizing index chunks with
  | zero => exact .nothing
  | succ k ih =>
      have hlater := ih (index + 1) (fun i => chunks (i + 1)) fun i => h (i + 1)
      have hshift : (fun i => encryptChunk a key base (index + 1 + i) (chunks (i + 1)) false)
          = (fun i => encryptChunk a key base (index + i) (chunks i) false) ∘ Nat.succ := by
        funext i
        rw [Function.comp_apply, Nat.succ_eq_add_one, Nat.add_comm i 1, Nat.add_assoc]
      rw [hshift] at hlater
      rw [List.range_succ_eq_map, List.map_cons, List.map_cons, List.map_map, List.map_map,
        List.flatten_cons]
      exact .more (opensAt_encryptChunk a key base index false (h 0)) hlater

variable (a key base size) in
/-- The frames of the full chunks decrypt to these chunks, and then there is one
    missing. -/
theorem unframe_fullFrames (plain : Bytes) :
    unframe a key base none 0 (fullFrames a key base size plain).flatten
      = (plain.take (plain.length / size.val * size.val),
          some (broken (Deviation.missing.reason (plain.length / size.val)))) := by
  have hopens := opens_range a key base (plain.length / size.val) 0 (chunkAt size plain) fun i =>
    Nat.le_trans (length_chunkAt_le size plain i) size.le_max
  simp only [Nat.zero_add] at hopens
  have hmissing : takeFrame a key base (plain.length / size.val) [] = .error .missing := rfl
  show unframe a key base none 0
    ((List.range _).map fun i => encryptChunk a key base i (chunkAt size plain i) false).flatten = _
  rw [unframe_of_opens none hopens, List.length_map, List.length_range, Nat.zero_add,
    unframe_deviation hmissing, List.append_nil, flatten_chunkAt]
  rfl

/-! ## A failure is never taken for the end -/

/-- For every plaintext that fails, by whatever reads it comes and wherever in a
    chunk the failure is:

    * Its encryption delivers the frames of the full chunks, which are the first
      ones of the layout and none of them final, and then the failure itself.
    * These frames, kept as if they were complete, decrypt to the full chunks
      and then a failure of integrity. -/
theorem interrupted_stays_incomplete (suite : CipherSuite) (key : Key) (base : Nonce)
    (requested : Nat) {σ : Type} [ByteReader σ] [ReaderView σ] (source : σ) {e : IoError}
    (hfails : ReaderView.ending source = some e) :
    let size := ChunkSize.clamp requested
    let plain := content source
    let count := plain.length / size.val
    let frames := fullFrames suite.aead key base size plain
    (encrypt suite.aead key base size source).Gives frames.flatten (some e) ∧
    (frames = (framesOf suite.aead key base size plain).take count ∧ frames.length = count ∧
      ∀ i (h : i < frames.length), (chunkAt size plain i).length = size.val ∧
        frames[i] = frame (suite.aead.encrypt key (base.forChunk i)
          (Cipher.chunkBinding i false) (chunkAt size plain i)) false) ∧
    ∀ {τ : Type} [ByteReader τ] [ReaderView τ] (cipher : τ), content cipher = frames.flatten →
      ReaderView.ending cipher = none →
        ∃ r reason, decryptRecorded suite.id key base.bytes cipher = .ok r ∧
          r.Gives (plain.take (count * size.val)) (some (.fault (.integrity reason))) ∧
          (plain.take (count * size.val)).length = count * size.val := by
  intro size plain count frames
  have hcount : frames.length = count := length_fullFrames plain
  refine ⟨?_, ⟨fullFrames_eq_take plain, hcount, fun i h => ⟨?_, ?_⟩⟩, ?_⟩
  · have hgiven : encryptFrom suite.aead key base size 0 source []
        = frames.map .chunk ++ [.failure e] := by
      rw [encryptFrom_eq, hfails, framesFrom_interrupted, List.reverse_nil, List.nil_append]
      simp only [Nat.zero_add, frames, fullFrames, List.map_map]
      rfl
    have hdelivered : Outlet.chunkBytes [.failure e] = [] := rfl
    have hgives := (encrypt suite.aead key base size source).gives
    rw [encrypt, Relay.content_fresh, Relay.ending_fresh, hgiven, Outlet.chunkBytes_chunks,
      Outlet.failure?_chunks] at hgives
    rw [hdelivered, List.append_nil, ← hgiven] at hgives
    exact hgives
  · rw [hcount] at h
    exact length_chunkAt_of_lt h
  · simp only [frames, fullFrames, List.getElem_map, List.getElem_range]
    rfl
  · intro τ _ _ cipher hbytes hend
    refine ⟨decrypt suite.aead key base cipher, Deviation.missing.reason count,
      decryptRecorded_eq suite key base cipher, ?_,
      List.length_take_of_le (Nat.div_mul_le_self ..)⟩
    have hgives := gives_unframe suite.aead key base cipher
    rw [hbytes, hend, unframe_fullFrames] at hgives
    exact hgives

/-- Five bytes in chunks of two, in reads of three, and then a connection that
    is reset: two frames are kept, and the four bytes in them come back before
    the final chunk is missed. -/
theorem five_bytes_stay_incomplete :
    let source : Source :=
      { data := [1, 2, 3, 4, 5], sizes := [3],
        failure := some (.system .connectionReset "reset") }
    let frames := fullFrames CipherSuite.chaCha20Poly1305.aead sevens fives (.clamp 2)
      [1, 2, 3, 4, 5]
    (encrypt CipherSuite.chaCha20Poly1305.aead sevens fives (.clamp 2) source).Gives
        frames.flatten source.failure ∧
      frames.length = 2 ∧
      ∃ r reason, decryptRecorded "CHACHA20-POLY1305" sevens fives.bytes
          ({ data := frames.flatten } : Source) = .ok r ∧
        r.Gives [1, 2, 3, 4] (some (.fault (.integrity reason))) := by
  intro source frames
  obtain ⟨hgives, ⟨-, hcount, -⟩, hback⟩ :=
    interrupted_stays_incomplete .chaCha20Poly1305 sevens fives 2 source rfl
  obtain ⟨r, reason, hopened, hr, -⟩ := hback ({ data := frames.flatten } : Source) rfl rfl
  have hsize : (ChunkSize.clamp 2).val = 2 := by decide
  have hcontent : content source = [1, 2, 3, 4, 5] := rfl
  rw [hsize, hcontent] at hcount hr
  exact ⟨hgives, hcount, r, reason, hopened, hr⟩

end

end Frames

end ContentVault
