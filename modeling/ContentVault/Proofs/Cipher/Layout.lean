import ContentVault.Proofs.Cipher.Recorded
import ContentVault.Proofs.Stream.Reading

/-! # The layout of encrypted streams

    A plaintext of `n` bytes in chunks of `c` becomes `n / c + 1` frames: one
    for each full chunk, and a last one for the `n % c` bytes that are left,
    also if there are none (`framesFrom_eq_range`).  `Layout` says what the
    frames look like.  None of it depends on the reads that the plaintext
    comes by, and decryption gives the plaintext back by any reads on its side
    (`decrypted_as_encrypted`). -/

namespace ContentVault

namespace Frames

open ByteReader ReaderView

/-! ## Chunks -/

/-- Chunk `i` of a plaintext. -/
def chunkAt (size : ChunkSize) (plain : Bytes) (i : Nat) : Bytes :=
  (plain.drop (i * size.val)).take size.val

theorem chunkAt_zero (size : ChunkSize) (plain : Bytes) :
    chunkAt size plain 0 = plain.take size.val := by
  rw [chunkAt, Nat.zero_mul, List.drop_zero]

theorem chunkAt_succ (size : ChunkSize) (plain : Bytes) (i : Nat) :
    chunkAt size plain (i + 1) = chunkAt size (plain.drop size.val) i := by
  rw [chunkAt, chunkAt, List.drop_drop, Nat.succ_mul, Nat.add_comm]

theorem length_chunkAt_le (size : ChunkSize) (plain : Bytes) (i : Nat) :
    (chunkAt size plain i).length ≤ size.val :=
  List.length_take_le _ _

/-- Every chunk but the last one is full. -/
theorem length_chunkAt_of_lt {size : ChunkSize} {plain : Bytes} {i : Nat}
    (h : i < plain.length / size.val) : (chunkAt size plain i).length = size.val := by
  have hle : (i + 1) * size.val ≤ plain.length :=
    (Nat.le_div_iff_mul_le size.pos).mp h
  rw [Nat.succ_mul] at hle
  rw [chunkAt, List.length_take_of_le]
  rw [List.length_drop]
  omega

/-- The last chunk is what the full ones leave. -/
theorem length_chunkAt_last (size : ChunkSize) (plain : Bytes) :
    (chunkAt size plain (plain.length / size.val)).length = plain.length % size.val := by
  have hdiv := Nat.div_add_mod' plain.length size.val
  have hmod := Nat.mod_lt plain.length size.pos
  rw [chunkAt, List.length_take, List.length_drop]
  omega

theorem flatten_chunkAt (size : ChunkSize) (plain : Bytes) (k : Nat) :
    ((List.range k).map (chunkAt size plain)).flatten = plain.take (k * size.val) := by
  induction k with
  | zero => rw [Nat.zero_mul, List.take_zero]; rfl
  | succ k ih =>
      rw [List.range_succ, List.map_append, List.flatten_append, ih, Nat.succ_mul, List.take_add]
      simp [chunkAt]

/-- The chunks are the plaintext, cut. -/
theorem flatten_chunks (size : ChunkSize) (plain : Bytes) :
    ((List.range (plain.length / size.val + 1)).map (chunkAt size plain)).flatten = plain := by
  rw [flatten_chunkAt, List.take_of_length_le]
  exact Nat.le_of_lt (Nat.lt_mul_of_div_lt (Nat.lt_succ_self _) size.pos)

/-! ## Frames -/

section

variable (a : Aead) (key : Key) (base : Nonce) (size : ChunkSize) (plain : Bytes)

/-- What frame `i` of a plaintext holds: the chunk, sealed at its place. -/
def bodyAt (i : Nat) : Bytes :=
  a.encrypt key (base.forChunk i) (Cipher.chunkBinding i (i = plain.length / size.val))
    (chunkAt size plain i)

/-- Frame `i` of a plaintext. -/
def frameAt (i : Nat) : Bytes :=
  frame (bodyAt a key base size plain i) (i = plain.length / size.val)

/-- The frames of a plaintext. -/
def framesOf : List Bytes :=
  (List.range (plain.length / size.val + 1)).map (frameAt a key base size plain)

/-- What the frames of a plaintext look like. -/
structure Layout (frames : List Bytes) : Prop where
  /-- There is one for each full chunk, and one for the rest. -/
  count : frames.length = plain.length / size.val + 1
  /-- A frame is a length in four bytes, a mark, and as many bytes of a sealed chunk. -/
  parts : ∀ i (h : i < frames.length), frames[i] =
    Bytes.bigEndian 4 (bodyAt a key base size plain i).length ++
      (if i = plain.length / size.val then 1 else 0) :: bodyAt a key base size plain i
  /-- The length fits its four bytes, and is one that is read back. -/
  fits : ∀ i, tagLength ≤ (bodyAt a key base size plain i).length ∧
    (bodyAt a key base size plain i).length ≤ largestChunk + tagLength ∧
    (bodyAt a key base size plain i).length < 2 ^ 32
  /-- All chunks but the last are full, and the last is what they leave. -/
  chunks : (∀ i, i < plain.length / size.val → (chunkAt size plain i).length = size.val) ∧
    (chunkAt size plain (plain.length / size.val)).length = plain.length % size.val ∧
    ((List.range frames.length).map (chunkAt size plain)).flatten = plain
  /-- Every frame adds five bytes of header and a tag. -/
  total : frames.flatten.length = plain.length + 21 * (plain.length / size.val + 1)

variable {a key base size plain}

theorem length_bodyAt (i : Nat) :
    (bodyAt a key base size plain i).length = (chunkAt size plain i).length + tagLength :=
  a.length_encrypt ..

/-- The frames from chunk `index` on, by their places. -/
theorem framesFrom_eq_range (index : Nat) (plain : Bytes) :
    framesFrom a key base size index plain none =
      (List.range (plain.length / size.val + 1)).map fun i =>
        .chunk (encryptChunk a key base (index + i) (chunkAt size plain i)
          (i = plain.length / size.val)) := by
  induction hn : plain.length using Nat.strongRecOn generalizing index plain with
  | ind n ih =>
      subst hn
      rcases Nat.lt_or_ge plain.length size.val with hlt | hge
      · -- nothing but the last chunk
        rw [framesFrom_last hlt, Nat.div_eq_of_lt hlt]
        simp [chunkAt, List.take_of_length_le (Nat.le_of_lt hlt)]
      · have hpos := size.pos
        have hdiv : plain.length / size.val = (plain.length - size.val) / size.val + 1 :=
          Nat.div_eq_sub_div hpos hge
        rw [framesFrom_full hge, List.range_succ_eq_map, List.map_cons, List.map_map,
          ih (plain.drop size.val).length (by rw [List.length_drop]; omega) (index + 1) _ rfl,
          List.length_drop, ← hdiv]
        congr 1
        · rw [chunkAt_zero, hdiv]
          simp
        · refine List.map_congr_left fun i _ => ?_
          rw [Function.comp_apply, chunkAt_succ, hdiv]
          simp [Nat.add_comm, Nat.add_left_comm]

theorem chunkBytes_framesFrom (plain : Bytes) :
    Outlet.chunkBytes (framesFrom a key base size 0 plain none)
      = (framesOf a key base size plain).flatten := by
  have hmap : framesFrom a key base size 0 plain none
      = (framesOf a key base size plain).map .chunk := by
    rw [framesFrom_eq_range, framesOf, List.map_map]
    refine List.map_congr_left fun i _ => ?_
    rw [Function.comp_apply, Nat.zero_add]
    rfl
  have hchunks := Outlet.chunkBytes_chunks (framesOf a key base size plain) []
  rw [List.append_nil] at hchunks
  rw [hmap, hchunks]
  exact List.append_nil _

/-- The bytes that a plaintext is encrypted to are its frames in a row. -/
theorem frameBytes_eq (plain : Bytes) :
    frameBytes a key base size plain = (framesOf a key base size plain).flatten :=
  chunkBytes_framesFrom plain

theorem length_framesOf (plain : Bytes) :
    (framesOf a key base size plain).length = plain.length / size.val + 1 := by
  rw [framesOf, List.length_map, List.length_range]

theorem length_flatten_framesOf (plain : Bytes) :
    (framesOf a key base size plain).flatten.length
      = plain.length + 21 * (plain.length / size.val + 1) := by
  -- each frame is its chunk and 21 bytes more, and the chunks are the plaintext
  have hsum : ∀ k, ((List.range k).map (frameAt a key base size plain)).flatten.length
      = ((List.range k).map (chunkAt size plain)).flatten.length + 21 * k := by
    intro k
    induction k with
    | zero => rfl
    | succ k ih =>
        rw [List.range_succ, List.map_append, List.map_append, List.flatten_append,
          List.flatten_append, List.length_append, List.length_append, ih]
        simp only [List.map_cons, List.map_nil, List.flatten_cons, List.flatten_nil,
          List.append_nil, frameAt, length_frame, length_bodyAt]
        show _ + (5 + (_ + 16)) = _
        omega
  rw [framesOf, hsum, flatten_chunks]

theorem layout_framesOf (a : Aead) (key : Key) (base : Nonce) (size : ChunkSize) (plain : Bytes) :
    Layout a key base size plain (framesOf a key base size plain) := by
  constructor
  case count => exact length_framesOf plain
  case parts =>
    intro i h
    simp only [framesOf, List.getElem_map, List.getElem_range, frameAt, frame, decide_eq_true_eq]
  case fits =>
    intro i
    have hchunk := Nat.le_trans (length_chunkAt_le size plain i) size.le_max
    have hmax : largestChunk + tagLength < 2 ^ 32 := by decide
    rw [length_bodyAt]
    omega
  case chunks =>
    rw [length_framesOf]
    exact ⟨fun i => length_chunkAt_of_lt, length_chunkAt_last size plain,
      flatten_chunks size plain⟩
  case total => exact length_flatten_framesOf plain

end

/-! ## There and back -/

/-- Encryption gives frames of the one layout, by whatever reads the plaintext
    comes and by whatever reads the frames are taken.  Decryption with the key,
    the cipher's name and the nonce gives the plaintext and a clean end, by
    whatever reads the frames come and by whatever reads the plaintext is
    taken. -/
theorem decrypted_as_encrypted (suite : CipherSuite) (key : Key) (base : Nonce)
    (requested : Nat) (plain : Bytes) {σ : Type} [ByteReader σ] [ReaderView σ] (source : σ)
    (hplain : content source = plain) (hclean : ReaderView.ending source = none) :
    let size := ChunkSize.clamp requested
    let frames := framesOf suite.aead key base size plain
    Layout suite.aead key base size plain frames ∧
      (encrypt suite.aead key base size source).Gives frames.flatten none ∧
      ∀ {τ : Type} [ByteReader τ] [ReaderView τ] (cipher : τ), content cipher = frames.flatten →
        ReaderView.ending cipher = none →
          ∃ r, decryptRecorded suite.id key base.bytes cipher = .ok r ∧ r.Gives plain none := by
  intro size frames
  have hbytes : frameBytes suite.aead key base size plain = frames.flatten := frameBytes_eq plain
  refine ⟨layout_framesOf .., ?_, ?_⟩
  · have hgives := (encrypt suite.aead key base size source).gives
    rw [content_encrypt hclean, ending_encrypt, hclean, hplain, hbytes] at hgives
    exact hgives
  · intro τ _ _ cipher hcipher hend
    obtain ⟨hcontent, hending⟩ := decrypt_frames (hcipher.trans hbytes.symm) hend
    have hgives := (decrypt suite.aead key base cipher).gives
    rw [hcontent, hending] at hgives
    exact ⟨_, decryptRecorded_eq suite key base cipher, hgives⟩

/-- A key for the streams below. -/
def sevens : Key := ⟨List.replicate 32 7, rfl⟩

/-- A nonce for them. -/
def fives : Nonce := ⟨List.replicate 12 5, rfl⟩

/-- Four bytes in chunks of two: a full multiple, so the third frame has an
    empty chunk.  They come one at a time, and the frames three at a time. -/
theorem four_bytes_decrypted_as_encrypted :
    (framesOf CipherSuite.chaCha20Poly1305.aead sevens fives (.clamp 2) [1, 2, 3, 4]).length = 3 ∧
      (framesOf CipherSuite.chaCha20Poly1305.aead sevens fives (.clamp 2)
        [1, 2, 3, 4]).flatten.length = 67 ∧
      ∃ r, decryptRecorded "CHACHA20-POLY1305" sevens fives.bytes
          ({ data := (framesOf CipherSuite.chaCha20Poly1305.aead sevens fives (.clamp 2)
            [1, 2, 3, 4]).flatten, sizes := [3] } : Source) = .ok r ∧
        r.Gives [1, 2, 3, 4] none := by
  obtain ⟨layout, -, hback⟩ := decrypted_as_encrypted .chaCha20Poly1305 sevens fives 2
    [1, 2, 3, 4] ({ data := [1, 2, 3, 4], sizes := [1] } : Source) rfl rfl
  exact ⟨layout.count, layout.total, hback _ rfl rfl⟩

end Frames

end ContentVault
