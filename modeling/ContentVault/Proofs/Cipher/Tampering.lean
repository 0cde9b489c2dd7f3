import ContentVault.Proofs.Cipher.Layout
import ContentVault.Proofs.Cipher.Opening

/-! # Frames that were tampered with

    The header of a frame is not authenticated.  Yet no other bytes than the
    frames of a plaintext, and no other nonce than theirs, decrypt to a clean
    end, as long as the cipher opens nothing but what was sealed with it.  A
    body that opens at place `i` is that of frame `i`, with the mark that this
    frame has (`OpensAt.genuine`): the place is in the nonce and in the
    associated data, the mark is in the latter, and no label has the
    associated data of a chunk.  So the frames that open are the first ones of
    the plaintext (`Opens.genuine`), and all of them do only if nothing was
    changed (`clean_iff_untouched`). -/

namespace ContentVault

/-- Numbers that fit are told apart by their big-endian bytes. -/
theorem Bytes.bigEndian_inj {width m n : Nat} (hm : m < 256 ^ width) (hn : n < 256 ^ width)
    (h : bigEndian width m = bigEndian width n) : m = n := by
  rw [← toNatBE_bigEndian width m hm, h, toNatBE_bigEndian width n hn]

/-- Base nonces are told apart by the nonces of their chunks. -/
theorem Nonce.forChunk_inj {base base' : Nonce} {index : Nat}
    (h : base.forChunk index = base'.forChunk index) : base = base' := by
  have hbytes : (base.forChunk index).bytes = (base'.forChunk index).bytes := congrArg Nonce.bytes h
  have hlen := base.length_bytes
  have hlen' := base'.length_bytes
  obtain ⟨htake, hxor⟩ := List.append_inj hbytes (by rw [List.length_take, List.length_take, hlen, hlen'])
  have unmask : ∀ n : Nonce, Bytes.xor (Bytes.xor (n.bytes.drop 4) (Bytes.bigEndian 8 index))
      (Bytes.bigEndian 8 index) = n.bytes.drop 4 := by
    intro n
    refine Bytes.xor_xor_cancel _ _ (Nat.le_of_eq ?_)
    rw [List.length_drop, n.length_bytes, Bytes.length_bigEndian]
  have hdrop : base.bytes.drop 4 = base'.bytes.drop 4 := by
    rw [← unmask base, hxor, unmask base']
  have hsame : base.bytes = base'.bytes := by
    rw [← List.take_append_drop 4 base.bytes, htake, hdrop, List.take_append_drop]
  cases base
  cases base'
  cases hsame
  rfl

namespace Cipher

/-- Places and marks are told apart by their associated data. -/
theorem chunkBinding_inj {i j : Nat} {final final' : Bool} (hi : i < 2 ^ 64) (hj : j < 2 ^ 64)
    (h : chunkBinding i final = chunkBinding j final') : i = j ∧ final = final' := by
  obtain ⟨hindex, hmark⟩ := List.append_inj h (by rw [Bytes.length_bigEndian, Bytes.length_bigEndian])
  refine ⟨Bytes.bigEndian_inj hi hj hindex, ?_⟩
  cases final <;> cases final' <;> simp_all

/-- No chunk has the associated data of a label. -/
theorem chunkBinding_ne_labelBinding (index : Nat) (final : Bool) :
    chunkBinding index final ≠ labelBinding := by
  intro h
  have hlen := congrArg List.length h
  rw [chunkBinding, List.length_append, Bytes.length_bigEndian] at hlen
  have : labelBinding.length = 22 := by decide
  rw [this] at hlen
  cases hlen

end Cipher

namespace Frames

open ByteReader ReaderView

/-! ## What was sealed -/

/-- A plaintext that was sealed under a key, and under what. -/
structure Sealing where
  nonce : Nonce
  binding : Bytes
  plain : Bytes
deriving DecidableEq

section

variable (a : Aead) (key : Key)

/-- All that is sealed for an artifact: the chunks of its content, and its
    label under whatever nonces. -/
def sealings (base : Nonce) (size : ChunkSize) (plain : Bytes) (labels : List (Nonce × Bytes)) :
    List Sealing :=
  (List.range (plain.length / size.val + 1)).map (fun i =>
      ⟨base.forChunk i, Cipher.chunkBinding i (i = plain.length / size.val), chunkAt size plain i⟩) ++
    labels.map fun l => ⟨l.1, Cipher.labelBinding, l.2⟩

/-- Whether any part of `bytes` that opens was sealed as what it opens to. -/
def OpensOnly (made : List Sealing) (bytes : Bytes) : Prop :=
  ∀ nonce binding body plain, body <:+: bytes → a.decrypt key nonce binding body = some plain →
    ⟨nonce, binding, plain⟩ ∈ made ∧ body = a.encrypt key nonce binding plain

end

variable {a : Aead} {key : Key} {base base' : Nonce} {size : ChunkSize} {plain : Bytes}
variable {labels : List (Nonce × Bytes)}

theorem OpensOnly.mono {made : List Sealing} {bytes part : Bytes} (h : OpensOnly a key made bytes)
    (hpart : part <:+: bytes) : OpensOnly a key made part :=
  fun nonce binding body plain hbody => h nonce binding body plain (hbody.trans hpart)

/-! ## What opens -/

/-- A body that opens at a place is the one that was sealed for it. -/
theorem OpensAt.genuine {i : Nat} {final : Bool} {body chunk bytes : Bytes}
    (h : OpensAt a key base' i final body chunk) (hpart : body <:+: bytes)
    (honly : OpensOnly a key (sealings base size plain labels) bytes)
    (hcount : plain.length / size.val < 2 ^ 64) (hi : i < 2 ^ 64) :
    i ≤ plain.length / size.val ∧ final = decide (i = plain.length / size.val) ∧
      chunk = chunkAt size plain i ∧ body = bodyAt a key base size plain i ∧ base' = base := by
  obtain ⟨hmade, hbody⟩ := honly _ _ _ _ hpart h.opens
  rcases List.mem_append.mp hmade with hchunk | hlabel
  · obtain ⟨j, hj, heq⟩ := List.mem_map.mp hchunk
    have hle : j ≤ plain.length / size.val := Nat.le_of_lt_succ (List.mem_range.mp hj)
    obtain ⟨hnonce, hbinding, hplain⟩ := Sealing.mk.inj heq
    obtain ⟨rfl, hfinal⟩ := Cipher.chunkBinding_inj (Nat.lt_of_le_of_lt hle hcount) hi hbinding
    obtain rfl := Nonce.forChunk_inj hnonce
    refine ⟨hle, hfinal.symm, hplain.symm, ?_, rfl⟩
    rw [hbody, bodyAt, hplain, hfinal]
  · obtain ⟨l, -, heq⟩ := List.mem_map.mp hlabel
    exact absurd (Sealing.mk.inj heq).2.1.symm (Cipher.chunkBinding_ne_labelBinding i final)

/-- Leading frames that open are those of the plaintext, from the same place on. -/
theorem Opens.genuine {i : Nat} {bytes : Bytes} {chunks : List Bytes} {final : Bool} {rest : Bytes}
    (h : Opens a key base' i bytes chunks final rest)
    (honly : OpensOnly a key (sealings base size plain labels) bytes)
    (hcount : plain.length / size.val < 2 ^ 64) (hi : i ≤ plain.length / size.val) :
    bytes = ((List.range' i chunks.length).map (frameAt a key base size plain)).flatten ++ rest ∧
      chunks = (List.range' i chunks.length).map (chunkAt size plain) ∧
      (chunks ≠ [] → base' = base) ∧ i + chunks.length ≤ plain.length / size.val + 1 ∧
      (final = true → i + chunks.length = plain.length / size.val + 1) := by
  induction h with
  | nothing => exact ⟨rfl, rfl, fun hne => absurd rfl hne, by simpa using Nat.le_succ_of_le hi, nofun⟩
  | @final i body chunk rest h =>
      have hpart : body <:+: frame body true ++ rest := by
        rw [frame_eq]
        exact ⟨_, rest, rfl⟩
      obtain ⟨-, hfinal, hchunk, hbody, hbase⟩ :=
        h.genuine hpart honly hcount (Nat.lt_of_le_of_lt hi hcount)
      have hlast : i = plain.length / size.val := of_decide_eq_true hfinal.symm
      have hframe : frame body true = frameAt a key base size plain i := by
        rw [frameAt, ← hfinal, ← hbody]
      refine ⟨?_, ?_, fun _ => hbase, ?_, fun _ => ?_⟩
      · rw [hframe]
        simp
      · rw [hchunk]
        rfl
      · rw [hlast]
        exact Nat.le_refl _
      · rw [hlast]
        rfl
  | @more i body chunk bytes chunks final rest h later ih =>
      have hpart : body <:+: frame body false ++ bytes := by
        rw [frame_eq]
        exact ⟨_, bytes, rfl⟩
      obtain ⟨-, hfinal, hchunk, hbody, hbase⟩ :=
        h.genuine hpart honly hcount (Nat.lt_of_le_of_lt hi hcount)
      have hnot : i ≠ plain.length / size.val := of_decide_eq_false hfinal.symm
      have hframe : frame body false = frameAt a key base size plain i := by
        rw [frameAt, ← hfinal, ← hbody]
      obtain ⟨hbytes, hchunks, -, hle, hend⟩ := ih (honly.mono (List.suffix_append _ _).isInfix)
        (by omega)
      have hrange : List.range' i (chunk :: chunks).length
          = i :: List.range' (i + 1) chunks.length := List.range'_succ
      refine ⟨?_, ?_, fun _ => hbase, ?_, fun hf => ?_⟩
      · rw [hrange, List.map_cons, List.flatten_cons, List.append_assoc, ← hbytes, hframe]
      · rw [hrange, List.map_cons, ← hchunks, ← hchunk]
      · rw [List.length_cons]
        omega
      · have := hend hf
        rw [List.length_cons]
        omega

/-! ## What decrypts cleanly -/

variable {σ : Type} [ByteReader σ] [ReaderView σ]

/-- Bytes and a nonce decrypt to a clean end exactly if they are the frames of
    the plaintext and their nonce.  Otherwise a failure of integrity comes
    after some of the plaintext's chunks, from the first on and whole.  Frames
    are counted in eight bytes, so there are fewer than `2 ^ 64`. -/
theorem clean_iff_untouched (a : Aead) (key : Key) (base base' : Nonce) (size : ChunkSize)
    (plain : Bytes) (labels : List (Nonce × Bytes)) (s : σ) (hs : ReaderView.ending s = none)
    (hcount : plain.length / size.val < 2 ^ 64)
    (honly : OpensOnly a key (sealings base size plain labels) (content s)) :
    let untouched := content s = (framesOf a key base size plain).flatten ∧ base' = base
    let r := decrypt a key base' s
    (ReaderView.ending r = none ↔ untouched) ∧ (untouched → r.Gives plain none) ∧
      (¬untouched → ∃ k reason, k ≤ plain.length / size.val + 1 ∧
        ((List.range k).map (chunkAt size plain)).flatten <+: plain ∧
        r.Gives ((List.range k).map (chunkAt size plain)).flatten
          (some (.fault (.integrity reason)))) := by
  intro untouched r
  have hgives := r.gives
  obtain ⟨chunks, final, rest, hopens, hcontent, hending⟩ := decrypt_cases a key base' hs
  obtain ⟨hbytes, hchunks, hbase, hle, hfinal⟩ := hopens.genuine honly hcount (Nat.zero_le _)
  rw [Nat.zero_add] at hle hfinal
  -- frames that are all there leave no room for anything else
  have hclean : ReaderView.ending r = none → untouched := by
    intro hnone
    rcases hending with ⟨rfl, rfl, -⟩ | ⟨-, reason, hbroken⟩
    · have hlen := hfinal rfl
      refine ⟨?_, hbase ?_⟩
      · rw [hbytes, hlen, List.append_nil, framesOf, List.range_eq_range']
      · intro hnil
        rw [hnil] at hlen
        cases hlen
    · cases hnone.symm.trans hbroken
  have hwhole : untouched → content r = plain ∧ ReaderView.ending r = none := by
    rintro ⟨hs', rfl⟩
    exact decrypt_frames (hs'.trans (frameBytes_eq plain).symm) hs
  refine ⟨⟨hclean, fun h => (hwhole h).2⟩, fun h => ?_, fun hnot => ?_⟩
  · rw [(hwhole h).1, (hwhole h).2] at hgives
    exact hgives
  · rcases hending with ⟨-, -, hnone⟩ | ⟨-, reason, hbroken⟩
    · exact absurd (hclean hnone) hnot
    · refine ⟨chunks.length, reason, hle, ?_, ?_⟩
      · rw [flatten_chunkAt]
        exact List.take_prefix _ _
      · rw [hbroken, hcontent, hchunks, ← List.range_eq_range'] at hgives
        exact hgives

/-! ### A frame sent twice -/

/-- A cipher that leaves the plaintext as it is, and whose tag is all ones for
    what was sealed and all 255 for anything else. -/
def marking (made : List Sealing) : Aead :=
  Aead.ofStream (fun _ _ count => List.replicate count 0)
    (fun _ nonce binding plain =>
      List.replicate tagLength (if ⟨nonce, binding, plain⟩ ∈ made then 1 else 255))
    (fun _ _ _ => List.length_replicate) (fun _ _ _ _ => List.length_replicate)

theorem xor_zeros (bs : Bytes) : Bytes.xor bs (List.replicate bs.length 0) = bs := by
  induction bs with
  | nil => rfl
  | cons b bs ih =>
      rw [List.length_cons, List.replicate_succ]
      show (b ^^^ 0) :: Bytes.xor bs (List.replicate bs.length 0) = b :: bs
      rw [ih, UInt8.xor_zero]

theorem encrypt_marking (made : List Sealing) (key : Key) (nonce : Nonce) (binding plain : Bytes) :
    (marking made).encrypt key nonce binding plain
      = plain ++ List.replicate tagLength (if ⟨nonce, binding, plain⟩ ∈ made then 1 else 255) := by
  simp only [marking, Aead.ofStream, Aead.streamEncrypt, xor_zeros]

theorem decrypt_marking (made : List Sealing) (key : Key) (nonce : Nonce) (binding body : Bytes) :
    (marking made).decrypt key nonce binding body
      = if body.length < tagLength then none
        else if body.drop (body.length - tagLength) = List.replicate tagLength
            (if ⟨nonce, binding, body.take (body.length - tagLength)⟩ ∈ made then 1 else 255) then
          some (body.take (body.length - tagLength))
        else none := by
  simp only [marking, Aead.ofStream, Aead.streamDecrypt, xor_zeros]

/-- Bytes without a 255 hold nothing that opens but was not sealed. -/
theorem opensOnly_marking (made : List Sealing) (key : Key) {bytes : Bytes} (h : 255 ∉ bytes) :
    OpensOnly (marking made) key made bytes := by
  intro nonce binding body plain hpart hopen
  rw [decrypt_marking] at hopen
  have hlong : ¬body.length < tagLength := by
    intro hshort
    rw [if_pos hshort] at hopen
    cases hopen
  rw [if_neg hlong] at hopen
  by_cases hmem : (⟨nonce, binding, body.take (body.length - tagLength)⟩ : Sealing) ∈ made
  · rw [if_pos hmem] at hopen
    have htag : body.drop (body.length - tagLength) = List.replicate tagLength 1 := by
      by_contra hnot
      rw [if_neg hnot] at hopen
      cases hopen
    rw [if_pos htag] at hopen
    obtain rfl := Option.some.inj hopen
    refine ⟨hmem, ?_⟩
    rw [encrypt_marking, if_pos hmem, ← htag, List.take_append_drop]
  · -- the tag for anything else would show in the bytes
    rw [if_neg hmem] at hopen
    have htag : body.drop (body.length - tagLength) = List.replicate tagLength 255 := by
      by_contra hnot
      rw [if_neg hnot] at hopen
      cases hopen
    have hin : (255 : UInt8) ∈ body.drop (body.length - tagLength) := by
      rw [htag]
      exact List.mem_replicate.mpr ⟨by decide, rfl⟩
    exact absurd (hpart.subset (List.mem_of_mem_drop hin)) h

/-- Two frames, the first of which comes twice. -/
def doubled : Bytes :=
  frame ([10, 20] ++ List.replicate 16 1) false ++ frame ([10, 20] ++ List.replicate 16 1) false ++
    frame (30 :: List.replicate 16 1) true

/-- A frame that comes twice is noticed, though every frame was sealed. -/
theorem doubled_not_clean :
    OpensOnly (marking (sealings fives (.clamp 2) [10, 20, 30] [(fives, [40])])) sevens
      (sealings fives (.clamp 2) [10, 20, 30] [(fives, [40])]) doubled ∧
    ∃ k reason, k ≤ 2 ∧
      (decrypt (marking (sealings fives (.clamp 2) [10, 20, 30] [(fives, [40])])) sevens fives
        ({ data := doubled, sizes := [4] } : Source)).Gives
          ((List.range k).map (chunkAt (.clamp 2) [10, 20, 30])).flatten
          (some (.fault (.integrity reason))) := by
  have honly := opensOnly_marking (sealings fives (.clamp 2) [10, 20, 30] [(fives, [40])]) sevens
    (by decide : 255 ∉ doubled)
  refine ⟨honly, ?_⟩
  obtain ⟨-, -, hnoticed⟩ := clean_iff_untouched
    (marking (sealings fives (.clamp 2) [10, 20, 30] [(fives, [40])])) sevens fives fives
    (.clamp 2) [10, 20, 30] [(fives, [40])] ({ data := doubled, sizes := [4] } : Source) rfl
    (by decide) honly
  obtain ⟨k, reason, hk, -, hgives⟩ := hnoticed fun hsame => by
    have hlen := congrArg List.length hsame.1
    rw [length_flatten_framesOf] at hlen
    revert hlen
    decide
  exact ⟨k, reason, hk, hgives⟩

end Frames

end ContentVault
