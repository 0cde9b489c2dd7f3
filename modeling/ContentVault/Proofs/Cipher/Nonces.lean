import ContentVault.Proofs.Cipher.Tampering
import Mathlib.Data.List.Nodup

/-! # The nonces of an artifact

    The chunks of an artifact are sealed under nonces that differ in the mask
    on their last eight bytes only, so a nonce is that of chunk `i` exactly if
    it has the first four bytes of the base nonce and is `i` away from it in
    the others (`forChunk_eq_iff`).  The chunks never share a nonce.  The
    label has a nonce that was drawn on its own: it meets that of one chunk, if
    it is near enough to the base nonce, and of none otherwise (`Apart.met`,
    `Apart.nonces`).  What keeps label and chunks apart even then is the
    associated data (`Apart.bindings`). -/

namespace ContentVault

theorem Bytes.xor_comm (as bs : Bytes) : xor as bs = xor bs as :=
  List.zipWith_comm_of_comm UInt8.xor_comm

/-- A byte string masked with what it was masked with before is the mask. -/
theorem Bytes.xor_xor_self {as mask : Bytes} (h : mask.length = as.length) :
    xor as (xor as mask) = mask := by
  rw [xor_comm, xor_comm as mask]
  exact xor_xor_cancel mask as (Nat.le_of_eq h)

namespace Nonce

/-! ## How far apart two nonces are -/

/-- The mask that takes the last eight bytes of one nonce to those of another. -/
def gap (base other : Nonce) : Nat :=
  Bytes.toNatBE (Bytes.xor (base.bytes.drop 4) (other.bytes.drop 4))

/-- Whether a nonce is as close to a base nonce as one of its first `n` chunks:
    the first four bytes are the same and the gap between the others is below
    `n`. -/
def Meets (base other : Nonce) (n : Nat) : Prop :=
  base.bytes.take 4 = other.bytes.take 4 ∧ base.gap other < n

instance (base other : Nonce) (n : Nat) : Decidable (base.Meets other n) :=
  inferInstanceAs (Decidable (_ ∧ _))

theorem length_drop_four (n : Nonce) : (n.bytes.drop 4).length = 8 := by
  rw [List.length_drop, n.length_bytes]

theorem ext_bytes {m n : Nonce} (h : m.bytes = n.bytes) : m = n := by
  cases m
  cases n
  cases h
  rfl

/-- The gap, as a mask. -/
theorem bigEndian_gap (base other : Nonce) :
    Bytes.bigEndian 8 (base.gap other)
      = Bytes.xor (base.bytes.drop 4) (other.bytes.drop 4) := by
  have hlen : (Bytes.xor (base.bytes.drop 4) (other.bytes.drop 4)).length = 8 := by
    rw [Bytes.length_xor, length_drop_four, length_drop_four]
    rfl
  have hspell := Bytes.bigEndian_toNatBE (Bytes.xor (base.bytes.drop 4) (other.bytes.drop 4))
  rwa [hlen] at hspell

/-- The nonce of a chunk is the one at a gap of its index. -/
theorem forChunk_eq_iff {base other : Nonce} {i : Nat} (hi : i < 2 ^ 64) :
    base.forChunk i = other ↔
      base.bytes.take 4 = other.bytes.take 4 ∧ base.gap other = i := by
  have hfour : (base.bytes.take 4).length = 4 := by rw [List.length_take, base.length_bytes]; rfl
  constructor
  · rintro rfl
    have htake : (base.forChunk i).bytes.take 4 = base.bytes.take 4 := List.take_left' hfour
    have hdrop : (base.forChunk i).bytes.drop 4
        = Bytes.xor (base.bytes.drop 4) (Bytes.bigEndian 8 i) := List.drop_left' hfour
    -- masked twice, the base nonce gives way to the mask, which spells the index
    refine ⟨htake.symm, ?_⟩
    rw [gap, hdrop, Bytes.xor_xor_self, Bytes.toNatBE_bigEndian 8 i hi]
    rw [Bytes.length_bigEndian, length_drop_four]
  · rintro ⟨htake, rfl⟩
    apply ext_bytes
    show base.bytes.take 4 ++ Bytes.xor (base.bytes.drop 4) (Bytes.bigEndian 8 (base.gap other)) = _
    rw [bigEndian_gap, Bytes.xor_xor_self, htake, List.take_append_drop]
    rw [length_drop_four, length_drop_four]

/-- The chunks of an artifact are told apart by their nonces. -/
theorem forChunk_index_inj {base : Nonce} {i j : Nat} (hi : i < 2 ^ 64) (hj : j < 2 ^ 64)
    (h : base.forChunk i = base.forChunk j) : i = j := by
  have hgap := ((forChunk_eq_iff hi).mp h).2
  rw [← hgap, ((forChunk_eq_iff hj).mp rfl).2]

/-- A nonce meets the first `n` chunks exactly if one of them has it. -/
theorem meets_iff {base other : Nonce} {n : Nat} (hn : n < 2 ^ 64) :
    base.Meets other n ↔ ∃ i < n, base.forChunk i = other := by
  constructor
  · rintro ⟨htake, hgap⟩
    exact ⟨base.gap other, hgap,
      (forChunk_eq_iff (Nat.lt_trans hgap hn)).mpr ⟨htake, rfl⟩⟩
  · rintro ⟨i, hi, hsame⟩
    obtain ⟨htake, rfl⟩ := (forChunk_eq_iff (Nat.lt_trans hi hn)).mp hsame
    exact ⟨htake, hi⟩

end Nonce

namespace Frames

/-! ## What is sealed under them -/

/-- How the nonces and the associated data of an artifact stand to each other,
    where `n` chunks and a label were sealed. -/
structure Apart (base other : Nonce) (n : Nat) (made : List Sealing) : Prop where
  count : made.length = n + 1
  chunk : ∀ i < n, (made.map Sealing.nonce)[i]? = some (base.forChunk i)
  label : (made.map Sealing.nonce)[n]? = some other
  /-- No two chunks share a nonce. -/
  chunks : ((made.map Sealing.nonce).take n).Nodup
  /-- Nothing shares a nonce, unless that of the label meets the chunks. -/
  nonces : (made.map Sealing.nonce).Nodup ↔ ¬ base.Meets other n
  /-- In that case it is shared with one chunk. -/
  met : base.Meets other n → ∃! i, i < n ∧ (made.map Sealing.nonce)[i]? = some other
  /-- Nothing ever shares its associated data. -/
  bindings : (made.map Sealing.binding).Nodup

variable {base other : Nonce} {size : ChunkSize} {plain label : Bytes}

theorem nonces_sealings :
    (sealings base size plain [(other, label)]).map Sealing.nonce
      = (List.range (plain.length / size.val + 1)).map base.forChunk ++ [other] := by
  rw [sealings, List.map_append, List.map_map]
  rfl

theorem bindings_sealings :
    (sealings base size plain [(other, label)]).map Sealing.binding
      = (List.range (plain.length / size.val + 1)).map
          (fun i => Cipher.chunkBinding i (i = plain.length / size.val)) ++
        [Cipher.labelBinding] := by
  rw [sealings, List.map_append, List.map_map]
  rfl

/-- The nonces of the first chunks are all different. -/
theorem nodup_forChunk (base : Nonce) {n : Nat} (hn : n < 2 ^ 64) :
    ((List.range n).map base.forChunk).Nodup := by
  refine List.Nodup.map_on (fun i hi j hj h => ?_) List.nodup_range
  exact Nonce.forChunk_index_inj (Nat.lt_trans (List.mem_range.mp hi) hn)
    (Nat.lt_trans (List.mem_range.mp hj) hn) h

/-- What is sealed for an artifact is kept apart as far as its nonces allow. -/
theorem apart_sealings (hn : plain.length / size.val + 1 < 2 ^ 64) :
    Apart base other (plain.length / size.val + 1)
      (sealings base size plain [(other, label)]) := by
  have hlen : ((List.range (plain.length / size.val + 1)).map base.forChunk).length
      = plain.length / size.val + 1 := by rw [List.length_map, List.length_range]
  have hchunk : ∀ i < plain.length / size.val + 1,
      ((sealings base size plain [(other, label)]).map Sealing.nonce)[i]?
        = some (base.forChunk i) := by
    intro i hi
    rw [nonces_sealings, List.getElem?_append_left (by rw [hlen]; exact hi), List.getElem?_map,
      List.getElem?_range hi, Option.map_some]
  constructor
  case count => rw [sealings, List.length_append, List.length_map, List.length_range]; rfl
  case chunk => exact hchunk
  case label =>
    have hlast : ((List.range (plain.length / size.val + 1)).map base.forChunk ++ [other])[
        ((List.range (plain.length / size.val + 1)).map base.forChunk).length]? = some other :=
      List.getElem?_concat_length
    rw [hlen] at hlast
    rw [nonces_sealings, hlast]
  case chunks =>
    rw [nonces_sealings, List.take_left' hlen]
    exact nodup_forChunk base hn
  case nonces =>
    rw [nonces_sealings, Nonce.meets_iff hn, ← List.concat_eq_append, List.nodup_concat,
      List.mem_map]
    simp only [List.mem_range]
    exact and_iff_left (nodup_forChunk base hn)
  case met =>
    intro hmeets
    obtain ⟨i, hi, hsame⟩ := (Nonce.meets_iff hn).mp hmeets
    refine ⟨i, ⟨hi, (hchunk i hi).trans (congrArg some hsame)⟩, fun j ⟨hj, hother⟩ => ?_⟩
    rw [hchunk j hj, ← hsame] at hother
    exact Nonce.forChunk_index_inj (Nat.lt_trans hj hn) (Nat.lt_trans hi hn)
      (Option.some.inj hother)
  case bindings =>
    rw [bindings_sealings, ← List.concat_eq_append, List.nodup_concat, List.mem_map]
    refine ⟨?_, List.Nodup.map_on (fun i hi j hj h => ?_) List.nodup_range⟩
    · rintro ⟨i, -, hlabel⟩
      exact Cipher.chunkBinding_ne_labelBinding _ _ hlabel
    · exact (Cipher.chunkBinding_inj (Nat.lt_trans (List.mem_range.mp hi) hn)
        (Nat.lt_trans (List.mem_range.mp hj) hn) h).1

end Frames

end ContentVault
