import ContentVault.Digest.Basic
import ContentVault.Stream.Reader

/-!
# Digesting streams

A `DigestTap` passes on what its inner reader gives and digests it on the way. The digest can be asked for only
after the end has been seen, so that the digest of a part never passes for the digest of the whole.
-/

namespace ContentVault

/-- A reader that digests what passes through it. -/
structure DigestTap (σ : Type) where
  inner : σ
  algorithm : DigestAlgorithm
  /-- What went into the digest so far, latest first. -/
  digested : List Bytes := []
  /-- How many bytes were read. -/
  passed : Nat := 0
  /-- Whether the end has been seen. -/
  drained : Bool := false

/-- The buffer through which a stream is copied. -/
def copyBuffer : Nat := 8192

namespace DigestTap

variable {σ : Type} [ByteReader σ]

/-- Reads once. No bytes into a buffer with room are the end; a failure changes nothing here. -/
def read (d : DigestTap σ) (room : Nat) : ReadResult × DigestTap σ :=
  match ByteReader.read d.inner room with
  | (.error e, inner) => (.error e, { d with inner })
  | (.ok bytes, inner) =>
    if bytes = [] then (.ok [], { d with inner, drained := d.drained || room != 0 })
    else (.ok bytes, { d with inner, digested := bytes :: d.digested, passed := d.passed + bytes.length })

omit [ByteReader σ] in
/-- The digest of what was read, if that is everything. -/
def finish (d : DigestTap σ) : Attempt Fingerprint :=
  if d.drained then .ok (Fingerprint.ofBytes d.algorithm d.digested.reverse.flatten)
  else .error .incompleteDigest

instance : ByteReader (DigestTap σ) where
  read := read
  left d := ByteReader.left d.inner
  left_read {d d' room bytes} h := by
    unfold read at h
    split at h
    · simp at h
    · rename_i inner hr
      have hb := ByteReader.left_read hr
      split at h <;> simp at h <;> obtain ⟨rfl, rfl⟩ := h <;> simp_all
  length_read {d d' room bytes} h := by
    unfold read at h
    split at h
    · simp at h
    · rename_i inner hr
      have hb := ByteReader.length_read hr
      split at h <;> simp at h <;> obtain ⟨rfl, rfl⟩ := h <;> simp_all

/-- Reads to the end and gives the digest. -/
def drain (d : DigestTap σ) : Attempt Fingerprint :=
  match ByteReader.drain d copyBuffer [] with
  | (_, some e, _) => .error (.ofIo e)
  | (_, none, d) => d.finish

end DigestTap

end ContentVault
