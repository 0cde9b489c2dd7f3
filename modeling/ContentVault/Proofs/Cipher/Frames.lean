import ContentVault.Cipher.Frames
import ContentVault.Proofs.Stream.Split
import Mathlib.Algebra.Group.Nat.Defs

/-! # Encrypted streams, decrypted again

    The frames of a plaintext depend on its bytes and its ending only
    (`framesFrom`, `encryptFrom_eq`), not on the reads that gave them.  A
    frame in front of a stream is taken off as the chunk that was sealed in it
    (`next_frame`), so frames that end cleanly are decrypted to the plaintext,
    by whatever reads they come (`decrypt_frames`). -/

namespace ContentVault

/-- A number that fits is read back from its big-endian bytes. -/
theorem Bytes.toNatBE_bigEndian (width n : Nat) (fits : n < 256 ^ width) :
    toNatBE (bigEndian width n) = n := by
  induction width generalizing n with
  | zero =>
      rw [Nat.pow_zero, Nat.lt_one_iff] at fits
      rw [fits]
      rfl
  | succ width ih =>
      have hdiv : n / 256 < 256 ^ width := by
        rw [Nat.pow_succ] at fits
        omega
      have hbyte : (UInt8.ofNat (n % 256)).toNat = n % 256 := by simp
      rw [bigEndian, toNatBE_concat, ih _ hdiv, hbyte]
      omega

namespace Frames

open ByteReader ReaderView

/-! ## Encrypting -/

section

variable (a : Aead) (key : Key) (base : Nonce) (size : ChunkSize)

/-- The frames of a plaintext from chunk `index` on: a full chunk as long as
    there is one, then the rest, or the failure in its place. -/
def framesFrom (index : Nat) (plain : Bytes) (e : Ending) : List Message :=
  if _h : size.val ≤ plain.length then
    .chunk (encryptChunk a key base index (plain.take size.val) false) ::
      framesFrom (index + 1) (plain.drop size.val) e
  else
    match e with
    | none => [.chunk (encryptChunk a key base index plain true)]
    | some e => [.failure e]
termination_by plain.length
decreasing_by
  have := size.pos
  rw [List.length_drop]
  omega

variable {a key base size}

theorem framesFrom_full {index : Nat} {plain : Bytes} {e : Ending}
    (h : size.val ≤ plain.length) :
    framesFrom a key base size index plain e
      = .chunk (encryptChunk a key base index (plain.take size.val) false) ::
          framesFrom a key base size (index + 1) (plain.drop size.val) e := by
  rw [framesFrom.eq_def, dif_pos h]

theorem framesFrom_last {index : Nat} {plain : Bytes} (h : plain.length < size.val) :
    framesFrom a key base size index plain none
      = [.chunk (encryptChunk a key base index plain true)] := by
  rw [framesFrom.eq_def, dif_neg (Nat.not_le.mpr h)]

theorem framesFrom_failure {index : Nat} {plain : Bytes} {e : IoError}
    (h : plain.length < size.val) :
    framesFrom a key base size index plain (some e) = [.failure e] := by
  rw [framesFrom.eq_def, dif_neg (Nat.not_le.mpr h)]

/-- Encrypting ends as the plaintext does. -/
theorem failure?_framesFrom (index : Nat) (plain : Bytes) (e : Ending) :
    Outlet.failure? (framesFrom a key base size index plain e) = e := by
  fun_induction framesFrom a key base size index plain e with
  | case1 index plain h ih => exact ih
  | case2 index plain h he => exact he.symm
  | case3 index plain h e' he => exact he.symm

variable {σ : Type} [ByteReader σ] [ReaderView σ]

/-- The frames of a stream are those of its bytes and its ending. -/
theorem encryptFrom_eq (index : Nat) (plain : σ) (done : List Message) :
    encryptFrom a key base size index plain done = done.reverse ++
      framesFrom a key base size index (content plain) (ReaderView.ending plain) := by
  -- a chunk is read in each case, and it is the one that the bytes begin with
  fun_induction encryptFrom a key base size index plain done with
  | case1 index plain done e rest hread =>
      rcases readFilling_cases plain size.val with ⟨-, s', hread', -⟩ | ⟨-, -, s', hread'⟩
        | ⟨hlt, s', e', hend, hread'⟩
      · cases hread.symm.trans hread'
      · cases hread.symm.trans hread'
      · cases hread.symm.trans hread'
        rw [hend, framesFrom_failure hlt, List.reverse_cons]
  | case2 index plain done chunk rest hread hshort =>
      rcases readFilling_cases plain size.val with ⟨hge, s', hread', -⟩ | ⟨hlt, hend, s', hread'⟩
        | ⟨-, s', e', -, hread'⟩
      · cases hread.symm.trans hread'
        rw [List.length_take_of_le hge] at hshort
        exact absurd hshort (Nat.lt_irrefl _)
      · cases hread.symm.trans hread'
        rw [hend, framesFrom_last hlt, List.reverse_cons]
      · cases hread.symm.trans hread'
  | case3 index plain done chunk rest hread hfull ih =>
      rcases readFilling_cases plain size.val with ⟨hge, s', hread', hc, he⟩ | ⟨hlt, -, s', hread'⟩
        | ⟨-, s', e', -, hread'⟩
      · cases hread.symm.trans hread'
        rw [ih, hc, he, framesFrom_full hge, List.reverse_cons, List.append_assoc]
        rfl
      · cases hread.symm.trans hread'
        exact absurd hlt hfull
      · cases hread.symm.trans hread'

/-- The bytes that a plaintext is encrypted to, if it ends cleanly. -/
def frameBytes (a : Aead) (key : Key) (base : Nonce) (size : ChunkSize) (plain : Bytes) : Bytes :=
  Outlet.chunkBytes (framesFrom a key base size 0 plain none)

theorem ending_encrypt (plain : σ) :
    ReaderView.ending (encrypt a key base size plain) = ReaderView.ending plain := by
  unfold encrypt
  rw [Relay.ending_fresh, encryptFrom_eq, List.reverse_nil, List.nil_append, failure?_framesFrom]

theorem content_encrypt {plain : σ} (h : ReaderView.ending plain = none) :
    ReaderView.content (encrypt a key base size plain)
      = frameBytes a key base size (content plain) := by
  unfold encrypt frameBytes
  rw [Relay.content_fresh, encryptFrom_eq, List.reverse_nil, List.nil_append, h]

end

/-! ## Decrypting -/

section

variable {a : Aead} {key : Key} {base : Nonce} {size : ChunkSize}
variable {σ : Type} [ByteReader σ] [ReaderView σ]

theorem length_frame (encrypted : Bytes) (final : Bool) :
    (frame encrypted final).length = headerSize + encrypted.length := by
  unfold frame
  rw [List.length_append, List.length_cons, Bytes.length_bigEndian]
  show 4 + (encrypted.length + 1) = 5 + encrypted.length
  omega

/-- The header of a frame of moderate length says what is in the frame. -/
theorem headerFields_frame {encrypted : Bytes} (final : Bool) (index : Nat)
    (hlow : tagLength ≤ encrypted.length) (hhigh : encrypted.length ≤ largestChunk + tagLength) :
    headerFields ((frame encrypted final).take headerSize) index
      = .ok (encrypted.length, final) := by
  have hfits : encrypted.length < 256 ^ 4 :=
    Nat.lt_of_le_of_lt hhigh (by decide : largestChunk + tagLength < 256 ^ 4)
  have hlen : (Bytes.bigEndian 4 encrypted.length).length = 4 := Bytes.length_bigEndian 4 _
  have hheader : (frame encrypted final).take headerSize
      = Bytes.bigEndian 4 encrypted.length ++ [if final then 1 else 0] := by
    unfold frame
    rw [show headerSize = 4 + 1 from rfl, List.take_append, hlen, List.take_of_length_le (by omega)]
    rfl
  unfold headerFields
  rw [hheader, List.take_left' hlen, List.drop_left' hlen, Bytes.toNatBE_bigEndian 4 _ hfits]
  cases final with
  | true => exact if_pos ⟨hlow, hhigh⟩
  | false => exact if_pos ⟨hlow, hhigh⟩

/-- A frame is taken off a stream as the chunk that was sealed in it. -/
theorem next_frame {index : Nat} {chunk : Bytes} {final : Bool} {s : σ} {rest : Bytes}
    (hchunk : chunk.length ≤ largestChunk)
    (hs : content s = encryptChunk a key base index chunk final ++ rest) :
    ∃ s', next a key base index s = (.ok (chunk, final), s') ∧ content s' = rest ∧
      ReaderView.ending s' = ReaderView.ending s := by
  have hlen := a.length_encrypt key (base.forChunk index) (Cipher.chunkBinding index final) chunk
  have hopen := a.decrypt_encrypt key (base.forChunk index) (Cipher.chunkBinding index final) chunk
  unfold encryptChunk at hs
  generalize a.encrypt key (base.forChunk index) (Cipher.chunkBinding index final) chunk
    = encrypted at hs hlen hopen
  have hframe := length_frame encrypted final
  have hlow : tagLength ≤ encrypted.length := by omega
  have hfields := headerFields_frame final index hlow (by omega)
  have htotal : (content s).length = headerSize + encrypted.length + rest.length := by
    rw [hs, List.length_append, hframe]
  -- the header
  have hheader : headerSize ≤ (content s).length := by omega
  obtain ⟨s1, hread1, hc1, he1⟩ := readFilling_full hheader
  have htake : (content s).take headerSize = (frame encrypted final).take headerSize := by
    rw [hs, List.take_append_of_le_length (by omega)]
  have hlength : ((content s).take headerSize).length = headerSize :=
    List.length_take_of_le (by omega)
  have hsome : (content s).take headerSize ≠ [] := by
    intro hnil
    rw [hnil] at hlength
    cases hlength
  -- the body
  have hbody : content s1 = encrypted ++ rest := by
    have hdrop : (frame encrypted final).drop headerSize = encrypted := by
      unfold frame
      rw [show headerSize = 4 + 1 from rfl, ← List.drop_drop,
        List.drop_left' (Bytes.length_bigEndian 4 _)]
      rfl
    rw [hc1, hs, List.drop_append_of_le_length (by omega), hdrop]
  have hroom : encrypted.length ≤ (content s1).length := by
    rw [hbody, List.length_append]
    omega
  obtain ⟨s2, hread2, hc2, he2⟩ := readFilling_full hroom
  rw [hbody, List.take_left' rfl] at hread2
  rw [hbody, List.drop_left' rfl] at hc2
  refine ⟨s2, ?_, hc2, he2.trans he1⟩
  unfold next
  simp only [hread1]
  rw [if_neg hsome, if_neg (by omega), htake, hfields]
  simp only [hread2]
  rw [if_neg (by simp), hopen]

/-- What has to come after the last frame, where nothing does. -/
theorem ending_nil {s : σ} (hc : content s = []) (he : ReaderView.ending s = none) :
    ending s = [] := by
  unfold ending
  generalize hread : ByteReader.read s 1 = out
  obtain ⟨result, s'⟩ := out
  match result with
  | .error e =>
      obtain ⟨-, he'⟩ := read_failure Nat.one_pos hread
      cases he.symm.trans he'
  | .ok [] => rfl
  | .ok (b :: bs) =>
      obtain ⟨hc', -⟩ := read_bytes Nat.one_pos (List.cons_ne_nil b bs) hread
      cases hc.symm.trans hc'

theorem consChunk_reverse (chunk : Bytes) (done : List Message) :
    ∃ chunks : List Bytes, chunks.flatten = chunk ∧
      (consChunk chunk done).reverse = done.reverse ++ chunks.map .chunk := by
  unfold consChunk
  split
  · rename_i hnil
    exact ⟨[], hnil.symm, (List.append_nil _).symm⟩
  · exact ⟨[chunk], List.flatten_singleton, List.reverse_cons⟩

/-- Frames that end cleanly are decrypted to the chunks of the plaintext. -/
theorem decryptFrom_eq {index : Nat} {plain : Bytes} {s : σ} (done : List Message)
    (hc : content s = Outlet.chunkBytes (framesFrom a key base size index plain none))
    (he : ReaderView.ending s = none) :
    ∃ chunks : List Bytes, chunks.flatten = plain ∧
      decryptFrom a key base index s done = done.reverse ++ chunks.map .chunk := by
  induction hn : plain.length using Nat.strongRecOn generalizing index plain s done with
  | ind n ih =>
      have hmax := size.le_max
      rcases Nat.lt_or_ge plain.length size.val with hlt | hge
      · -- the last chunk, after which the stream has to end
        rw [framesFrom_last hlt] at hc
        obtain ⟨s', hnext, hc', he'⟩ := next_frame (by omega) hc
        obtain ⟨chunks, hflat, hcons⟩ := consChunk_reverse plain done
        refine ⟨chunks, hflat, ?_⟩
        rw [decryptFrom]
        split
        · rename_i hnext'
          cases hnext.symm.trans hnext'
        · rename_i hnext'
          cases hnext.symm.trans hnext'
          rw [if_pos rfl, ending_nil hc' (he'.trans he), hcons, List.append_nil]
      · -- a full chunk, after which the rest of the plaintext is shorter
        have hpos := size.pos
        have htake : (plain.take size.val).length = size.val := List.length_take_of_le hge
        have hdrop : (plain.drop size.val).length < n := by
          rw [List.length_drop]
          omega
        rw [framesFrom_full hge] at hc
        obtain ⟨s', hnext, hc', he'⟩ := next_frame (by omega) hc
        obtain ⟨first, hfirst, hcons⟩ := consChunk_reverse (plain.take size.val) done
        obtain ⟨chunks, hflat, hrest⟩ := ih _ hdrop (consChunk (plain.take size.val) done) hc'
          (he'.trans he) rfl
        refine ⟨first ++ chunks, ?_, ?_⟩
        · rw [List.flatten_append, hfirst, hflat, List.take_append_drop]
        · rw [decryptFrom]
          split
          · rename_i hnext'
            cases hnext.symm.trans hnext'
          · rename_i hnext'
            cases hnext.symm.trans hnext'
            rw [if_neg Bool.false_ne_true, hrest, hcons, List.append_assoc, List.map_append]

/-- Decryption undoes encryption, by whatever reads the frames come. -/
theorem decrypt_frames {plain : Bytes} {s : σ}
    (hc : content s = frameBytes a key base size plain) (he : ReaderView.ending s = none) :
    ReaderView.content (decrypt a key base s) = plain ∧
      ReaderView.ending (decrypt a key base s) = none := by
  obtain ⟨chunks, hflat, heq⟩ := decryptFrom_eq [] hc he
  have hchunks := Outlet.chunkBytes_chunks chunks []
  have hfailure := Outlet.failure?_chunks chunks []
  rw [List.append_nil] at hchunks hfailure
  unfold decrypt
  rw [Relay.content_fresh, Relay.ending_fresh, heq, List.reverse_nil, List.nil_append, hchunks,
    hfailure, hflat]
  exact ⟨List.append_nil plain, rfl⟩

end

end Frames

end ContentVault
