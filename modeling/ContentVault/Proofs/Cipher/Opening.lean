import ContentVault.Proofs.Cipher.Recorded
import Mathlib.Data.List.Induction

/-! # What any bytes are decrypted to

    Whatever an encrypted stream holds, decryption takes frames off its front
    as long as they open.  `Opens` says so of bytes: which chunks the leading
    frames hold, whether the last of them is marked as the final one, and what
    is left behind them.  The chunks are delivered; the end is clean if the
    final frame was among them with nothing behind it, and otherwise a failure
    of integrity (`decrypt_cases`). -/

namespace ContentVault

/-- Bytes are the big-endian form of the number that they spell. -/
theorem Bytes.bigEndian_toNatBE (bs : Bytes) : bigEndian bs.length (toNatBE bs) = bs := by
  induction bs using List.reverseRecOn with
  | nil => rfl
  | append_singleton bs b ih =>
      have hb : b.toNat < 256 := b.toNat_lt
      have hdiv : (toNatBE bs * 256 + b.toNat) / 256 = toNatBE bs := by omega
      have hmod : (toNatBE bs * 256 + b.toNat) % 256 = b.toNat := by omega
      rw [toNatBE_concat, List.length_append, List.length_singleton, bigEndian, hdiv, hmod, ih,
        UInt8.ofNat_toNat]

namespace Frames

open ByteReader ReaderView

/-! ## Headers -/

/-- A header that is accepted is that of a frame of moderate length. -/
theorem header_of_fields {header : Bytes} {index length : Nat} {final : Bool}
    (hlen : header.length = headerSize) (h : headerFields header index = .ok (length, final)) :
    header = Bytes.bigEndian 4 length ++ [if final then 1 else 0] ∧
      tagLength ≤ length ∧ length ≤ largestChunk + tagLength := by
  have htake : (header.take 4).length = 4 := by
    rw [List.length_take, hlen]
    rfl
  have hdigits : Bytes.bigEndian 4 (Bytes.toNatBE (header.take 4)) = header.take 4 := by
    have hspell := Bytes.bigEndian_toNatBE (header.take 4)
    rwa [htake] at hspell
  -- whatever the mark is, the header is its digits and the mark
  have assemble : ∀ mark : UInt8, header.drop 4 = [mark] →
      header = Bytes.bigEndian 4 (Bytes.toNatBE (header.take 4)) ++ [mark] := by
    intro mark hdrop
    rw [hdigits, ← hdrop, List.take_append_drop]
  simp only [headerFields, bind, Except.bind] at h
  split at h
  · rename_i hdrop
    split at h
    · rename_i hbounds
      cases h
      exact ⟨assemble 0 hdrop, hbounds⟩
    · cases h
  · rename_i hdrop
    split at h
    · rename_i hbounds
      cases h
      exact ⟨assemble 1 hdrop, hbounds⟩
    · cases h
  · cases h

/-- A header that is refused is reported as a failure of integrity. -/
theorem broken_of_fields {header : Bytes} {index : Nat} {e : IoError}
    (h : headerFields header index = .error e) : ∃ reason, e = broken reason := by
  simp only [headerFields, bind, Except.bind] at h
  split at h
  · split at h
    · cases h
    · cases h
      exact ⟨_, rfl⟩
  · split at h
    · cases h
    · cases h
      exact ⟨_, rfl⟩
  · cases h
    exact ⟨_, rfl⟩

theorem frame_eq (body : Bytes) (final : Bool) :
    frame body final = (Bytes.bigEndian 4 body.length ++ [if final then 1 else 0]) ++ body := by
  rw [frame, List.append_assoc]
  rfl

/-! ## Frames -/

section

variable (a : Aead) (key : Key) (base : Nonce)

/-- Whether the body of a frame is of moderate length and opens at its place. -/
structure OpensAt (index : Nat) (final : Bool) (body chunk : Bytes) : Prop where
  low : tagLength ≤ body.length
  high : body.length ≤ largestChunk + tagLength
  opens : a.decrypt key (base.forChunk index) (Cipher.chunkBinding index final) body = some chunk

/-- Leading frames that open, from chunk `index` on: the bytes, the chunks,
    whether the last frame is the final one, and the bytes behind it. -/
inductive Opens : Nat → Bytes → List Bytes → Bool → Bytes → Prop where
  | nothing {index : Nat} {rest : Bytes} : Opens index rest [] false rest
  | final {index : Nat} {body chunk rest : Bytes} (h : OpensAt a key base index true body chunk) :
      Opens index (frame body true ++ rest) [chunk] true rest
  | more {index : Nat} {body chunk bytes : Bytes} {chunks : List Bytes} {final : Bool}
      {rest : Bytes} (h : OpensAt a key base index false body chunk)
      (later : Opens (index + 1) bytes chunks final rest) :
      Opens index (frame body false ++ bytes) (chunk :: chunks) final rest

end

variable {a : Aead} {key : Key} {base : Nonce}
variable {σ : Type} [ByteReader σ] [ReaderView σ]

omit [ReaderView σ] in
/-- What reading a frame goes on with, once its header is read. -/
theorem next_of_header {s s1 : σ} {header : Bytes} {index : Nat}
    (hread : readFilling s headerSize = (.ok header, s1)) (hlen : header.length = headerSize) :
    next a key base index s =
      match headerFields header index with
      | .error e => (.error e, s1)
      | .ok (length, final) =>
        match readFilling s1 length with
        | (.error e, s2) => (.error e, s2)
        | (.ok body, s2) =>
          if body.length ≠ length then (.error (inChunk "truncated frame" index), s2)
          else
            match a.decrypt key (base.forChunk index) (Cipher.chunkBinding index final) body with
            | some chunk => (.ok (chunk, final), s2)
            | none =>
              (.error (broken ("chunk " ++ toString index ++ " failed authentication")), s2) := by
  have hsome : header ≠ [] := by
    rintro rfl
    cases hlen
  have hlong : ¬ header.length < headerSize := Nat.not_lt.mpr (Nat.le_of_eq hlen.symm)
  rw [next, hread]
  exact (if_neg hsome).trans (if_neg hlong)

variable (a key base) in
/-- All that reading the next frame of a stream can come to. -/
theorem next_cases {s : σ} (index : Nat) (hs : ReaderView.ending s = none) :
    (∃ body chunk final s', next a key base index s = (.ok (chunk, final), s') ∧
      content s = frame body final ++ content s' ∧ ReaderView.ending s' = none ∧
      OpensAt a key base index final body chunk) ∨
    ∃ reason s', next a key base index s = (.error (broken reason), s') := by
  rcases readFilling_cases s headerSize with ⟨hroom, s1, hread1, hc1, he1⟩
    | ⟨hshort, -, s1, hread1⟩ | ⟨-, s1, e, he, -⟩
  · have hlen : ((content s).take headerSize).length = headerSize := List.length_take_of_le hroom
    rw [next_of_header hread1 hlen]
    cases hfields : headerFields ((content s).take headerSize) index with
    | error e =>
        obtain ⟨reason, rfl⟩ := broken_of_fields hfields
        exact Or.inr ⟨reason, s1, rfl⟩
    | ok fields =>
        obtain ⟨length, final⟩ := fields
        obtain ⟨hheader, hlow, hhigh⟩ := header_of_fields hlen hfields
        rcases readFilling_cases s1 length with ⟨hroom2, s2, hread2, hc2, he2⟩
          | ⟨hshort2, -, s2, hread2⟩ | ⟨-, s2, e, he, -⟩
        · have hbody : ((content s1).take length).length = length :=
            List.length_take_of_le hroom2
          simp only [hread2]
          rw [if_neg (not_not_intro hbody)]
          cases hopen : a.decrypt key (base.forChunk index) (Cipher.chunkBinding index final)
              ((content s1).take length) with
          | none => exact Or.inr ⟨"chunk " ++ toString index ++ " failed authentication", s2, rfl⟩
          | some chunk =>
              refine Or.inl ⟨(content s1).take length, chunk, final, s2, rfl, ?_,
                he2.trans (he1.trans hs), ⟨?_, ?_, hopen⟩⟩
              · rw [frame_eq, hbody, ← hheader, List.append_assoc, hc2, List.take_append_drop,
                  hc1, List.take_append_drop]
              · rw [hbody]
                exact hlow
              · rw [hbody]
                exact hhigh
        · simp only [hread2]
          rw [if_pos (Nat.ne_of_lt hshort2)]
          exact Or.inr ⟨"truncated frame" ++ " in chunk " ++ toString index, s2, rfl⟩
        · cases (he1.trans hs).symm.trans he
  · simp only [next, hread1]
    by_cases hnil : content s = []
    · rw [if_pos hnil]
      exact Or.inr ⟨"ciphertext ended before the final chunk", s1, rfl⟩
    · rw [if_neg hnil, if_pos hshort]
      exact Or.inr ⟨"truncated frame header", s1, rfl⟩
  · cases hs.symm.trans he

/-- All that can come after the final frame. -/
theorem ending_cases {s : σ} (hs : ReaderView.ending s = none) :
    (content s = [] ∧ ending s = []) ∨
      (content s ≠ [] ∧ ∃ reason, ending s = [.failure (broken reason)]) := by
  by_cases hc : content s = []
  · exact Or.inl ⟨hc, ending_nil hc hs⟩
  · refine Or.inr ⟨hc, "trailing data after final chunk", ?_⟩
    rw [ending]
    generalize hread : ByteReader.read s 1 = out
    obtain ⟨result, s'⟩ := out
    match result with
    | .error e => exact absurd (read_failure Nat.one_pos hread).1 hc
    | .ok [] => exact absurd (read_end Nat.one_pos hread).1 hc
    | .ok (b :: bs) => rfl

variable (a key base) in
/-- What decryption gives of a stream from chunk `index` on: the chunks of the
    leading frames that open, in pieces, and then how that ended. -/
theorem decryptFrom_cases {s : σ} (index : Nat) (done : List Message)
    (hs : ReaderView.ending s = none) :
    ∃ chunks final rest, Opens a key base index (content s) chunks final rest ∧
      ∃ pieces : List Bytes, pieces.flatten = chunks.flatten ∧
        ((final = true ∧ rest = [] ∧
            decryptFrom a key base index s done = done.reverse ++ pieces.map .chunk) ∨
          (¬(final = true ∧ rest = []) ∧ ∃ reason, decryptFrom a key base index s done
            = done.reverse ++ pieces.map .chunk ++ [.failure (broken reason)])) := by
  induction hn : left s using Nat.strongRecOn generalizing index s done with
  | ind n ih =>
      subst hn
      rcases next_cases a key base index hs with
        ⟨body, chunk, final, s', hnext, hc, hs', hopens⟩ | ⟨reason, s', hnext⟩
      · obtain ⟨first, hfirst, hcons⟩ := consChunk_reverse chunk done
        have hrun : decryptFrom a key base index s done
            = if final then (consChunk chunk done).reverse ++ ending s'
              else decryptFrom a key base (index + 1) s' (consChunk chunk done) := by
          rw [decryptFrom]
          split
          · rename_i hnext'
            cases hnext.symm.trans hnext'
          · rename_i hnext'
            cases hnext.symm.trans hnext'
            rfl
        rw [hc, hrun]
        cases final with
        | true =>
            refine ⟨[chunk], true, content s', .final hopens, first, ?_, ?_⟩
            · rw [hfirst, List.flatten_singleton]
            · rw [if_pos rfl, hcons]
              rcases ending_cases hs' with ⟨hnil, hend⟩ | ⟨hmore, reason, hend⟩
              · exact Or.inl ⟨rfl, hnil, by rw [hend, List.append_nil]⟩
              · exact Or.inr ⟨fun h => hmore h.2, reason, by rw [hend]⟩
        | false =>
            obtain ⟨chunks, final, rest, hlater, pieces, hpieces, hgiven⟩ :=
              ih (left s') (left_next hnext) (index + 1) (consChunk chunk done) hs' rfl
            refine ⟨chunk :: chunks, final, rest, .more hopens hlater, first ++ pieces, ?_, ?_⟩
            · rw [List.flatten_append, hfirst, hpieces, List.flatten_cons]
            · rw [if_neg Bool.false_ne_true]
              simp only [hcons, List.append_assoc] at hgiven
              simpa only [List.map_append, List.append_assoc] using hgiven
      · refine ⟨[], false, content s, .nothing, [], rfl, Or.inr ⟨nofun, reason, ?_⟩⟩
        rw [decryptFrom]
        split
        · rename_i hnext'
          cases hnext.symm.trans hnext'
          simp
        · rename_i hnext'
          cases hnext.symm.trans hnext'

/-- What any bytes are decrypted to: the chunks of the leading frames that
    open, and a clean end exactly if those are the whole stream. -/
theorem decrypt_cases (a : Aead) (key : Key) (base : Nonce) {s : σ}
    (hs : ReaderView.ending s = none) :
    ∃ chunks final rest, Opens a key base 0 (content s) chunks final rest ∧
      content (decrypt a key base s) = chunks.flatten ∧
      ((final = true ∧ rest = [] ∧ ReaderView.ending (decrypt a key base s) = none) ∨
        (¬(final = true ∧ rest = []) ∧
          ∃ reason, ReaderView.ending (decrypt a key base s) = some (broken reason))) := by
  obtain ⟨chunks, final, rest, hopens, pieces, hpieces, hgiven⟩ :=
    decryptFrom_cases a key base 0 [] hs
  refine ⟨chunks, final, rest, hopens, ?_, ?_⟩
  · rw [decrypt, Relay.content_fresh, ← hpieces]
    rcases hgiven with ⟨-, -, h⟩ | ⟨-, reason, h⟩
    · rw [h, List.reverse_nil, List.nil_append, ← List.append_nil (pieces.map Message.chunk),
        Outlet.chunkBytes_chunks]
      exact List.append_nil _
    · rw [h, List.reverse_nil, List.nil_append, Outlet.chunkBytes_chunks]
      exact List.append_nil _
  · rw [decrypt, Relay.ending_fresh]
    rcases hgiven with ⟨hfinal, hrest, h⟩ | ⟨hnot, reason, h⟩
    · refine Or.inl ⟨hfinal, hrest, ?_⟩
      rw [h, List.reverse_nil, List.nil_append, ← List.append_nil (pieces.map Message.chunk),
        Outlet.failure?_chunks]
      rfl
    · refine Or.inr ⟨hnot, reason, ?_⟩
      rw [h, List.reverse_nil, List.nil_append, Outlet.failure?_chunks]
      rfl

end Frames

end ContentVault
