import ContentVault.Proofs.Cipher.Opening
import ContentVault.Proofs.Stream.Reading

/-! # The grammar of encrypted streams

    `unframe` says of a byte string what it decrypts to, frame by frame and
    without a word about reads: a length in four bytes, a mark, and a body
    that opens at its place.  It stops at the first deviation.  Decrypting a
    stream gives just that, by whatever reads its bytes come, and where the
    bytes are over too soon the failure of the stream takes the place of the
    complaint (`decrypted_by_grammar`).

    What one frame takes off a stream and off a byte string is compared once
    (`next_eq`); the rest is induction over the frames. -/

namespace ContentVault

namespace Frames

open ByteReader ReaderView

/-! ## Frames in a byte string -/

/-- What is wrong where bytes are no frame, or are more than frames. -/
inductive Deviation where
  | missing
  | header
  | flag
  | length (n : Nat)
  | body
  | authentication
  /-- There are bytes after the final frame. -/
  | trailing
deriving DecidableEq, Repr

namespace Deviation

/-- The wording of a deviation in the frame with this index. -/
def reason (index : Nat) : Deviation → String
  | missing => "ciphertext ended before the final chunk"
  | header => "truncated frame header"
  | flag => "invalid frame flag in chunk " ++ toString index
  | length n => "invalid frame length " ++ toString n ++ " in chunk " ++ toString index
  | body => "truncated frame in chunk " ++ toString index
  | authentication => "chunk " ++ toString index ++ " failed authentication"
  | trailing => "trailing data after final chunk"

/-- Whether more bytes could have been a frame. -/
def isEnd : Deviation → Bool
  | missing => true
  | header => true
  | body => true
  | _ => false

/-- The failure that a deviation is told as, when the bytes come from a stream
    that ends like this: bytes that are missing are the fault of the stream, if
    it has one. -/
def cause (d : Deviation) (e : Ending) (index : Nat) : IoError :=
  if d.isEnd then e.getD (broken (d.reason index)) else broken (d.reason index)

/-- Where bytes are missing, the failure of the stream is told first. -/
theorem cause_of_end {d : Deviation} (h : d.isEnd = true) (e : Ending) (index : Nat) :
    d.cause e index = e.getD (broken (d.reason index)) := if_pos h

end Deviation

section

variable (a : Aead) (key : Key) (base : Nonce)

/-- Takes a frame off bytes: the chunk in it, whether it is the final one, and
    the bytes behind it. -/
def takeFrame (index : Nat) : Bytes → Except Deviation (Bytes × Bool × Bytes)
  | [] => .error .missing
  | b₀ :: b₁ :: b₂ :: b₃ :: mark :: rest =>
    let length := Bytes.toNatBE [b₀, b₁, b₂, b₃]
    if mark ≠ 0 ∧ mark ≠ 1 then .error .flag
    else if length < tagLength ∨ largestChunk + tagLength < length then .error (.length length)
    else if rest.length < length then .error .body
    else
      match a.decrypt key (base.forChunk index) (Cipher.chunkBinding index (mark == 1))
          (rest.take length) with
      | none => .error .authentication
      | some chunk => .ok (chunk, mark == 1, rest.drop length)
  | _ => .error .header

theorem length_of_takeFrame {index : Nat} {bytes chunk rest : Bytes} {final : Bool}
    (h : takeFrame a key base index bytes = .ok (chunk, final, rest)) :
    rest.length + 21 ≤ bytes.length := by
  rw [takeFrame.eq_def] at h
  split at h
  · cases h
  · rename_i b₀ b₁ b₂ b₃ mark behind
    simp only at h
    split at h
    · cases h
    · split at h
      · cases h
      · rename_i hlength
        split at h
        · cases h
        · split at h
          · cases h
          · cases h
            have htag : tagLength = 16 := rfl
            simp only [List.length_cons, List.length_drop]
            omega
  · cases h

/-- What bytes decrypt to from frame `index` on, if the stream that they come
    from ends with `e`: all chunks up to the first deviation, and then what is
    wrong there. -/
def unframe (e : Ending) (index : Nat) (bytes : Bytes) : Bytes × Ending :=
  match _h : takeFrame a key base index bytes with
  | .error d => ([], some (d.cause e index))
  | .ok (chunk, true, rest) =>
    (chunk, if rest = [] then e else some (Deviation.trailing.cause e index))
  | .ok (chunk, false, rest) =>
    let later := unframe e (index + 1) rest
    (chunk ++ later.1, later.2)
termination_by bytes.length
decreasing_by
  have := length_of_takeFrame a key base _h
  omega

end

variable {a : Aead} {key : Key} {base : Nonce}

theorem unframe_deviation {e : Ending} {index : Nat} {bytes : Bytes} {d : Deviation}
    (h : takeFrame a key base index bytes = .error d) :
    unframe a key base e index bytes = ([], some (d.cause e index)) := by
  rw [unframe]
  split
  · rename_i d' h'
    cases h.symm.trans h'
    rfl
  · rename_i chunk rest h'
    cases h.symm.trans h'
  · rename_i chunk rest h'
    cases h.symm.trans h'

theorem unframe_final {e : Ending} {index : Nat} {bytes chunk rest : Bytes}
    (h : takeFrame a key base index bytes = .ok (chunk, true, rest)) :
    unframe a key base e index bytes
      = (chunk, if rest = [] then e else some (Deviation.trailing.cause e index)) := by
  rw [unframe]
  split
  · rename_i d h'
    cases h.symm.trans h'
  · rename_i chunk' rest' h'
    cases h.symm.trans h'
    rfl
  · rename_i chunk' rest' h'
    cases h.symm.trans h'

theorem unframe_more {e : Ending} {index : Nat} {bytes chunk rest : Bytes}
    (h : takeFrame a key base index bytes = .ok (chunk, false, rest)) :
    unframe a key base e index bytes
      = (chunk ++ (unframe a key base e (index + 1) rest).1,
          (unframe a key base e (index + 1) rest).2) := by
  rw [unframe]
  split
  · rename_i d h'
    cases h.symm.trans h'
  · rename_i chunk' rest' h'
    cases h.symm.trans h'
  · rename_i chunk' rest' h'
    cases h.symm.trans h'
    rfl

theorem takeFrame_short {index : Nat} {bytes : Bytes} (h : bytes.length < headerSize) :
    takeFrame a key base index bytes = .error (if bytes = [] then .missing else .header) := by
  rcases bytes with _ | ⟨b₀, _ | ⟨b₁, _ | ⟨b₂, _ | ⟨b₃, _ | ⟨mark, rest⟩⟩⟩⟩⟩
  case cons.cons.cons.cons.cons =>
    simp only [List.length_cons, headerSize] at h
    omega
  all_goals rfl

theorem exists_header {bytes : Bytes} (h : headerSize ≤ bytes.length) :
    ∃ b₀ b₁ b₂ b₃ mark rest, bytes = b₀ :: b₁ :: b₂ :: b₃ :: mark :: rest := by
  rcases bytes with _ | ⟨b₀, _ | ⟨b₁, _ | ⟨b₂, _ | ⟨b₃, _ | ⟨mark, rest⟩⟩⟩⟩⟩
  case cons.cons.cons.cons.cons => exact ⟨b₀, b₁, b₂, b₃, mark, rest, rfl⟩
  all_goals
    simp only [List.length_cons, List.length_nil, headerSize] at h
    omega

/-- Bytes have a frame in front exactly if they begin with one of moderate
    length whose body opens at its place. -/
theorem takeFrame_eq_ok_iff {index : Nat} {bytes chunk rest : Bytes} {final : Bool} :
    takeFrame a key base index bytes = .ok (chunk, final, rest) ↔
      ∃ body, bytes = frame body final ++ rest ∧ OpensAt a key base index final body chunk := by
  constructor
  · intro h
    rw [takeFrame.eq_def] at h
    split at h
    · cases h
    · rename_i b₀ b₁ b₂ b₃ mark behind
      simp only at h
      split at h
      · cases h
      rename_i hflag
      split at h
      · cases h
      rename_i hlength
      split at h
      · cases h
      rename_i hfull
      split at h
      · cases h
      rename_i hopen
      cases h
      have hlen : (behind.take (Bytes.toNatBE [b₀, b₁, b₂, b₃])).length
          = Bytes.toNatBE [b₀, b₁, b₂, b₃] := List.length_take_of_le (Nat.le_of_not_lt hfull)
      have hdigits : Bytes.bigEndian 4 (Bytes.toNatBE [b₀, b₁, b₂, b₃]) = [b₀, b₁, b₂, b₃] :=
        Bytes.bigEndian_toNatBE [b₀, b₁, b₂, b₃]
      have hmark : (if (mark == 1) = true then (1 : UInt8) else 0) = mark := by
        by_cases h1 : mark = 1
        · rw [h1]
          rfl
        · rw [beq_false_of_ne h1, if_neg Bool.false_ne_true]
          by_contra h0
          exact hflag ⟨Ne.symm h0, h1⟩
      refine ⟨behind.take (Bytes.toNatBE [b₀, b₁, b₂, b₃]), ?_, ⟨?_, ?_, hopen⟩⟩
      · rw [frame_eq, hlen, hdigits, hmark, List.append_assoc, List.take_append_drop]
        rfl
      · rw [hlen]
        omega
      · rw [hlen]
        omega
    · cases h
  · rintro ⟨body, rfl, hlow, hhigh, hopen⟩
    have hfits : body.length < 256 ^ 4 :=
      Nat.lt_of_le_of_lt hhigh (by decide : largestChunk + tagLength < 256 ^ 4)
    have hnumber := Bytes.toNatBE_bigEndian 4 body.length hfits
    have hmark : ¬ ((if final then 1 else 0 : UInt8) ≠ 0 ∧
        (if final then 1 else 0 : UInt8) ≠ 1) := by
      cases final <;> decide
    have hfinal : ((if final then 1 else 0 : UInt8) == 1) = final := by
      cases final <;> decide
    obtain ⟨b₀, b₁, b₂, b₃, hdigits⟩ : ∃ b₀ b₁ b₂ b₃ : UInt8,
        Bytes.bigEndian 4 body.length = [b₀, b₁, b₂, b₃] := ⟨_, _, _, _, rfl⟩
    rw [hdigits] at hnumber
    rw [frame_eq, hdigits]
    show takeFrame a key base index
      (b₀ :: b₁ :: b₂ :: b₃ :: (if final then 1 else 0) :: (body ++ rest)) = _
    rw [takeFrame, hnumber, if_neg hmark, if_neg (by omega),
      if_neg (by rw [List.length_append]; omega), hfinal, List.take_left' rfl,
      List.drop_left' rfl, hopen]

/-- What is delivered of leading frames that open comes before what follows. -/
theorem unframe_of_opens {index : Nat} {bytes : Bytes} {chunks : List Bytes} {rest : Bytes}
    (e : Ending) (h : Opens a key base index bytes chunks false rest) :
    unframe a key base e index bytes
      = (chunks.flatten ++ (unframe a key base e (index + chunks.length) rest).1,
          (unframe a key base e (index + chunks.length) rest).2) := by
  generalize hfinal : false = final at h
  induction h with
  | nothing => rfl
  | final => cases hfinal
  | @more index body chunk bytes chunks final rest h later ih =>
      rw [unframe_more (takeFrame_eq_ok_iff.mpr ⟨body, rfl, h⟩), ih hfinal, List.flatten_cons,
        List.append_assoc, List.length_cons, Nat.add_comm chunks.length 1, Nat.add_assoc]

/-- Nothing is wrong with bytes exactly if they are frames that open, the last
    one and no other being final, and their stream ends cleanly; and then their
    chunks are delivered. -/
theorem unframe_eq_none_iff {e : Ending} {index : Nat} {bytes plain : Bytes} :
    unframe a key base e index bytes = (plain, none) ↔
      e = none ∧ ∃ chunks, Opens a key base index bytes chunks true [] ∧
        chunks.flatten = plain := by
  constructor
  · intro h
    induction hn : bytes.length using Nat.strongRecOn generalizing index bytes plain with
    | ind n ih =>
        subst hn
        rcases htake : takeFrame a key base index bytes with d | ⟨chunk, final, rest⟩
        · rw [unframe_deviation htake] at h
          cases h
        · obtain ⟨body, hbytes, hopens⟩ := takeFrame_eq_ok_iff.mp htake
          have hshorter := length_of_takeFrame a key base htake
          cases final with
          | true =>
              rw [unframe_final htake] at h
              obtain ⟨rfl, hend⟩ := Prod.mk.inj h
              by_cases hrest : rest = []
              · rw [if_pos hrest] at hend
                refine ⟨hend, [chunk], ?_, List.flatten_singleton⟩
                rw [hbytes, hrest]
                exact .final hopens
              · rw [if_neg hrest] at hend
                cases hend
          | false =>
              rw [unframe_more htake] at h
              obtain ⟨rfl, hend⟩ := Prod.mk.inj h
              obtain ⟨he, chunks, hlater, hflat⟩ := ih rest.length (by omega)
                (Prod.ext rfl hend) rfl
              refine ⟨he, chunk :: chunks, ?_, ?_⟩
              · rw [hbytes]
                exact .more hopens hlater
              · rw [List.flatten_cons, hflat]
  · rintro ⟨rfl, chunks, h, rfl⟩
    generalize hfinal : true = final at h
    generalize hrest : ([] : Bytes) = rest at h
    induction h with
    | nothing => cases hfinal
    | @final index body chunk rest h =>
        rw [unframe_final (takeFrame_eq_ok_iff.mpr ⟨body, rfl, h⟩), ← hrest, if_pos rfl,
          List.flatten_singleton]
    | @more index body chunk bytes chunks final rest h later ih =>
        rw [unframe_more (takeFrame_eq_ok_iff.mpr ⟨body, rfl, h⟩), ih hfinal hrest,
          List.flatten_cons]

/-! ## Frames of a stream -/

section

variable {σ : Type} [ByteReader σ] [ReaderView σ]

/-- What five bytes say as a header. -/
theorem headerFields_eq (b₀ b₁ b₂ b₃ mark : UInt8) (index : Nat) :
    headerFields [b₀, b₁, b₂, b₃, mark] index =
      if mark ≠ 0 ∧ mark ≠ 1 then .error (broken (Deviation.flag.reason index))
      else if Bytes.toNatBE [b₀, b₁, b₂, b₃] < tagLength ∨
          largestChunk + tagLength < Bytes.toNatBE [b₀, b₁, b₂, b₃] then
        .error (broken ((Deviation.length (Bytes.toNatBE [b₀, b₁, b₂, b₃])).reason index))
      else .ok (Bytes.toNatBE [b₀, b₁, b₂, b₃], mark == 1) := by
  have hlength : ∀ final : Bool,
      (if tagLength ≤ Bytes.toNatBE [b₀, b₁, b₂, b₃] ∧
          Bytes.toNatBE [b₀, b₁, b₂, b₃] ≤ largestChunk + tagLength then
        Except.ok (Bytes.toNatBE [b₀, b₁, b₂, b₃], final)
      else Except.error (inChunk ("invalid frame length " ++
        toString (Bytes.toNatBE [b₀, b₁, b₂, b₃])) index))
      = if Bytes.toNatBE [b₀, b₁, b₂, b₃] < tagLength ∨
          largestChunk + tagLength < Bytes.toNatBE [b₀, b₁, b₂, b₃] then
        .error (broken ((Deviation.length (Bytes.toNatBE [b₀, b₁, b₂, b₃])).reason index))
      else .ok (Bytes.toNatBE [b₀, b₁, b₂, b₃], final) := by
    intro final
    split
    · rename_i hin
      rw [if_neg (by omega)]
    · rename_i hout
      rw [if_pos (by omega)]
      rfl
  simp only [headerFields, bind, Except.bind, List.take, List.drop]
  by_cases h0 : mark = 0
  · subst h0
    exact hlength false
  · by_cases h1 : mark = 1
    · subst h1
      exact hlength true
    · rw [if_pos ⟨h0, h1⟩]
      split
      · rename_i heq
        cases heq
        exact absurd rfl h0
      · rename_i heq
        cases heq
        exact absurd rfl h1
      · rfl

variable (a key base) in
/-- The next frame of a stream is the one at the front of its bytes. -/
theorem next_eq (index : Nat) (s : σ) :
    (∃ chunk final s', next a key base index s = (.ok (chunk, final), s') ∧
      takeFrame a key base index (content s) = .ok (chunk, final, content s') ∧
      ReaderView.ending s' = ReaderView.ending s) ∨
    (∃ d s', next a key base index s = (.error (d.cause (ReaderView.ending s) index), s') ∧
      takeFrame a key base index (content s) = .error d) := by
  rcases readFilling_cases s headerSize with ⟨hroom, s₁, hread, hc₁, he₁⟩
    | ⟨hshort, hend, s₁, hread⟩ | ⟨hshort, s₁, e, hend, hread⟩
  · obtain ⟨b₀, b₁, b₂, b₃, mark, rest, hbytes⟩ := exists_header hroom
    rw [hbytes] at hread hc₁
    change readFilling s headerSize = (.ok [b₀, b₁, b₂, b₃, mark], s₁) at hread
    change content s₁ = rest at hc₁
    rw [hbytes, next_of_header hread rfl, headerFields_eq, takeFrame]
    generalize Bytes.toNatBE [b₀, b₁, b₂, b₃] = length
    by_cases hflag : mark ≠ 0 ∧ mark ≠ 1
    · rw [if_pos hflag, if_pos hflag]
      exact Or.inr ⟨.flag, s₁, rfl, rfl⟩
    rw [if_neg hflag, if_neg hflag]
    by_cases hlength : length < tagLength ∨ largestChunk + tagLength < length
    · rw [if_pos hlength, if_pos hlength]
      exact Or.inr ⟨.length length, s₁, rfl, rfl⟩
    rw [if_neg hlength, if_neg hlength]
    simp only
    rcases readFilling_cases s₁ length with ⟨hfull, s₂, hbody, hc₂, he₂⟩
      | ⟨hcut, hend, s₂, hbody⟩ | ⟨hcut, s₂, e, hend, hbody⟩
    · rw [hc₁] at hfull hbody hc₂
      have hlen : (rest.take length).length = length := List.length_take_of_le hfull
      rw [hbody, if_neg (Nat.not_lt.mpr hfull)]
      simp only
      rw [if_neg (not_not_intro hlen)]
      cases a.decrypt key (base.forChunk index) (Cipher.chunkBinding index (mark == 1))
          (rest.take length) with
      | none => exact Or.inr ⟨.authentication, s₂, rfl, rfl⟩
      | some chunk =>
          refine Or.inl ⟨chunk, mark == 1, s₂, rfl, ?_, he₂.trans he₁⟩
          rw [hc₂]
    · rw [hc₁] at hcut hbody
      refine Or.inr ⟨.body, s₂, ?_, if_pos hcut⟩
      rw [hbody]
      simp only
      rw [if_pos (Nat.ne_of_lt hcut), Deviation.cause_of_end rfl, ← he₁, hend]
      rfl
    · rw [hc₁] at hcut
      refine Or.inr ⟨.body, s₂, ?_, if_pos hcut⟩
      rw [hbody, Deviation.cause_of_end rfl, ← he₁, hend]
      rfl
  · refine Or.inr ⟨if content s = [] then .missing else .header, s₁, ?_, takeFrame_short hshort⟩
    rw [next, hread, hend]
    simp only
    by_cases hnil : content s = []
    · rw [if_pos hnil, if_pos hnil]
      rfl
    · rw [if_neg hnil, if_pos hshort, if_neg hnil]
      rfl
  · refine Or.inr ⟨if content s = [] then .missing else .header, s₁, ?_, takeFrame_short hshort⟩
    rw [next, hread, hend, Deviation.cause_of_end (by split <;> rfl)]
    rfl

/-- What comes after the final frame: the failure of the stream, or that there
    should be nothing. -/
theorem ending_eq (index : Nat) (s : σ) :
    ending s = ((if content s = [] then ReaderView.ending s
      else some (Deviation.trailing.cause (ReaderView.ending s) index)).map .failure).toList := by
  rw [ending]
  generalize hread : ByteReader.read s 1 = out
  obtain ⟨e | _ | ⟨b, bs⟩, s'⟩ := out
  case error =>
      obtain ⟨hc, he⟩ := read_failure Nat.one_pos hread
      rw [if_pos hc, he]
      rfl
  case ok.nil =>
      obtain ⟨hc, he, -⟩ := read_end Nat.one_pos hread
      rw [if_pos hc, he]
      rfl
  case ok.cons =>
      obtain ⟨hc, -⟩ := read_bytes Nat.one_pos (List.cons_ne_nil b bs) hread
      have hsome : content s ≠ [] := fun hnil => List.cons_ne_nil _ _ (hc.symm.trans hnil)
      rw [if_neg hsome]
      rfl

variable (a key base) in
/-- A stream is decrypted as its bytes are. -/
theorem decryptFrom_unframe (index : Nat) (s : σ) (done : List Message) :
    ∃ pieces : List Bytes,
      pieces.flatten = (unframe a key base (ReaderView.ending s) index (content s)).1 ∧
      decryptFrom a key base index s done = done.reverse ++ pieces.map .chunk ++
        ((unframe a key base (ReaderView.ending s) index (content s)).2.map .failure).toList := by
  -- in each case one frame is taken off, or none is there
  fun_induction decryptFrom a key base index s done with
  | case1 index s done e rest hnext =>
      rcases next_eq a key base index s with
        ⟨chunk, final, s', hnext', -⟩ | ⟨d, s', hnext', htake⟩
      · cases hnext.symm.trans hnext'
      · cases hnext.symm.trans hnext'
        refine ⟨[], ?_, ?_⟩
        · rw [unframe_deviation htake]
          rfl
        · rw [unframe_deviation htake, List.reverse_cons, List.map_nil, List.append_nil]
          rfl
  | case2 index s done chunk rest hnext =>
      rcases next_eq a key base index s with
        ⟨chunk', final, s', hnext', htake, he⟩ | ⟨d, s', hnext', -⟩
      · cases hnext.symm.trans hnext'
        obtain ⟨pieces, hpieces, hcons⟩ := consChunk_reverse chunk done
        refine ⟨pieces, ?_, ?_⟩
        · rw [unframe_final htake, hpieces]
        · rw [unframe_final htake, hcons, ending_eq index rest, he]
      · cases hnext.symm.trans hnext'
  | case3 index s done chunk final rest hnext hfinal ih =>
      rcases next_eq a key base index s with
        ⟨chunk', final', s', hnext', htake, he⟩ | ⟨d, s', hnext', -⟩
      · cases hnext.symm.trans hnext'
        rw [Bool.eq_false_iff.mpr hfinal] at htake
        obtain ⟨first, hfirst, hcons⟩ := consChunk_reverse chunk done
        obtain ⟨pieces, hpieces, hrest⟩ := ih
        rw [he] at hpieces hrest
        refine ⟨first ++ pieces, ?_, ?_⟩
        · rw [unframe_more htake, List.flatten_append, hfirst, hpieces]
        · rw [unframe_more htake, hrest, hcons, List.map_append, List.append_assoc done.reverse]
      · cases hnext.symm.trans hnext'

variable (a key base) in
/-- Reads of a stream that is decrypted give what its bytes decrypt to. -/
theorem gives_unframe (s : σ) :
    (decrypt a key base s).Gives (unframe a key base (ReaderView.ending s) 0 (content s)).1
      (unframe a key base (ReaderView.ending s) 0 (content s)).2 := by
  obtain ⟨pieces, hpieces, hgiven⟩ := decryptFrom_unframe a key base 0 s []
  rw [List.reverse_nil, List.nil_append] at hgiven
  generalize unframe a key base (ReaderView.ending s) 0 (content s) = d at hpieces hgiven ⊢
  have hcontent : content (decrypt a key base s) = d.1 := by
    rw [decrypt, Relay.content_fresh, hgiven, Outlet.chunkBytes_chunks, ← hpieces]
    cases d.2 <;> exact List.append_nil _
  have hending : ReaderView.ending (decrypt a key base s) = d.2 := by
    rw [decrypt, Relay.ending_fresh, hgiven, Outlet.failure?_chunks]
    cases d.2 <;> rfl
  have hgives := (decrypt a key base s).gives
  rw [hcontent, hending] at hgives
  exact hgives

variable (a key base) in
/-- The stream behind a number of frames that are not final, if there are that
    many; the first of them is at this index. -/
def behind : Nat → Nat → σ → Option σ
  | 0, _, s => some s
  | k + 1, index, s =>
    match next a key base index s with
    | (.ok (_, false), s') => behind k (index + 1) s'
    | _ => none

/-- A frame that opens takes 21 bytes or more off a stream. -/
theorem length_next {index : Nat} {s s' : σ} {r : Bytes × Bool}
    (h : next a key base index s = (.ok r, s')) :
    (content s').length + 21 ≤ (content s).length := by
  rcases next_eq a key base index s with
    ⟨chunk, final, s₁, hnext, htake, -⟩ | ⟨d, s₁, hnext, -⟩
  · cases h.symm.trans hnext
    exact length_of_takeFrame a key base htake
  · cases h.symm.trans hnext

theorem length_behind {k index : Nat} {s s' : σ} (h : behind a key base k index s = some s') :
    (content s').length + 21 * k ≤ (content s).length := by
  induction k generalizing index s with
  | zero =>
      cases h
      exact Nat.le_refl _
  | succ k ih =>
      rw [behind] at h
      split at h
      · rename_i chunk s₁ hnext
        have hfirst := length_next hnext
        have hlater := ih h
        omega
      · cases h

/-- For every stream, by whatever reads its bytes come and however it ends:

    * Decryption delivers what its bytes decrypt to, and ends as they do.
    * The end is clean exactly if the stream ends cleanly and its bytes are
      frames of moderate length that open at their places, the last one and no
      other being final; and then all their chunks have been delivered.
    * Each frame takes 21 bytes or more off the stream, so there is an end. -/
theorem decrypted_by_grammar (a : Aead) (key : Key) (base : Nonce) (s : σ) :
    let d := unframe a key base (ReaderView.ending s) 0 (content s)
    (decrypt a key base s).Gives d.1 d.2 ∧
    (d.2 = none ↔ ReaderView.ending s = none ∧
      ∃ chunks, Opens a key base 0 (content s) chunks true [] ∧ chunks.flatten = d.1) ∧
    ∀ k s', behind a key base k 0 s = some s' →
      (content s').length + 21 * k ≤ (content s).length ∧
      ∀ r s'', next a key base k s' = (.ok r, s'') →
        (content s'').length + 21 ≤ (content s').length := by
  intro d
  refine ⟨gives_unframe a key base s, ?_,
    fun k s' hbehind => ⟨length_behind hbehind, fun r s'' => length_next⟩⟩
  rw [← unframe_eq_none_iff]
  exact ⟨fun h => Prod.ext rfl h, fun h => congrArg Prod.snd h⟩

end

end Frames

end ContentVault
