import ContentVault.Stream.Channel
import ContentVault.Stream.Digesting

/-! # What a reader has still to give

    A reader may hand out its bytes in portions of any size.  `ReaderView` is
    the part of a reader that no portions can change: the bytes still to come
    and how the stream ends.  Filling a buffer (`fill_cases`), reading to the
    end (`readToEnd_eq`) and digesting (`DigestTap.drain_eq`) are determined
    by these two, so whatever is said about streams can be said about byte
    strings. -/

namespace ContentVault

open ByteReader

/-- The bytes that a reader has still to give, and how it ends. -/
class ReaderView (σ : Type) [ByteReader σ] where
  content : σ → Bytes
  ending : σ → Ending
  read_bytes : ∀ {s s' : σ} {room : Nat} {bytes : Bytes}, 0 < room → bytes ≠ [] →
    read s room = (.ok bytes, s') → content s = bytes ++ content s' ∧ ending s' = ending s
  read_end : ∀ {s s' : σ} {room : Nat}, 0 < room → read s room = (.ok [], s') →
    content s = [] ∧ ending s = none ∧ content s' = [] ∧ ending s' = none
  read_failure : ∀ {s s' : σ} {room : Nat} {e : IoError}, 0 < room →
    read s room = (.error e, s') → content s = [] ∧ ending s = some e

namespace ReaderView

variable {σ : Type} [ByteReader σ] [ReaderView σ]

/-! ## Filling a buffer and reading to the end -/

/-- All that filling a buffer can come to. -/
theorem fill_cases (s : σ) (room : Nat) (done : List Bytes) :
    (∃ s', room ≤ (content s).length ∧
      fill s room done = (.ok (done.reverse.flatten ++ (content s).take room), s') ∧
      content s' = (content s).drop room ∧ ending s' = ending s) ∨
    (∃ s', (content s).length < room ∧ ending s = none ∧
      fill s room done = (.ok (done.reverse.flatten ++ content s), s') ∧
      content s' = [] ∧ ending s' = none) ∨
    (∃ s' e, (content s).length < room ∧ ending s = some e ∧
      fill s room done = (.error e, s')) := by
  fun_induction fill s room done with
  | case1 s done =>
      -- the buffer is full
      refine Or.inl ⟨s, Nat.zero_le _, ?_, by simp, rfl⟩
      simp
  | case2 s room done hroom e s' hread =>
      obtain ⟨hc, he⟩ := read_failure (Nat.pos_of_ne_zero hroom) hread
      refine Or.inr (Or.inr ⟨s', e, ?_, he, rfl⟩)
      rw [hc]
      exact Nat.pos_of_ne_zero hroom
  | case3 s room done hroom s' hread =>
      obtain ⟨hc, he, hc', he'⟩ := read_end (Nat.pos_of_ne_zero hroom) hread
      refine Or.inr (Or.inl ⟨s', ?_, he, ?_, hc', he'⟩)
      · rw [hc]
        exact Nat.pos_of_ne_zero hroom
      · rw [hc, List.append_nil]
  | case4 s room done hroom bytes s' hread hne ih =>
      -- the rest of the buffer is filled from what comes after these bytes
      obtain ⟨hc, he⟩ := read_bytes (Nat.pos_of_ne_zero hroom) hne hread
      have hfit := length_read hread
      have hdone : ∀ rest : Bytes, (bytes :: done).reverse.flatten ++ rest
          = done.reverse.flatten ++ (bytes ++ rest) := by
        intro rest
        simp
      rw [hc, ← he]
      rcases ih with ⟨t, hle, hfill, hct, het⟩ | ⟨t, hlt, hend, hfill, hct, het⟩
        | ⟨t, e, hlt, hend, hfill⟩
      · refine Or.inl ⟨t, ?_, ?_, ?_, het⟩
        · rw [List.length_append]
          omega
        · rw [hfill, hdone, List.take_append, List.take_of_length_le hfit]
        · rw [hct, List.drop_append, List.drop_of_length_le hfit, List.nil_append]
      · refine Or.inr (Or.inl ⟨t, ?_, hend, ?_, hct, het⟩)
        · rw [List.length_append]
          omega
        · rw [hfill, hdone]
      · refine Or.inr (Or.inr ⟨t, e, ?_, hend, hfill⟩)
        rw [List.length_append]
        omega

/-- All that reading into an empty buffer can come to. -/
theorem readFilling_cases (s : σ) (room : Nat) :
    (room ≤ (content s).length ∧ ∃ s', readFilling s room = (.ok ((content s).take room), s') ∧
      content s' = (content s).drop room ∧ ending s' = ending s) ∨
    ((content s).length < room ∧ ending s = none ∧
      ∃ s', readFilling s room = (.ok (content s), s')) ∨
    ((content s).length < room ∧ ∃ s' e, ending s = some e ∧
      readFilling s room = (.error e, s')) := by
  rcases fill_cases s room [] with ⟨t, hle, hfill, hc, he⟩ | ⟨t, hlt, he, hfill, -⟩
    | ⟨t, e, hlt, he, hfill⟩
  · exact Or.inl ⟨hle, t, hfill, hc, he⟩
  · exact Or.inr (Or.inl ⟨hlt, he, t, hfill⟩)
  · exact Or.inr (Or.inr ⟨hlt, t, e, he, hfill⟩)

/-- A buffer that the stream fills. -/
theorem readFilling_full {s : σ} {room : Nat} (h : room ≤ (content s).length) :
    ∃ s', readFilling s room = (.ok ((content s).take room), s') ∧
      content s' = (content s).drop room ∧ ending s' = ending s := by
  rcases readFilling_cases s room with ⟨-, hfill⟩ | ⟨hlt, -⟩ | ⟨hlt, -⟩
  · exact hfill
  · exact absurd h (Nat.not_le.mpr hlt)
  · exact absurd h (Nat.not_le.mpr hlt)

/-- Reading to the end collects all that is still to come. -/
theorem drain_eq (s : σ) {room : Nat} (hroom : 0 < room) (done : List Bytes) :
    (drain s room done).1.reverse.flatten = done.reverse.flatten ++ content s ∧
      (drain s room done).2.1 = ending s := by
  fun_induction drain s room done with
  | case1 s done e s' hread =>
      obtain ⟨hc, he⟩ := read_failure hroom hread
      exact ⟨by rw [hc, List.append_nil], he.symm⟩
  | case2 s done s' hread =>
      obtain ⟨hc, he, -⟩ := read_end hroom hread
      exact ⟨by rw [hc, List.append_nil], he.symm⟩
  | case3 s done bytes s' hread hne ih =>
      obtain ⟨hc, he⟩ := read_bytes hroom hne hread
      refine ⟨?_, ih.2.trans he⟩
      rw [ih.1, hc]
      simp

/-- The size of the reads does not matter to who reads to the end. -/
theorem readToEnd_eq (s : σ) {room : Nat} (hroom : 0 < room) :
    readToEnd s room = (content s, ending s) := by
  have h := drain_eq s hroom []
  simp only [List.reverse_nil, List.flatten_nil, List.nil_append] at h
  exact Prod.ext h.1 h.2

end ReaderView

/-! ## Streams from outside -/

namespace Source

/-- All that a read of a stream from outside can come to. -/
theorem read_cases (s : Source) {room : Nat} (hroom : 0 < room) :
    (∃ bs t, s.read room = (.ok bs, t) ∧ bs ≠ [] ∧ s.data = bs ++ t.data ∧
      t.failure = s.failure) ∨
    (s.read room = (.ok [], s) ∧ s.data = [] ∧ s.failure = none) ∨
    (∃ e, s.read room = (.error e, s) ∧ s.data = [] ∧ s.failure = some e) := by
  unfold read
  rw [if_neg (Nat.ne_of_gt hroom)]
  by_cases hdata : s.data = []
  · rw [if_pos hdata]
    cases hfailure : s.failure with
    | none => exact Or.inr (Or.inl ⟨rfl, hdata, rfl⟩)
    | some e => exact Or.inr (Or.inr ⟨e, rfl, hdata, rfl⟩)
  · rw [if_neg hdata]
    refine Or.inl ⟨_, _, rfl, fun htake => ?_, (List.take_append_drop _ _).symm, rfl⟩
    rcases List.take_eq_nil_iff.mp htake with hzero | hnil
    · exact absurd hzero (Nat.ne_of_gt (s.limit_pos hroom))
    · exact hdata hnil

theorem data_of_read {s t : Source} {room : Nat} {bytes : Bytes} (hroom : 0 < room)
    (hne : bytes ≠ []) (h : s.read room = (.ok bytes, t)) :
    s.data = bytes ++ t.data ∧ t.failure = s.failure := by
  rcases s.read_cases hroom with ⟨bs, u, hread, -, hdata, hfailure⟩ | ⟨hread, -⟩ | ⟨e, hread, -⟩
  · cases hread.symm.trans h
    exact ⟨hdata, hfailure⟩
  · cases hread.symm.trans h
    exact absurd rfl hne
  · cases hread.symm.trans h

theorem data_of_read_nil {s t : Source} {room : Nat} (hroom : 0 < room)
    (h : s.read room = (.ok [], t)) :
    s.data = [] ∧ s.failure = none ∧ t.data = [] ∧ t.failure = none := by
  rcases s.read_cases hroom with ⟨bs, u, hread, hne, -⟩ | ⟨hread, hdata, hfailure⟩ | ⟨e, hread, -⟩
  · cases hread.symm.trans h
    exact absurd rfl hne
  · cases hread.symm.trans h
    exact ⟨hdata, hfailure, hdata, hfailure⟩
  · cases hread.symm.trans h

theorem data_of_read_error {s t : Source} {room : Nat} {e : IoError} (hroom : 0 < room)
    (h : s.read room = (.error e, t)) : s.data = [] ∧ s.failure = some e := by
  rcases s.read_cases hroom with ⟨bs, u, hread, -⟩ | ⟨hread, -⟩ | ⟨e', hread, hdata, hfailure⟩
  · cases hread.symm.trans h
  · cases hread.symm.trans h
  · cases hread.symm.trans h
    exact ⟨hdata, hfailure⟩

instance : ReaderView Source where
  content := Source.data
  ending := Source.failure
  read_bytes := data_of_read
  read_end := data_of_read_nil
  read_failure := data_of_read_error

@[simp] theorem content_eq (s : Source) : ReaderView.content s = s.data := rfl

@[simp] theorem ending_eq (s : Source) : ReaderView.ending s = s.failure := rfl

end Source

/-! ## Channels whose sender is done -/

namespace Outlet

/-- The first failure among messages. -/
def failure? : List Message → Ending
  | [] => none
  | .failure e :: _ => some e
  | .chunk _ :: messages => failure? messages

/-- How a reader ends, when these messages wait for it and no more will come. -/
def ends (r : Outlet) (queue : List Message) : Ending :=
  match r.state with
  | .active => failure? queue
  | .ended => none
  | .failed => some .alreadyFailed

/-- What a read of messages to the last one can come to. -/
theorem receive_cases (room : Nat) (queue : List Message) :
    (∃ b bs rest, receive true false room queue
        = (some (.ok ((b :: bs).take room)), ⟨(b :: bs).drop room, .active⟩, rest) ∧
      chunkBytes queue = b :: bs ++ chunkBytes rest ∧ failure? rest = failure? queue) ∨
    (receive true false room queue = (some (.ok []), ⟨[], .ended⟩, []) ∧
      chunkBytes queue = [] ∧ failure? queue = none) ∨
    (∃ e rest, receive true false room queue = (some (.error e), ⟨[], .failed⟩, rest) ∧
      chunkBytes queue = [] ∧ failure? queue = some e) := by
  induction queue with
  | nil => exact Or.inr (Or.inl ⟨rfl, rfl, rfl⟩)
  | cons m queue ih =>
      match m with
      | .failure e => exact Or.inr (Or.inr ⟨e, queue, rfl, rfl, rfl⟩)
      | .chunk [] => exact ih
      | .chunk (b :: bs) => exact Or.inl ⟨b, bs, queue, rfl, rfl, rfl⟩

end Outlet

namespace Relay

/-- What a read can come to: bytes that were to come, the end, or the failure.
    The reader knows once it has seen one of the last two. -/
theorem read_cases (r : Relay) (room : Nat) :
    (∃ bytes r', r.read room = (.ok bytes, r') ∧ (0 < room → bytes ≠ []) ∧
      r.reader.toCome r.messages = bytes ++ r'.reader.toCome r'.messages ∧
      r'.reader.ends r'.messages = r.reader.ends r.messages) ∨
    (∃ messages, r.read room = (.ok [], ⟨messages, ⟨[], .ended⟩⟩) ∧
      r.reader.toCome r.messages = [] ∧ r.reader.ends r.messages = none) ∨
    (∃ e messages, r.read room = (.error e, ⟨messages, ⟨[], .failed⟩⟩) ∧
      r.reader.toCome r.messages = [] ∧ r.reader.ends r.messages = some e) := by
  obtain ⟨messages, pending, state⟩ := r
  have some_taken : ∀ b (bs : Bytes), 0 < room → (b :: bs).take room ≠ [] := by
    intro b bs hroom hnil
    rcases List.take_eq_nil_iff.mp hnil with h0 | h0
    · omega
    · cases h0
  cases pending with
  | cons b bs =>
      refine Or.inl ⟨(b :: bs).take room, ⟨messages, ⟨(b :: bs).drop room, state⟩⟩,
        rfl, some_taken b bs, ?_, rfl⟩
      show b :: bs ++ _ = (b :: bs).take room ++ ((b :: bs).drop room ++ _)
      rw [← List.append_assoc, List.take_append_drop]
  | nil =>
      cases state with
      | ended => exact Or.inr (Or.inl ⟨messages, rfl, rfl, rfl⟩)
      | failed => exact Or.inr (Or.inr ⟨.alreadyFailed, messages, rfl, rfl, rfl⟩)
      | active =>
          have hread : Relay.read ⟨messages, ⟨[], .active⟩⟩ room
              = ((Outlet.receive true false room messages).1.getD (.ok []),
                ⟨(Outlet.receive true false room messages).2.2,
                  (Outlet.receive true false room messages).2.1⟩) := rfl
          rcases Outlet.receive_cases room messages with ⟨b, bs, rest, hrec, hbytes, hfail⟩
            | ⟨hrec, hbytes, hfail⟩ | ⟨e, rest, hrec, hbytes, hfail⟩
          · refine Or.inl ⟨(b :: bs).take room, ⟨rest, ⟨(b :: bs).drop room, .active⟩⟩,
              by rw [hread, hrec]; rfl, some_taken b bs, ?_, hfail⟩
            show Outlet.chunkBytes messages = (b :: bs).take room ++ ((b :: bs).drop room ++ _)
            rw [← List.append_assoc, List.take_append_drop]
            exact hbytes
          · exact Or.inr (Or.inl ⟨[], by rw [hread, hrec]; rfl, hbytes, hfail⟩)
          · exact Or.inr (Or.inr ⟨e, rest, by rw [hread, hrec]; rfl, hbytes, hfail⟩)

instance : ReaderView Relay where
  content r := r.reader.toCome r.messages
  ending r := r.reader.ends r.messages
  read_bytes {r r' room bytes} hroom hne h := by
    change r.read room = _ at h
    rcases r.read_cases room with ⟨bs, t, hread, -, hc, he⟩ | ⟨queue, hread, -⟩ | ⟨e, queue, hread, -⟩
    · cases hread.symm.trans h
      exact ⟨hc, he⟩
    · cases hread.symm.trans h
      exact absurd rfl hne
    · cases hread.symm.trans h
  read_end {r r' room} hroom h := by
    change r.read room = _ at h
    rcases r.read_cases room with ⟨bs, t, hread, hne, -⟩ | ⟨queue, hread, hc, he⟩
      | ⟨e, queue, hread, -⟩
    · cases hread.symm.trans h
      exact absurd rfl (hne hroom)
    · cases hread.symm.trans h
      exact ⟨hc, he, rfl, rfl⟩
    · cases hread.symm.trans h
  read_failure {r r' room e} hroom h := by
    change r.read room = _ at h
    rcases r.read_cases room with ⟨bs, t, hread, -⟩ | ⟨queue, hread, -⟩ | ⟨e', queue, hread, hc, he⟩
    · cases hread.symm.trans h
    · cases hread.symm.trans h
    · cases hread.symm.trans h
      exact ⟨hc, he⟩

/-- A relay that nobody has read from gives its chunks up to the first failure. -/
@[simp] theorem content_fresh (messages : List Message) :
    ReaderView.content (σ := Relay) { messages } = Outlet.chunkBytes messages := rfl

@[simp] theorem ending_fresh (messages : List Message) :
    ReaderView.ending (σ := Relay) { messages } = Outlet.failure? messages := rfl

end Relay

/-! ## Digests -/

namespace DigestTap

variable {σ : Type} [ByteReader σ] [ReaderView σ]

omit [ReaderView σ] in
/-- All that a read can come to, by what the inner reader gives. -/
theorem read_cases (d : DigestTap σ) (room : Nat) :
    (∃ e inner, ByteReader.read d.inner room = (.error e, inner) ∧
      ByteReader.read d room = (.error e, { d with inner })) ∨
    (∃ inner, ByteReader.read d.inner room = (.ok [], inner) ∧
      ByteReader.read d room
        = (.ok [], { d with inner, drained := d.drained || room != 0 })) ∨
    (∃ bytes inner, bytes ≠ [] ∧ ByteReader.read d.inner room = (.ok bytes, inner) ∧
      ByteReader.read d room = (.ok bytes, { d with
        inner, digested := bytes :: d.digested, passed := d.passed + bytes.length })) := by
  change _ ∨ (∃ inner, _ ∧ DigestTap.read d room = _) ∨ (∃ bytes inner, _ ∧ _ ∧
    DigestTap.read d room = _)
  unfold DigestTap.read
  rcases hread : ByteReader.read d.inner room with ⟨result, inner⟩
  cases result with
  | error e =>
      refine Or.inl ⟨e, inner, rfl, ?_⟩
      show DigestTap.read d room = _
      rw [DigestTap.read, hread]
  | ok bytes =>
      refine Or.inr ?_
      by_cases hnil : bytes = []
      · subst hnil
        exact Or.inl ⟨inner, rfl, rfl⟩
      · exact Or.inr ⟨bytes, inner, hnil, rfl, if_neg hnil⟩

/-- Everything that is read to the end goes into the digest, and the end is
    noticed if there is one. -/
theorem drain_taps (d : DigestTap σ) {room : Nat} (hroom : 0 < room) (done : List Bytes) :
    (ByteReader.drain d room done).2.1 = ReaderView.ending d.inner ∧
      (ByteReader.drain d room done).2.2.algorithm = d.algorithm ∧
      (ReaderView.ending d.inner = none →
        (ByteReader.drain d room done).2.2.drained = true ∧
        (ByteReader.drain d room done).2.2.digested.reverse.flatten
          = d.digested.reverse.flatten ++ ReaderView.content d.inner) := by
  fun_induction ByteReader.drain d room done with
  | case1 d done e d' hread =>
      rcases d.read_cases room with ⟨e', inner, hinner, htap⟩ | ⟨inner, -, htap⟩
        | ⟨bytes, inner, -, -, htap⟩
      · cases htap.symm.trans hread
        obtain ⟨-, he⟩ := ReaderView.read_failure hroom hinner
        exact ⟨he.symm, rfl, fun hnone => absurd (he.symm.trans hnone) (Option.some_ne_none _)⟩
      · cases htap.symm.trans hread
      · cases htap.symm.trans hread
  | case2 d done d' hread =>
      rcases d.read_cases room with ⟨e', inner, -, htap⟩ | ⟨inner, hinner, htap⟩
        | ⟨bytes, inner, hne, -, htap⟩
      · cases htap.symm.trans hread
      · cases htap.symm.trans hread
        obtain ⟨hc, he, -⟩ := ReaderView.read_end hroom hinner
        refine ⟨he.symm, rfl, fun _ => ⟨?_, ?_⟩⟩
        · -- there was room, so no bytes are the end
          show (d.drained || room != 0) = true
          rw [bne_iff_ne.mpr (Nat.ne_of_gt hroom), Bool.or_true]
        · rw [hc, List.append_nil]
      · cases htap.symm.trans hread
        exact absurd rfl hne
  | case3 d done bytes d' hread hne ih =>
      rcases d.read_cases room with ⟨e', inner, -, htap⟩ | ⟨inner, -, htap⟩
        | ⟨bytes', inner, -, hinner, htap⟩
      · cases htap.symm.trans hread
      · cases htap.symm.trans hread
        exact absurd rfl hne
      · cases htap.symm.trans hread
        obtain ⟨hc, he⟩ := ReaderView.read_bytes hroom hne hinner
        obtain ⟨hend, hsame, hdigested⟩ := ih
        refine ⟨hend.trans he, hsame, fun hnone => ?_⟩
        obtain ⟨hdrained, hbytes⟩ := hdigested (he.trans hnone)
        refine ⟨hdrained, ?_⟩
        rw [hbytes, hc]
        simp

/-- The digest of a stream is that of its bytes, or its failure. -/
theorem drain_eq (s : σ) (a : DigestAlgorithm) :
    DigestTap.drain { inner := s, algorithm := a }
      = match ReaderView.ending s with
        | none => .ok (Fingerprint.ofBytes a (ReaderView.content s))
        | some e => .error (.ofIo e) := by
  have hroom : 0 < copyBuffer := by decide
  have h := drain_taps (σ := σ) { inner := s, algorithm := a } hroom []
  unfold DigestTap.drain
  generalize ByteReader.drain (σ := DigestTap σ) { inner := s, algorithm := a } copyBuffer []
    = out at h
  obtain ⟨chunks, ending, d⟩ := out
  obtain ⟨h1, h2, h3⟩ := h
  change ending = ReaderView.ending s at h1
  subst h1
  cases he : ReaderView.ending s with
  | some e => rfl
  | none =>
      obtain ⟨h4, h5⟩ := h3 he
      simp only [List.reverse_nil, List.flatten_nil, List.nil_append] at h2 h4 h5
      simp only [finish, h4, if_true, h5, h2]

end DigestTap

end ContentVault
