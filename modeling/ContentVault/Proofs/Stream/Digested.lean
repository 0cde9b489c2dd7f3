import ContentVault.Proofs.Stream.Books

/-! # What a digesting stream has seen

    A digesting stream passes on what its inner reader gives, and keeps books of
    it: the digest so far, the number of bytes, and whether the end was seen.
    The reader within may be of any kind.  It may fail now and then and go on,
    give more after its end, or never end.  `readBy` is a read over such a
    reader, which is given by what its next read comes to.

    A read keeps the books right (`Tapped.read`), whatever came before it.
    Main statement: `digests_what_it_returned`. -/

namespace ContentVault

open ByteReader Outlet Reception

/-! ## Readers of any kind -/

section Readers

variable {σ : Type} (next : σ → Nat → ReadResult × σ)

/-- What reads with these rooms come to, one after the other. -/
def readsOf : σ → List Nat → List (Nat × ReadResult)
  | _, [] => []
  | s, room :: rooms => (room, (next s room).1) :: readsOf (next s room).2 rooms

/-- The reader that reads with these rooms leave. -/
def afterReads (s : σ) (rooms : List Nat) : σ := rooms.foldl (fun s room => (next s room).2) s

end Readers

namespace Reception

/-- The pieces that reads gave, one for each read that gave something. -/
def piecesOf (reads : List (Nat × ReadResult)) : List Bytes :=
  (reads.map fun r => given (some r.2)).filter (· ≠ [])

theorem flatten_piecesOf (reads : List (Nat × ReadResult)) :
    (piecesOf reads).flatten = bytesOf reads := List.flatten_filter_ne_nil

/-- A read that gives nothing adds no piece. -/
theorem piecesOf_snoc_nothing (reads : List (Nat × ReadResult)) {room : Nat} {result : ReadResult}
    (h : given (some result) = []) : piecesOf (reads ++ [(room, result)]) = piecesOf reads := by
  rw [piecesOf, List.map_append, List.filter_append, List.map_singleton, h]
  exact List.append_nil _

theorem piecesOf_snoc_bytes (reads : List (Nat × ReadResult)) (room : Nat) {bytes : Bytes}
    (h : bytes ≠ []) : piecesOf (reads ++ [(room, .ok bytes)]) = piecesOf reads ++ [bytes] := by
  rw [piecesOf, List.map_append, List.filter_append, List.map_singleton]
  exact congrArg (piecesOf reads ++ ·) (List.filter_cons_of_pos (decide_eq_true h))

end Reception

/-! ## Reading to the end, step by step -/

namespace ByteReader

variable {σ : Type} [ByteReader σ] {s s' : σ} {room : Nat}

theorem drain_of_failure {e : IoError} (h : read s room = (.error e, s')) (done : List Bytes) :
    drain s room done = (done, some e, s') := by
  rw [drain]
  split
  · rename_i hread
    cases hread.symm.trans h
    rfl
  · rename_i hread
    cases hread.symm.trans h

theorem drain_of_end (h : read s room = (.ok [], s')) (done : List Bytes) :
    drain s room done = (done, none, s') := by
  rw [drain]
  split
  · rename_i hread
    cases hread.symm.trans h
  · rename_i hread
    cases hread.symm.trans h
    rfl

theorem drain_of_bytes {bytes : Bytes} (hne : bytes ≠ []) (h : read s room = (.ok bytes, s'))
    (done : List Bytes) : drain s room done = drain s' room (bytes :: done) := by
  rw [drain]
  split
  · rename_i hread
    cases hread.symm.trans h
  · rename_i hread
    cases hread.symm.trans h
    rw [dif_neg hne]

end ByteReader

namespace DigestTap

/-! ## One read -/

section Transparent

variable {σ : Type} (next : σ → Nat → ReadResult × σ)

/-- A read of a digesting stream over a reader of any kind. -/
def readBy (d : DigestTap σ) (room : Nat) : ReadResult × DigestTap σ :=
  match next d.inner room with
  | (.error e, inner) => (.error e, { d with inner })
  | (.ok bytes, inner) =>
    if bytes = [] then (.ok [], { d with inner, drained := d.drained || room != 0 })
    else (.ok bytes, { d with inner, digested := bytes :: d.digested, passed := d.passed + bytes.length })

variable {next} {d : DigestTap σ} {room : Nat} {inner : σ}

theorem readBy_of_failure {e : IoError} (h : next d.inner room = (.error e, inner)) :
    readBy next d room = (.error e, { d with inner }) := by
  rw [readBy, h]

theorem readBy_of_nothing (h : next d.inner room = (.ok [], inner)) :
    readBy next d room = (.ok [], { d with inner, drained := d.drained || room != 0 }) := by
  rw [readBy, h]
  rfl

theorem readBy_of_bytes {bytes : Bytes} (hne : bytes ≠ [])
    (h : next d.inner room = (.ok bytes, inner)) :
    readBy next d room = (.ok bytes, { d with
      inner, digested := bytes :: d.digested, passed := d.passed + bytes.length }) := by
  rw [readBy, h]
  exact if_neg hne

variable (next)

/-- The answer and the inner reader are as if nobody had listened. -/
theorem readBy_transparent (d : DigestTap σ) (room : Nat) :
    (readBy next d room).1 = (next d.inner room).1 ∧
      (readBy next d room).2.inner = (next d.inner room).2 := by
  rcases h : next d.inner room with ⟨result, inner⟩
  cases result with
  | error e =>
      rw [readBy_of_failure h]
      exact ⟨rfl, rfl⟩
  | ok bytes =>
      by_cases hnil : bytes = []
      · subst hnil
        rw [readBy_of_nothing h]
        exact ⟨rfl, rfl⟩
      · rw [readBy_of_bytes hnil h]
        exact ⟨rfl, rfl⟩

theorem readsOf_transparent (d : DigestTap σ) (rooms : List Nat) :
    readsOf (readBy next) d rooms = readsOf next d.inner rooms := by
  induction rooms generalizing d with
  | nil => rfl
  | cons room rooms ih =>
      obtain ⟨hanswer, hinner⟩ := readBy_transparent next d room
      rw [readsOf, readsOf, hanswer, ih, hinner]

theorem afterReads_transparent (d : DigestTap σ) (rooms : List Nat) :
    (afterReads (readBy next) d rooms).inner = afterReads next d.inner rooms := by
  induction rooms generalizing d with
  | nil => rfl
  | cons room rooms ih =>
      calc (afterReads (readBy next) d (room :: rooms)).inner
          = (afterReads (readBy next) (readBy next d room).2 rooms).inner := rfl
        _ = afterReads next (next d.inner room).2 rooms := by
            rw [ih, (readBy_transparent next d room).2]

end Transparent

/-! ## The books -/

/-- The books of a digesting stream are right: what they say of the reads that
    it has passed on. -/
structure Tapped {σ : Type} (a : DigestAlgorithm) (reads : List (Nat × ReadResult))
    (d : DigestTap σ) : Prop where
  algorithm : d.algorithm = a
  digested : d.digested.reverse = piecesOf reads
  passed : d.passed = (bytesOf reads).length
  drained : d.drained = true ↔ ∃ room, room ≠ 0 ∧ (room, .ok []) ∈ reads

namespace Tapped

variable {σ : Type} {a : DigestAlgorithm} {reads : List (Nat × ReadResult)} {d : DigestTap σ}

theorem fresh (a : DigestAlgorithm) (s : σ) : Tapped a [] { inner := s, algorithm := a } where
  algorithm := rfl
  digested := rfl
  passed := rfl
  drained := ⟨nofun, fun ⟨_, _, hmem⟩ => absurd hmem List.not_mem_nil⟩

/-- A read that is not the end leaves open whether the end was seen. -/
theorem drained_snoc (h : Tapped a reads d) {room : Nat} {result : ReadResult}
    (hne : room ≠ 0 → result ≠ .ok []) :
    d.drained = true ↔ ∃ r, r ≠ 0 ∧ (r, .ok []) ∈ reads ++ [(room, result)] := by
  rw [h.drained]
  constructor
  · rintro ⟨r, hroom, hmem⟩
    exact ⟨r, hroom, List.mem_append_left _ hmem⟩
  · rintro ⟨r, hroom, hmem⟩
    rcases List.mem_append.mp hmem with hmem | hlast
    · exact ⟨r, hroom, hmem⟩
    · cases List.mem_singleton.mp hlast
      exact absurd rfl (hne hroom)

/-- A read that gives nothing leaves the books as they are, but that it may be
    the end. -/
theorem of_nothing (h : Tapped a reads d) {room : Nat} {result : ReadResult}
    (hnothing : given (some result) = []) {inner : σ} {drained : Bool}
    (hdrained : drained = true ↔ ∃ r, r ≠ 0 ∧ (r, .ok []) ∈ reads ++ [(room, result)]) :
    Tapped a (reads ++ [(room, result)]) { d with inner, drained } where
  algorithm := h.algorithm
  digested := h.digested.trans (piecesOf_snoc_nothing reads hnothing).symm
  passed := by
    rw [← flatten_piecesOf, piecesOf_snoc_nothing reads hnothing, flatten_piecesOf]
    exact h.passed
  drained := hdrained

/-- A read keeps the books right. -/
theorem read (next : σ → Nat → ReadResult × σ) (h : Tapped a reads d) (room : Nat) :
    Tapped a (reads ++ [(room, (readBy next d room).1)]) (readBy next d room).2 := by
  rcases hnext : next d.inner room with ⟨result, inner⟩
  cases result with
  | error e =>
      rw [readBy_of_failure hnext]
      exact h.of_nothing rfl (h.drained_snoc fun _ => nofun)
  | ok bytes =>
      by_cases hnil : bytes = []
      · subst hnil
        rw [readBy_of_nothing hnext]
        refine h.of_nothing rfl ?_
        -- no bytes are the end if there was room for some, and say nothing otherwise
        by_cases hroom : room = 0
        · subst hroom
          show (d.drained || false) = true ↔ _
          rw [Bool.or_false]
          exact h.drained_snoc fun hzero => absurd rfl hzero
        · refine iff_of_true ?_ ⟨room, hroom, List.mem_append_right _ List.mem_cons_self⟩
          rw [bne_iff_ne.mpr hroom, Bool.or_true]
      · rw [readBy_of_bytes hnil hnext]
        refine ⟨h.algorithm, ?_, ?_, h.drained_snoc fun _ hend => hnil (Except.ok.inj hend)⟩
        · rw [piecesOf_snoc_bytes reads room hnil, ← h.digested]
          exact List.reverse_cons
        · rw [← flatten_piecesOf, piecesOf_snoc_bytes reads room hnil, List.flatten_concat,
            List.length_append, flatten_piecesOf, ← h.passed]

/-- Any reads keep the books right. -/
theorem afterReads (next : σ → Nat → ReadResult × σ) (h : Tapped a reads d) (rooms : List Nat) :
    Tapped a (reads ++ readsOf (readBy next) d rooms) (afterReads (readBy next) d rooms) := by
  induction rooms generalizing reads d with
  | nil =>
      rw [readsOf, List.append_nil]
      exact h
  | cons room rooms ih =>
      have hrest := ih (h.read next room)
      rw [List.append_assoc] at hrest
      exact hrest

/-- The digest can be asked for if the end was seen, and is that of all bytes. -/
theorem finish_eq (h : Tapped a reads d) :
    d.finish = if d.drained then .ok (Fingerprint.ofBytes a (bytesOf reads))
      else .error .incompleteDigest := by
  rw [finish, h.digested, flatten_piecesOf, h.algorithm]

end Tapped

/-! ## Reading to the end -/

section Drain

variable {σ : Type} [ByteReader σ]

/-- A digesting stream that is read to the end reads its inner reader to the
    end, digests all that comes, and sees the end if there is one. -/
theorem drain_through (d : DigestTap σ) {room : Nat} (hroom : room ≠ 0) (done : List Bytes) :
    ∃ more ending t,
      ByteReader.drain d.inner room done = (more ++ done, ending, t.inner) ∧
      ByteReader.drain d room done = (more ++ done, ending, t) ∧
      t.algorithm = d.algorithm ∧ t.digested = more ++ d.digested ∧
      (ending = none → t.drained = true) := by
  fun_induction ByteReader.drain d room done with
  | case1 d done e d' hread =>
      rcases d.read_cases room with ⟨e', inner, hinner, htap⟩ | ⟨inner, -, htap⟩
        | ⟨bytes, inner, -, -, htap⟩
      · cases htap.symm.trans hread
        exact ⟨[], some e, { d with inner }, drain_of_failure hinner done, rfl, rfl, rfl,
          (Option.some_ne_none e).elim⟩
      · cases htap.symm.trans hread
      · cases htap.symm.trans hread
  | case2 d done d' hread =>
      rcases d.read_cases room with ⟨e, inner, -, htap⟩ | ⟨inner, hinner, htap⟩
        | ⟨bytes, inner, hne, -, htap⟩
      · cases htap.symm.trans hread
      · cases htap.symm.trans hread
        refine ⟨[], none, { d with inner, drained := d.drained || room != 0 },
          drain_of_end hinner done, rfl, rfl, rfl, fun _ => ?_⟩
        show (d.drained || room != 0) = true
        rw [bne_iff_ne.mpr hroom, Bool.or_true]
      · cases htap.symm.trans hread
        exact absurd rfl hne
  | case3 d done bytes d' hread hne ih =>
      rcases d.read_cases room with ⟨e, inner, -, htap⟩ | ⟨inner, -, htap⟩
        | ⟨bytes', inner, -, hinner, htap⟩
      · cases htap.symm.trans hread
      · cases htap.symm.trans hread
        exact absurd rfl hne
      · cases htap.symm.trans hread
        obtain ⟨more, ending, t, hdrain, htaps, halgorithm, hdigested, hdrained⟩ := ih
        refine ⟨more ++ [bytes], ending, t, ?_, ?_, halgorithm, ?_, hdrained⟩
        · rw [drain_of_bytes hne hinner, hdrain, List.append_assoc]
          rfl
        · rw [htaps, List.append_assoc]
          rfl
        · rw [hdigested, List.append_assoc]
          rfl

/-- Reading to the end gives the digest of what was read before and of all that
    was still to come, or the failure within. -/
theorem Tapped.drain_eq {a : DigestAlgorithm} {reads : List (Nat × ReadResult)} {d : DigestTap σ}
    (h : Tapped a reads d) :
    d.drain = match readToEnd d.inner copyBuffer with
      | (rest, none) => .ok (Fingerprint.ofBytes a (bytesOf reads ++ rest))
      | (_, some e) => .error (.ofIo e) := by
  have hroom : copyBuffer ≠ 0 := by decide
  obtain ⟨more, ending, t, hinner, htap, halgorithm, hdigested, hdrained⟩ :=
    drain_through d hroom []
  rw [readToEnd, hinner, DigestTap.drain, htap]
  cases ending with
  | some e => rfl
  | none =>
      have hall : t.digested.reverse.flatten
          = bytesOf reads ++ (more ++ []).reverse.flatten := by
        rw [hdigested, List.append_nil, List.reverse_append, List.flatten_append, h.digested,
          flatten_piecesOf]
      show t.finish = _
      rw [finish, if_pos (hdrained rfl), halgorithm, h.algorithm, hall]

end Drain

/-! ## The statement -/

/-- A digesting stream over any reader, after any reads, even without room: its
    answers were those of the reader within, which is left as if it had been
    read alone; what was digested are the pieces given, one after the other, and
    the number of bytes is theirs; the end was seen exactly if a read with room
    gave nothing; the digest is that of the bytes given, and can be asked for
    exactly if the end was seen; and a read that fails changes nothing but the
    reader within.

    Over a reader whose bytes come to an end, reading to the end gives the digest
    of all bytes, those given before and those still to come, or the failure of
    the reader within. -/
theorem digests_what_it_returned :
    (∀ {σ : Type} (next : σ → Nat → ReadResult × σ) (s : σ) (a : DigestAlgorithm)
        (rooms : List Nat),
      let start : DigestTap σ := { inner := s, algorithm := a }
      let reads := readsOf (readBy next) start rooms
      let d := afterReads (readBy next) start rooms
      reads = readsOf next s rooms ∧ d.inner = afterReads next s rooms ∧
      d.digested.reverse = piecesOf reads ∧ d.passed = (bytesOf reads).length ∧
      (d.drained = true ↔ ∃ room, room ≠ 0 ∧ (room, .ok []) ∈ reads) ∧
      (d.finish = if d.drained then .ok (Fingerprint.ofBytes a (bytesOf reads))
        else .error .incompleteDigest) ∧
      ∀ room e inner, next d.inner room = (.error e, inner) →
        readBy next d room = (.error e, { d with inner })) ∧
    ∀ {σ : Type} [ByteReader σ] (s : σ) (a : DigestAlgorithm) (rooms : List Nat),
      let start : DigestTap σ := { inner := s, algorithm := a }
      let reads := readsOf DigestTap.read start rooms
      let d := afterReads DigestTap.read start rooms
      DigestTap.read (σ := σ) = readBy ByteReader.read ∧
      d.drain = match readToEnd d.inner copyBuffer with
        | (rest, none) => .ok (Fingerprint.ofBytes a (bytesOf reads ++ rest))
        | (_, some e) => .error (.ofIo e) := by
  constructor
  · intro σ next s a rooms start reads d
    have h : Tapped a reads d := (Tapped.fresh a s).afterReads next rooms
    exact ⟨readsOf_transparent next start rooms, afterReads_transparent next start rooms, h.digested,
      h.passed, h.drained, h.finish_eq, fun room e inner hnext => readBy_of_failure hnext⟩
  · intro σ _ s a rooms start reads d
    have h : Tapped a reads d := (Tapped.fresh a s).afterReads ByteReader.read rooms
    exact ⟨rfl, h.drain_eq⟩

/-- Neither a failure nor a read without room is the end, and after the end the
    reader may go on. -/
example :
    let next : List ReadResult → Nat → ReadResult × List ReadResult :=
      fun script _ => (script.headD (.ok []), script.tail)
    let start : DigestTap (List ReadResult) :=
      { inner := [.ok [1, 2], .error .alreadyFailed, .ok [], .ok [], .ok [3]], algorithm := .blake3 }
    let books (rooms : List Nat) := afterReads (readBy next) start rooms
    ((books [4, 4, 0]).passed, (books [4, 4, 0]).drained) = (2, false) ∧
      ((books [4, 4, 0, 4, 4]).passed, (books [4, 4, 0, 4, 4]).drained) = (3, true) := ⟨rfl, rfl⟩

end DigestTap

end ContentVault
