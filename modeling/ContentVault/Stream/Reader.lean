import ContentVault.Bytes
import ContentVault.Failure

/-!
# Reading

A `ByteReader` gives its bytes a few at a time: one read fills a buffer at most, and may give less. No bytes into a
buffer with room for some mean the end. The class keeps what makes reading to the end terminate: a reader knows a bound
on the bytes still to come, and what a read gives is taken off it.

`readFilling` fills a buffer by as many reads as it takes, `readToEnd` reads to the end, and `Source` is the reader that
a stream from outside is: some bytes, given in any portions, and then the end or a failure.
-/

namespace ContentVault

/-- What one read gives. -/
abbrev ReadResult := Except IoError Bytes

/-- Something that bytes can be read from. -/
class ByteReader (σ : Type) where
  /-- Reads once into a buffer with the given room. -/
  read : σ → (room : Nat) → ReadResult × σ
  /-- A bound on the bytes still to come. -/
  left : σ → Nat
  /-- What is read is not still to come. -/
  left_read : ∀ {s s' : σ} {room : Nat} {bytes : Bytes},
    read s room = (.ok bytes, s') → left s' + bytes.length ≤ left s
  /-- A read gives no more than there is room for. -/
  length_read : ∀ {s s' : σ} {room : Nat} {bytes : Bytes},
    read s room = (.ok bytes, s') → bytes.length ≤ room

namespace ByteReader

variable {σ : Type} [ByteReader σ]

/-- Reads until `room` more bytes are there or the end is reached. `done` holds what is there already, latest first. -/
def fill (s : σ) (room : Nat) (done : List Bytes) : ReadResult × σ :=
  if room = 0 then (.ok done.reverse.flatten, s)
  else
    match read s room with
    | (.error e, s') => (.error e, s')
    | (.ok bytes, s') =>
      if _h : bytes = [] then (.ok done.reverse.flatten, s')
      else fill s' (room - bytes.length) (bytes :: done)
termination_by room
decreasing_by
  have := List.length_pos_iff.mpr _h
  omega

/-- Reads until a buffer is full or the end is reached. A failure discards what was read before it. -/
def readFilling (s : σ) (room : Nat) : ReadResult × σ := fill s room []

theorem left_fill {s s' : σ} {room : Nat} {done : List Bytes} {bytes : Bytes}
    (h : fill s room done = (.ok bytes, s')) :
    left s' + bytes.length ≤ left s + done.flatten.length := by
  have flat (l : List Bytes) : l.reverse.flatten.length = l.flatten.length := by
    simp [List.length_flatten]
  fun_induction fill s room done with
  | case1 s done => simp at h; obtain ⟨rfl, rfl⟩ := h; exact Nat.le_of_eq (by rw [flat])
  | case2 => simp at h
  | case3 s room done _ s'' hr =>
    have := left_read hr
    simp at h
    obtain ⟨rfl, rfl⟩ := h
    rw [flat]
    simp at this
    omega
  | case4 s room done _ piece s'' hr _ ih =>
    have := left_read hr
    have := ih h
    simp only [List.flatten_cons, List.length_append] at this
    omega

/-- What fills a buffer is not still to come. -/
theorem left_readFilling {s s' : σ} {room : Nat} {bytes : Bytes} (h : readFilling s room = (.ok bytes, s')) :
    left s' + bytes.length ≤ left s := by
  simpa using left_fill h

/-- How a stream ends: cleanly, or with a failure. -/
abbrev Ending := Option IoError

/-- Reads to the end through a buffer with the given room. `done` holds what was read before, latest first. -/
def drain (s : σ) (room : Nat) (done : List Bytes) : List Bytes × Ending × σ :=
  match _hr : read s room with
  | (.error e, s') => (done, some e, s')
  | (.ok bytes, s') =>
    if _h : bytes = [] then (done, none, s') else drain s' room (bytes :: done)
termination_by left s
decreasing_by
  have := left_read _hr
  have := List.length_pos_iff.mpr _h
  omega

/-- All that can be read, and how it ends. -/
def readToEnd (s : σ) (room : Nat) : Bytes × Ending :=
  let (chunks, ending, _) := drain s room []
  (chunks.reverse.flatten, ending)

end ByteReader

/-! ## Streams from outside -/

/-- A stream from outside: bytes, and then the end or a failure. The sizes say how many bytes a read gives at most, in
turn and starting over at the end; without sizes a read fills its buffer. -/
structure Source where
  data : Bytes
  sizes : List Nat := []
  failure : Option IoError := none
  /-- How many reads have given bytes. -/
  reads : Nat := 0
deriving Repr, Inhabited

namespace Source

/-- How many bytes the next read gives at most; a size of zero counts as one. -/
def limit (s : Source) (room : Nat) : Nat :=
  match s.sizes[s.reads % s.sizes.length]? with
  | some size => min room (max 1 size)
  | none => room

/-- Reads once. -/
def read (s : Source) (room : Nat) : ReadResult × Source :=
  if room = 0 then (.ok [], s)
  else if s.data = [] then
    match s.failure with
    | none => (.ok [], s)
    | some e => (.error e, s)
  else
    let n := s.limit room
    (.ok (s.data.take n), { s with data := s.data.drop n, reads := s.reads + 1 })

theorem limit_le (s : Source) (room : Nat) : s.limit room ≤ room := by
  unfold limit
  split <;> omega

/-- A read with room gives something, as long as there is something. -/
theorem limit_pos (s : Source) {room : Nat} (h : 0 < room) : 0 < s.limit room := by
  unfold limit
  split <;> omega

instance : ByteReader Source where
  read := read
  left s := s.data.length
  left_read {s s' room bytes} h := by
    unfold read at h
    split at h
    · simp at h; obtain ⟨rfl, rfl⟩ := h; simp
    · split at h
      · split at h <;> simp at h
        obtain ⟨rfl, rfl⟩ := h; simp
      · simp at h
        obtain ⟨rfl, rfl⟩ := h
        simp; omega
  length_read {s s' room bytes} h := by
    have := s.limit_le room
    unfold read at h
    split at h
    · simp at h; simp [h.1]
    · split at h
      · split at h <;> simp at h
        simp [h.1]
      · simp at h
        obtain ⟨rfl, rfl⟩ := h
        simp; omega

end Source

end ContentVault
