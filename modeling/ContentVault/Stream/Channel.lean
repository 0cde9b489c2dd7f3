import ContentVault.Stream.Reader

/-!
# Channels

Two stages of a pipeline are joined by a channel: one puts chunks of bytes into it, or the failure that ends the
stream, and the other reads them through a `Outlet`, in portions of its own choice. When the sender goes away
the stream is complete, unless the channel was aborted before; then the reader fails, so that a stream that was cut
short never looks complete.
-/

namespace ContentVault

/-- What goes through a channel. -/
inductive Message where
  | chunk (bytes : Bytes)
  | failure (error : IoError)
deriving DecidableEq, Repr, Inhabited

/-- A channel as its reader sees it. -/
structure Mailbox where
  /-- The messages that wait, oldest first. -/
  queue : List Message
  /-- Whether the sender is gone. -/
  closed : Bool
  /-- Whether the stream was cut short. -/
  aborted : Bool
deriving Repr, Inhabited

/-- What a channel reader can still do: go on, or no more because it has seen the end or a failure. -/
inductive OutletState where
  | active
  | ended
  | failed
deriving DecidableEq, Repr, Inhabited

/-- The reading end of a channel. -/
structure Outlet where
  /-- What is left of the chunk taken last. -/
  pending : Bytes := []
  state : OutletState := .active
deriving Repr, Inhabited

namespace Outlet

/-- Takes messages until one has something to say about the read. Gives nothing when the reader has to wait. The
reader's own rest is used up. -/
def receive (closed aborted : Bool) (room : Nat) : List Message → Option ReadResult × Outlet × List Message
  | [] =>
    if closed then
      if aborted then (some (.error (.fault .siblingClosed)), ⟨[], .failed⟩, [])
      else (some (.ok []), ⟨[], .ended⟩, [])
    else (none, ⟨[], .active⟩, [])
  | .failure e :: queue => (some (.error e), ⟨[], .failed⟩, queue)
  | .chunk [] :: queue => receive closed aborted room queue
  | .chunk (b :: bs) :: queue =>
    (some (.ok ((b :: bs).take room)), ⟨(b :: bs).drop room, .active⟩, queue)

/-- Reads once: from the rest of the last chunk, else from the channel. Gives nothing when the reader has to wait;
that loses nothing. -/
def read (r : Outlet) (box : Mailbox) (room : Nat) : Option ReadResult × Outlet × Mailbox :=
  if r.pending ≠ [] then
    (some (.ok (r.pending.take room)), { r with pending := r.pending.drop room }, box)
  else
    match r.state with
    | .ended => (some (.ok []), r, box)
    | .failed => (some (.error .alreadyFailed), r, box)
    | .active =>
      let (result, r, queue) := receive box.closed box.aborted room box.queue
      (result, r, { box with queue })

/-! ## Nothing is lost -/

/-- The bytes of the chunks in front of the first failure. -/
def chunkBytes : List Message → Bytes
  | .chunk bytes :: messages => bytes ++ chunkBytes messages
  | _ => []

/-- The bytes that a reader has still to give, when these messages wait for it. -/
def toCome (r : Outlet) (queue : List Message) : Bytes :=
  r.pending ++ if r.state = .active then chunkBytes queue else []

/-- The bytes that a read gave. -/
def given : Option ReadResult → Bytes
  | some (.ok bytes) => bytes
  | _ => []

theorem given_receive (closed aborted : Bool) (room : Nat) (queue : List Message) :
    let (result, r, rest) := receive closed aborted room queue
    given result ++ r.toCome rest = chunkBytes queue := by
  induction queue with
  | nil => cases closed <;> cases aborted <;> simp [receive, given, toCome, chunkBytes]
  | cons m queue ih =>
    match m with
    | .failure e => simp [receive, given, toCome, chunkBytes]
    | .chunk [] => simpa [receive, chunkBytes] using ih
    | .chunk (b :: bs) =>
      simp only [receive, given, toCome, chunkBytes, if_true, ← List.append_assoc, List.take_append_drop]

/-- What a read gives is what the reader has still to give no more: no byte is lost, doubled or out of order. -/
theorem given_read (r : Outlet) (box : Mailbox) (room : Nat) :
    let (result, r', box') := r.read box room
    given result ++ r'.toCome box'.queue = r.toCome box.queue := by
  by_cases h : r.pending = []
  · simp only [read, h, ne_eq, not_true_eq_false, if_false]
    match hs : r.state with
    | .ended => simp [given, toCome]
    | .failed => simp [given, toCome]
    | .active => simpa [toCome, h, hs] using given_receive box.closed box.aborted room box.queue
  · simp only [read, ne_eq, h, not_false_eq_true, if_true, given, toCome, ← List.append_assoc,
      List.take_append_drop]

theorem length_receive (closed aborted : Bool) (room : Nat) (queue : List Message) :
    (given (receive closed aborted room queue).1).length ≤ room := by
  induction queue with
  | nil => cases closed <;> cases aborted <;> simp [receive, given]
  | cons m queue ih =>
    match m with
    | .failure e => simp [receive, given]
    | .chunk [] => simpa [receive] using ih
    | .chunk (b :: bs) =>
      simp only [receive, given, List.length_take]
      omega

/-- A read gives no more than there is room for. -/
theorem length_read (r : Outlet) (box : Mailbox) (room : Nat) :
    (given (r.read box room).1).length ≤ room := by
  by_cases h : r.pending = []
  · simp only [read, h, ne_eq, not_true_eq_false, if_false]
    match r.state with
    | .ended => simp [given]
    | .failed => simp [given]
    | .active => simpa using length_receive box.closed box.aborted room box.queue
  · simp only [read, ne_eq, h, not_false_eq_true, if_true, given, List.length_take]
    omega

end Outlet

/-! ## Whole streams -/

/-- A stream whose sender is done: the messages that wait, and the reader. -/
structure Relay where
  messages : List Message
  reader : Outlet := {}
deriving Repr, Inhabited

namespace Relay

/-- Reads once. The sender being gone, the reader never waits. -/
def read (s : Relay) (room : Nat) : ReadResult × Relay :=
  let (result, reader, box) := s.reader.read ⟨s.messages, true, false⟩ room
  (result.getD (.ok []), ⟨box.queue, reader⟩)

theorem given_read {s s' : Relay} {room : Nat} {bytes : Bytes} (h : s.read room = (.ok bytes, s')) :
    bytes.length + (s'.reader.toCome s'.messages).length ≤ (s.reader.toCome s.messages).length ∧
      bytes.length ≤ room := by
  have law := Outlet.given_read s.reader ⟨s.messages, true, false⟩ room
  have small := Outlet.length_read s.reader ⟨s.messages, true, false⟩ room
  unfold read at h
  generalize s.reader.read ⟨s.messages, true, false⟩ room = out at law small h
  obtain ⟨result, reader, box⟩ := out
  simp only [Prod.mk.injEq] at h
  obtain ⟨hb, rfl⟩ := h
  simp only at law small
  rw [← law]
  match result with
  | none => simp at hb; simp [hb]
  | some (.error e) => simp at hb
  | some (.ok bs) =>
    simp at hb
    subst hb
    simpa [Outlet.given] using small

instance : ByteReader Relay where
  read := read
  left s := (s.reader.toCome s.messages).length
  left_read h := by have := (given_read h).1; omega
  length_read h := (given_read h).2

end Relay

end ContentVault
