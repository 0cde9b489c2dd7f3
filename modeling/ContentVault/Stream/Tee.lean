import ContentVault.Stream.Channel

/-!
# The tee

A tee reads one stream and passes every chunk to two outputs. It is run by a producer, which reads a chunk, puts it into
the first output's channel, then into the second's, and reads on; each channel holds one message, so that the slower
output holds the producer back. An output can be dropped at any time. Then the producer gives up and the other output
fails, because what it has got may be less than the stream. A producer that crashes says nothing to the outputs: its
channels just close.

The tee is a machine: `step` is one step of the producer, `read` and `drop` are what the holders of the outputs do, and
in any order. `demand` is a read that lets the producer run first if it has to wait, and `drain` and `drainTogether`
read one output or both to the end that way. `split` gives what both outputs of a new tee deliver as two streams.
-/

namespace ContentVault

/-- The outputs of a tee. -/
inductive Side where
  | first
  | second
deriving DecidableEq, Repr, Inhabited

/-- One output: the channel and its reader. -/
structure Output where
  queue : List Message := []
  reader : Outlet := {}
  dropped : Bool := false
deriving Repr, Inhabited

/-- What the producer is about to do. -/
inductive TeePhase where
  | reading
  | sending (target : Side) (message : Message)
  /-- Nothing any more; the result is the number of bytes passed on, or the failure that ended it. -/
  | exited (result : Except ProducerFailure Nat)

/-- A tee over a source. -/
structure Tee (σ : Type) where
  source : σ
  /-- The buffer through which the producer reads. -/
  buffer : Nat
  phase : TeePhase := .reading
  /-- The bytes passed on to both outputs. -/
  total : Nat := 0
  /-- Whether the producer gave up because an output was dropped. -/
  aborted : Bool := false
  first : Output := {}
  second : Output := {}

namespace Tee

variable {σ : Type}

/-- Whether there can be a buffer of this size: no allocation is larger than 2^63 - 1 bytes. -/
def Bufferable (size : Nat) : Prop := size ≤ 9223372036854775807

instance (size : Nat) : Decidable (Bufferable size) := inferInstanceAs (Decidable (size ≤ _))

/-- A tee that has not started. A buffer of no bytes counts as one of one byte; a producer that cannot have its buffer
crashes before it reads, and raises no alarm. -/
def ofSource (source : σ) (buffer : Nat) : Tee σ where
  source := source
  buffer := max 1 buffer
  phase := if Bufferable buffer then .reading else .exited (.error .crashed)

/-- One of the outputs. -/
def output (t : Tee σ) : Side → Output
  | .first => t.first
  | .second => t.second

/-- Replaces one of the outputs. -/
def setOutput (t : Tee σ) (side : Side) (out : Output) : Tee σ :=
  match side with
  | .first => { t with first := out }
  | .second => { t with second := out }

/-- Whether an output was dropped. -/
def someDropped (t : Tee σ) : Bool := t.first.dropped || t.second.dropped

/-- The result of the producer, when it has exited. -/
def result? (t : Tee σ) : Option (Except ProducerFailure Nat) :=
  match t.phase with
  | .exited result => some result
  | _ => none

/-! ## The producer -/

/-- Gives up because an output was dropped. -/
def abort (t : Tee σ) : Tee σ :=
  { t with aborted := true, phase := .exited (.error (.stream (.fault .siblingClosed))) }

/-- Goes on after a message is dealt with on one side. -/
def afterSending (t : Tee σ) (side : Side) (message : Message) : Tee σ :=
  match side, message with
  | .first, message => { t with phase := .sending .second message }
  | .second, .chunk bytes => { t with phase := .reading, total := t.total + bytes.length }
  | .second, .failure e => { t with phase := .exited (.error (.stream e)) }

/-- Puts a message into a channel. -/
def push (t : Tee σ) (side : Side) (message : Message) : Tee σ :=
  let out := t.output side
  t.setOutput side { out with queue := out.queue ++ [message] }

/-- Sends a message, if there is room for it. A chunk for an output that was dropped makes the producer give up; a
failure is offered to both outputs in any case. -/
def send (t : Tee σ) (side : Side) (message : Message) : Option (Tee σ) :=
  if (t.output side).dropped then
    match message with
    | .chunk _ => some t.abort
    | .failure _ => some (t.afterSending side message)
  else if (t.output side).queue = [] then some ((t.push side message).afterSending side message)
  else none

variable [ByteReader σ]

/-- Reads a chunk from the source. -/
def readSource (t : Tee σ) : Tee σ :=
  match ByteReader.read t.source t.buffer with
  | (.error e, source) => { t with source, phase := .sending .first (.failure e) }
  | (.ok bytes, source) =>
    if bytes = [] then { t with source, phase := .exited (.ok t.total) }
    else { t with source, phase := .sending .first (.chunk bytes) }

/-- One step of the producer, if it can make one. When an output was dropped while the producer is about to read, it
can either notice that or read first; `watchful` says which. -/
def step (watchful : Bool) (t : Tee σ) : Option (Tee σ) :=
  match t.phase with
  | .reading => if watchful && t.someDropped then some t.abort else some t.readSource
  | .sending side message => t.send side message
  | .exited _ => none

/-- A bound on the steps that the producer can still make. -/
def stepsLeft (t : Tee σ) : Nat :=
  match t.phase with
  | .exited _ => 0
  | .sending .second (.failure _) => 1
  | .sending .first (.failure _) => 2
  | .reading => 3 * ByteReader.left t.source + 3
  | .sending .second (.chunk _) => 3 * ByteReader.left t.source + 4
  | .sending .first (.chunk _) => 3 * ByteReader.left t.source + 5

omit [ByteReader σ] in
@[simp] theorem source_push (t : Tee σ) (side : Side) (m : Message) : (t.push side m).source = t.source := by
  cases side <;> rfl

theorem stepsLeft_afterSending (t u : Tee σ) (side : Side) (m : Message) (hp : t.phase = .sending side m)
    (hs : u.source = t.source) : (u.afterSending side m).stepsLeft < t.stepsLeft := by
  cases side <;> cases m <;> simp [afterSending, stepsLeft, hp, hs]

theorem stepsLeft_step {watchful : Bool} {t u : Tee σ} (h : t.step watchful = some u) :
    u.stepsLeft < t.stepsLeft := by
  have habort : ∀ {v : Tee σ}, v.abort.stepsLeft = 0 := rfl
  unfold step at h
  match hp : t.phase with
  | .exited _ => simp [hp] at h
  | .reading =>
    simp only [hp] at h
    split at h <;> cases h
    · rw [habort]; simp [stepsLeft, hp]
    · unfold readSource
      split
      · simp [stepsLeft, hp]
      · rename_i bytes source hr
        have := ByteReader.left_read hr
        split
        · simp [stepsLeft, hp]
        · have := List.length_pos_iff.mpr ‹¬bytes = []›
          simp only [stepsLeft, hp]
          omega
  | .sending side m =>
    simp only [hp, send] at h
    split at h
    · cases m with
      | chunk bytes => cases h; rw [habort]; cases side <;> simp [stepsLeft, hp]
      | failure e => cases h; exact stepsLeft_afterSending t t side _ hp rfl
    · split at h <;> cases h
      exact stepsLeft_afterSending t _ side _ hp (source_push ..)

/-- Runs the producer as far as it gets. -/
def settle (t : Tee σ) : Tee σ :=
  match _h : t.step true with
  | some u => settle u
  | none => t
termination_by t.stepsLeft
decreasing_by exact stepsLeft_step _h

/-! ## The outputs -/

omit [ByteReader σ] in
/-- Drops an output. -/
def drop (t : Tee σ) (side : Side) : Tee σ := t.setOutput side { t.output side with dropped := true }

omit [ByteReader σ] in
/-- Reads once from an output. Gives nothing when the reader has to wait. -/
def read (t : Tee σ) (side : Side) (room : Nat) : Option ReadResult × Tee σ :=
  let out := t.output side
  let (result, reader, box) := out.reader.read ⟨out.queue, t.result?.isSome, t.aborted⟩ room
  (result, t.setOutput side { out with reader, queue := box.queue })

/-- Reads once from an output, the producer running if the reader has to wait. Gives nothing if the reader waits for
ever, the other output being left alone. -/
def demand (t : Tee σ) (side : Side) (room : Nat) : Option ReadResult × Tee σ :=
  match t.read side room with
  | (some result, t) => (some result, t)
  | (none, t) => t.settle.read side room

/-! ## Reading to the end -/

/-- The bytes that the producer has in hand for an output, and those it can still read. -/
def unsent (t : Tee σ) (side : Side) : Nat :=
  match t.phase with
  | .reading => ByteReader.left t.source
  | .sending target (.chunk bytes) =>
    ByteReader.left t.source + if target = .first ∨ side = .second then bytes.length else 0
  | _ => 0

/-- A bound on the bytes that an output can still give. -/
def undelivered (t : Tee σ) (side : Side) : Nat :=
  ((t.output side).reader.toCome (t.output side).queue).length + t.unsent side

omit [ByteReader σ] in
@[simp] theorem output_setOutput (t : Tee σ) (side : Side) (out : Output) :
    (t.setOutput side out).output side = out := by
  cases side <;> rfl

omit [ByteReader σ] in
theorem output_setOutput_of_ne (t : Tee σ) {side other : Side} (out : Output) (h : other ≠ side) :
    (t.setOutput side out).output other = t.output other := by
  cases side <;> cases other <;> first | rfl | exact absurd rfl h

@[simp] theorem unsent_setOutput (t : Tee σ) (side other : Side) (out : Output) :
    (t.setOutput side out).unsent other = t.unsent other := by
  cases side <;> rfl

theorem toCome_push (r : Outlet) (m : Message) :
    (r.toCome [m]).length ≤ (r.toCome []).length + (Outlet.chunkBytes [m]).length := by
  unfold Outlet.toCome
  split <;> simp [Outlet.chunkBytes]

theorem undelivered_step {watchful : Bool} {t u : Tee σ} (side : Side) (h : t.step watchful = some u) :
    u.undelivered side ≤ t.undelivered side := by
  unfold step at h
  match hp : t.phase with
  | .exited _ => simp [hp] at h
  | .reading =>
    simp only [hp] at h
    split at h <;> cases h
    · cases side <;> simp [undelivered, unsent, abort, output, hp]
    · unfold readSource
      split
      · cases side <;> simp [undelivered, unsent, output, hp]
      · rename_i bytes source hr
        have := ByteReader.left_read hr
        split
        · cases side <;> simp [undelivered, unsent, output, hp]
        · cases side <;> simp [undelivered, unsent, output, hp] <;> omega
  | .sending target m =>
    simp only [hp, send] at h
    split at h
    · cases m with
      | chunk bytes => cases h; cases side <;> simp [undelivered, unsent, abort, output, hp]
      | failure e =>
        cases h
        cases target <;> cases side <;> simp [undelivered, unsent, afterSending, output, hp]
    · split at h <;> cases h
      rename_i hq
      have onFirst := toCome_push t.first.reader m
      have onSecond := toCome_push t.second.reader m
      cases target <;> cases m <;> cases side <;>
        simp_all [undelivered, unsent, afterSending, push, setOutput, output, Outlet.chunkBytes] <;>
        omega

theorem undelivered_settle (t : Tee σ) (side : Side) : t.settle.undelivered side ≤ t.undelivered side := by
  fun_induction settle t with
  | case1 t u h ih => exact Nat.le_trans ih (undelivered_step side h)
  | case2 => exact Nat.le_refl _

/-- What a read gives is off what was undelivered, and the other output does not notice. -/
theorem undelivered_read (t : Tee σ) (side other : Side) (room : Nat) :
    (t.read side room).2.undelivered other + (if other = side then
      (Outlet.given (t.read side room).1).length else 0) ≤ t.undelivered other := by
  have law := Outlet.given_read (t.output side).reader
    ⟨(t.output side).queue, t.result?.isSome, t.aborted⟩ room
  unfold read
  simp only
  generalize (t.output side).reader.read ⟨(t.output side).queue, t.result?.isSome, t.aborted⟩ room = out at law ⊢
  obtain ⟨result, reader, box⟩ := out
  simp only at law ⊢
  split
  · subst other
    simp only [undelivered, output_setOutput, unsent_setOutput, ← law, List.length_append]
    omega
  · rename_i h
    simp [undelivered, output_setOutput_of_ne _ _ h]

theorem undelivered_demand (t : Tee σ) (side other : Side) (room : Nat) :
    (t.demand side room).2.undelivered other + (if other = side then
      (Outlet.given (t.demand side room).1).length else 0) ≤ t.undelivered other := by
  have direct := undelivered_read t side other room
  unfold demand
  split
  · simpa [*] using direct
  · rename_i u hr
    rw [hr] at direct
    have later := undelivered_read u.settle side other room
    have settled := undelivered_settle u other
    simp only [Outlet.given, List.length_nil, ite_self, Nat.add_zero] at direct
    omega

/-- What the reader of a stream has got so far, latest first, and whether it has seen how the stream ends. -/
structure Catch where
  chunks : List Bytes := []
  ending : Option ByteReader.Ending := none
deriving Repr, Inhabited

/-- Notes what a read gave. -/
def Catch.note (c : Catch) : Option ReadResult → Catch
  | some (.ok []) => { c with ending := some none }
  | some (.ok bytes) => { c with chunks := bytes :: c.chunks }
  | some (.error e) => { c with ending := some (some e) }
  | none => c

/-- All the bytes that were read. -/
def Catch.bytes (c : Catch) : Bytes := c.chunks.reverse.flatten

/-- Reads an output to the end, or until it would wait for ever. -/
def drain (t : Tee σ) (side : Side) (room : Nat) (c : Catch) : Catch × Tee σ :=
  let out := t.demand side room
  if Outlet.given out.1 = [] then (c.note out.1, out.2)
  else drain out.2 side room (c.note out.1)
termination_by t.undelivered side
decreasing_by
  have law := undelivered_demand t side side room
  have progress := List.length_pos_iff.mpr ‹_›
  simp only [if_true, out] at law progress
  omega

/-- Reads from an output that has not ended. -/
def demandUnlessEnded (t : Tee σ) (side : Side) (room : Nat) (c : Catch) : Option ReadResult × Tee σ :=
  if c.ending.isSome then (none, t) else t.demand side room

theorem undelivered_demandUnlessEnded (t : Tee σ) (side other : Side) (room : Nat) (c : Catch) :
    (t.demandUnlessEnded side room c).2.undelivered other + (if other = side then
      (Outlet.given (t.demandUnlessEnded side room c).1).length else 0) ≤ t.undelivered other := by
  unfold demandUnlessEnded
  split
  · simp [Outlet.given]
  · exact undelivered_demand t side other room

/-- Reads both outputs to the end, in turn. -/
def drainTogether (t : Tee σ) (room : Nat) (c d : Catch) : Catch × Catch × Tee σ :=
  let one := t.demandUnlessEnded .first room c
  let two := one.2.demandUnlessEnded .second room d
  if Outlet.given one.1 ++ Outlet.given two.1 = [] then (c.note one.1, d.note two.1, two.2)
  else drainTogether two.2 room (c.note one.1) (d.note two.1)
termination_by t.undelivered .first + t.undelivered .second
decreasing_by
  have a1 := undelivered_demandUnlessEnded t .first .first room c
  have a2 := undelivered_demandUnlessEnded t .first .second room c
  have b1 := undelivered_demandUnlessEnded (t.demandUnlessEnded .first room c).2 .second .first room d
  have b2 := undelivered_demandUnlessEnded (t.demandUnlessEnded .first room c).2 .second .second room d
  have progress := List.length_pos_iff.mpr ‹_›
  simp only [if_true, reduceCtorEq, if_false, List.length_append, one, two] at a1 a2 b1 b2 progress
  omega

/-- What was read, as a stream that can be read again. -/
def Catch.relay (c : Catch) : Relay where
  messages := c.chunks.reverse.map .chunk ++ match c.ending with
    | some (some e) => [.failure e]
    | _ => []

/-- Passes a stream through a tee whose outputs are read side by side: what each of them gives, and the result of the
producer. -/
def split (source : σ) (buffer room : Nat) : Relay × Relay × Except ProducerFailure Nat :=
  let (c, d, t) := (ofSource source buffer).drainTogether room {} {}
  (c.relay, d.relay, t.result?.getD (.ok t.total))

end Tee

end ContentVault
