import ContentVault.Proofs.Stream.Sessions

/-! # The books of a tee

    What goes through a tee can be accounted for at every moment, whoever acts
    next and whether outputs are dropped or not.  For the tee as a whole, the
    messages that were put into the two channels tell with what the producer is
    at how much of the source has passed (`Session.Stands`).  For each output,
    the bytes delivered and those at hand are those of the messages it took out
    of its channel (`Session.Books`), and its reads follow a course: bytes, and
    then one of three ends (`Reception.Course`).

    Every action keeps the books (`Accounted.performed`), so they are right after
    any actions (`accounted_after`).  They are kept over what passes the tee: the
    source, or nothing at all if the producer could not have its buffer
    (`passed`, `passedEnd`). -/

namespace ContentVault

open ByteReader ReaderView Outlet

/-! ## Messages -/

namespace Outlet

theorem chunkBytes_map (chunks : List Bytes) : chunkBytes (chunks.map .chunk) = chunks.flatten := by
  have h := chunkBytes_chunks chunks []
  rw [List.append_nil] at h
  exact h.trans (List.append_nil _)

/-- Messages after others add to their bytes, or nothing. -/
theorem chunkBytes_prefix_append (q r : List Message) : chunkBytes q <+: chunkBytes (q ++ r) := by
  induction q with
  | nil => exact List.nil_prefix
  | cons m q ih =>
      cases m with
      | failure e => exact List.prefix_refl _
      | chunk bytes => exact (List.prefix_append_right_inj bytes).mpr ih

/-- Bytes after messages without a failure. -/
theorem chunkBytes_append {q : List Message} (h : failure? q = none) (r : List Message) :
    chunkBytes (q ++ r) = chunkBytes q ++ chunkBytes r := by
  induction q with
  | nil => rfl
  | cons m q ih =>
      cases m with
      | failure e => cases h
      | chunk bytes => rw [List.cons_append, chunkBytes, chunkBytes, ih h, List.append_assoc]

theorem failure_not_mem_map (chunks : List Bytes) (e : IoError) :
    Message.failure e ∉ chunks.map Message.chunk := by
  intro h
  obtain ⟨c, -, hc⟩ := List.mem_map.mp h
  cases hc

end Outlet

/-! ## The course of the reads -/

/-- Whether a source can come to its end: in a state with no more bytes, it
    says so. -/
def CanEnd {σ : Type} [ByteReader σ] [ReaderView σ] (ready : σ → Bool) : Prop :=
  ∃ source, content source = [] ∧ ready source = true

namespace Reception

/-- Whether every read gave bytes, unless it had no room for any. -/
def Flows (reads : List (Nat × ReadResult)) : Prop :=
  ∀ r ∈ reads, ∃ bytes, r.2 = .ok bytes ∧ (r.1 ≠ 0 → bytes ≠ [])

theorem Flows.snoc {reads : List (Nat × ReadResult)} (h : Flows reads) {room : Nat} {bytes : Bytes}
    (hne : room ≠ 0 → bytes ≠ []) : Flows (reads ++ [(room, .ok bytes)]) := by
  intro r hr
  rcases List.mem_append.mp hr with hr | hr
  · exact h r hr
  · rw [List.mem_singleton.mp hr]
    exact ⟨bytes, rfl, hne⟩

theorem bytesOf_append (reads more : List (Nat × ReadResult)) :
    bytesOf (reads ++ more) = bytesOf reads ++ bytesOf more := by
  rw [bytesOf, List.map_append, List.flatten_append]
  rfl

/-- Reads that give nothing add nothing. -/
theorem bytesOf_of_empty {reads : List (Nat × ReadResult)}
    (h : ∀ r ∈ reads, given (some r.2) = []) : bytesOf reads = [] := by
  rw [bytesOf, List.flatten_eq_nil_iff]
  intro bytes hbytes
  obtain ⟨r, hr, rfl⟩ := List.mem_map.mp hbytes
  exact h r hr

theorem failureOf_append (reads more : List (Nat × ReadResult)) :
    failureOf (reads ++ more) = (failureOf reads).or (failureOf more) :=
  List.findSome?_append

theorem Flows.failureOf_eq {reads : List (Nat × ReadResult)} (h : Flows reads) :
    failureOf reads = none := by
  rw [failureOf, List.findSome?_eq_none_iff]
  intro r hr
  obtain ⟨bytes, hbytes, -⟩ := h r hr
  rw [hbytes]

theorem Flows.not_mem {reads : List (Nat × ReadResult)} (h : Flows reads) {room : Nat}
    (hroom : room ≠ 0) : (room, .ok []) ∉ reads := by
  intro hmem
  obtain ⟨bytes, hbytes, hne⟩ := h _ hmem
  exact hne hroom (Except.ok.inj hbytes).symm

/-- An output that gives bytes is not over. -/
theorem Flows.not_isOver {r : Reception} (h : Flows r.reads) : ¬r.IsOver := by
  rintro (⟨room, hroom, hend⟩ | hfailure)
  · exact h.not_mem hroom hend
  · exact hfailure h.failureOf_eq

/-- How the reads of an output of a tee may turn out, over a source that gives
    `d` and ends with `e`, by what the output's reader is at: they give bytes;
    or they gave all of `d`, and the source ended cleanly or with a failure; or
    the stream was cut short. -/
inductive Course (d : Bytes) (e : Ending) (ends torn : Prop) :
    OutletState → List (Nat × ReadResult) → Prop where
  | going {reads : List (Nat × ReadResult)} (flows : Flows reads) : Course d e ends torn .active reads
  | complete {reads tail : List (Nat × ReadResult)} (flows : Flows reads)
      (after : ∀ r ∈ tail, r.2 = .ok []) (all : bytesOf reads = d) (clean : e = none)
      (ended : ends) : Course d e ends torn .ended (reads ++ tail)
  | failed {reads tail : List (Nat × ReadResult)} {room : Nat} {x : IoError} (flows : Flows reads)
      (after : ∀ r ∈ tail, r.2 = .error .alreadyFailed) (all : bytesOf reads = d)
      (broken : e = some x) (ended : ends) :
      Course d e ends torn .failed (reads ++ (room, .error x) :: tail)
  | cut {reads tail : List (Nat × ReadResult)} {room : Nat} (flows : Flows reads)
      (after : ∀ r ∈ tail, r.2 = .error .alreadyFailed) (short : torn) :
      Course d e ends torn .failed (reads ++ (room, .error (.fault .siblingClosed)) :: tail)

namespace Course

variable {d : Bytes} {e : Ending} {ends torn : Prop} {reads : List (Nat × ReadResult)}

theorem flows (h : Course d e ends torn .active reads) : Flows reads := by
  cases h with
  | going flows => exact flows

/-- A read after the end finds the end. -/
theorem again (h : Course d e ends torn .ended reads) (room : Nat) :
    Course d e ends torn .ended (reads ++ [(room, .ok [])]) := by
  cases h with
  | complete flows after all clean ended =>
      rw [List.append_assoc]
      refine .complete flows (fun r hr => ?_) all clean ended
      rcases List.mem_append.mp hr with hr | hr
      · exact after r hr
      · rw [List.mem_singleton.mp hr]

/-- A read after a failure is told that there was one. -/
theorem still (h : Course d e ends torn .failed reads) (room : Nat) :
    Course d e ends torn .failed (reads ++ [(room, .error .alreadyFailed)]) := by
  have hover : ∀ {tail : List (Nat × ReadResult)},
      (∀ r ∈ tail, r.2 = .error .alreadyFailed) →
      ∀ r ∈ tail ++ [(room, .error .alreadyFailed)], r.2 = .error .alreadyFailed := by
    intro tail after r hr
    rcases List.mem_append.mp hr with hr | hr
    · exact after r hr
    · rw [List.mem_singleton.mp hr]
  cases h with
  | failed flows after all broken ended =>
      rw [List.append_assoc, List.cons_append]
      exact .failed flows (hover after) all broken ended
  | cut flows after short =>
      rw [List.append_assoc, List.cons_append]
      exact .cut flows (hover after) short

/-- What tears a stream for one reason tears it for any that follows from it. -/
theorem mono {state : OutletState} (h : Course d e ends torn state reads) {torn' : Prop}
    (himp : torn → torn') : Course d e ends torn' state reads := by
  cases h with
  | going flows => exact .going flows
  | complete flows after all clean ended => exact .complete flows after all clean ended
  | failed flows after all broken ended => exact .failed flows after all broken ended
  | cut flows after short => exact .cut flows after (himp short)

/-- Whoever has seen the end has got everything. -/
theorem of_end {state : OutletState} (h : Course d e ends torn state reads) {room : Nat}
    (hroom : room ≠ 0) (hend : (room, .ok []) ∈ reads) : bytesOf reads = d ∧ e = none ∧ ends := by
  have hrest : ∀ {before tail : List (Nat × ReadResult)} {room' : Nat} {x : IoError},
      Flows before → (∀ r ∈ tail, r.2 = .error .alreadyFailed) →
      (room, .ok []) ∉ before ++ (room', .error x) :: tail := by
    intro before tail room' x flows after hmem
    rcases List.mem_append.mp hmem with hmem | hmem
    · exact flows.not_mem hroom hmem
    · rcases List.mem_cons.mp hmem with heq | hmem
      · cases heq
      · cases after _ hmem
  cases h with
  | going flows => exact absurd hend (flows.not_mem hroom)
  | @complete before tail flows after all clean ended =>
      have hnone : bytesOf tail = [] := bytesOf_of_empty fun r hr => by rw [after r hr]; rfl
      refine ⟨?_, clean, ended⟩
      rw [bytesOf_append, hnone, List.append_nil, all]
  | failed flows after all broken ended => exact absurd hend (hrest flows after)
  | cut flows after short => exact absurd hend (hrest flows after)

/-- Whoever has seen a failure has got everything and been told how the source
    failed, or has been told that the stream was cut short. -/
theorem of_failure {state : OutletState} (h : Course d e ends torn state reads) {x : IoError}
    (hx : failureOf reads = some x) :
    (bytesOf reads = d ∧ e = some x ∧ ends) ∨ (x = .fault .siblingClosed ∧ torn) := by
  cases h with
  | going flows => cases flows.failureOf_eq.symm.trans hx
  | @complete before tail flows after all clean ended =>
      have hnone : failureOf tail = none :=
        List.findSome?_eq_none_iff.mpr fun r hr => by rw [after r hr]
      rw [failureOf_append, flows.failureOf_eq, hnone] at hx
      cases hx
  | failed flows after all broken ended =>
      rw [failureOf_append, flows.failureOf_eq] at hx
      cases hx
      refine Or.inl ⟨?_, broken, ended⟩
      rw [bytesOf_append, all, bytesOf_of_empty, List.append_nil]
      intro r hr
      rcases List.mem_cons.mp hr with rfl | hr
      · rfl
      · rw [after r hr]
        rfl
  | cut flows after short =>
      rw [failureOf_append, flows.failureOf_eq] at hx
      cases hx
      exact Or.inr ⟨rfl, short⟩

end Course

end Reception

/-! ## The books of an output -/

/-- The books of an output and of what it was given, over a source that gives
    `d` and ends with `e`.  `ends` says whether the source can come to its end,
    `torn` whether the other output was dropped, and `done` whether the producer
    is done. -/
structure Books (d : Bytes) (e : Ending) (ends torn done : Prop) (out : Output) (r : Reception) :
    Prop where
  /-- A channel holds one message. -/
  short : out.queue.length ≤ 1
  solid : Message.chunk [] ∉ r.received ++ out.queue
  /-- Nothing is lost or doubled between the channel and the holder. -/
  given : r.bytes ++ out.reader.pending = chunkBytes r.received
  /-- What is at hand is the rest of the chunk that was taken last. -/
  rest : out.reader.pending ≠ [] → ∃ earlier chunk,
    r.received = earlier ++ [.chunk chunk] ∧ out.reader.pending <:+ chunk
  active : out.reader.state = .active → failure? r.received = none
  /-- An output that is over has nothing at hand. -/
  spent : out.reader.state ≠ .active → out.reader.pending = []
  halted : out.reader.state ≠ .active → done ∨ ∃ x, Message.failure x ∈ r.received
  course : Reception.Course d e ends torn out.reader.state r.reads
  closed : r.closed = true → done

namespace Books

variable {d : Bytes} {e : Ending} {ends torn done : Prop} {queue : List Message} {r : Reception}
  {state : OutletState} {dropped : Bool}

theorem mono {out : Output} (h : Books d e ends torn done out r) {torn' done' : Prop}
    (htorn : torn → torn') (hdone : done → done') : Books d e ends torn' done' out r :=
  { h with
    halted := fun hstate => (h.halted hstate).imp_left hdone
    course := h.course.mono htorn
    closed := fun hc => hdone (h.closed hc) }

/-- A message that is put into an empty channel. -/
theorem queued {reader : Outlet} (h : Books d e ends torn done ⟨[], reader, dropped⟩ r)
    {m : Message} (hm : m ≠ .chunk []) : Books d e ends torn done ⟨[m], reader, dropped⟩ r := by
  have hsolid : Message.chunk [] ∉ r.received ++ [m] := by
    intro hmem
    rcases List.mem_append.mp hmem with hmem | hmem
    · exact h.solid (List.mem_append_left _ hmem)
    · exact hm (List.mem_singleton.mp hmem).symm
  exact { h with short := Nat.le_refl 1, solid := hsolid }

/-- The bytes of the reads, one more among them. -/
theorem bytes_snoc (room : Nat) (result : ReadResult) (received : List Message) (closed : Bool) :
    Reception.bytes ⟨received, r.reads ++ [(room, result)], closed⟩
      = r.bytes ++ Outlet.given (some result) := by
  rw [Reception.bytes, Reception.bytesOf_append, Reception.bytes]
  simp [Reception.bytesOf]

theorem given_take {received : List Message} {closed : Bool} {rest : Bytes} (room : Nat)
    (h : r.bytes ++ rest = chunkBytes received) :
    Reception.bytes ⟨received, r.reads ++ [(room, .ok (rest.take room))], closed⟩ ++ rest.drop room
      = chunkBytes received := by
  rw [bytes_snoc, List.append_assoc]
  show r.bytes ++ (rest.take room ++ rest.drop room) = _
  rw [List.take_append_drop, h]

theorem take_cons_ne_nil {b : UInt8} {bs : Bytes} {room : Nat} (h : room ≠ 0) :
    (b :: bs).take room ≠ [] := by
  cases room with
  | zero => exact absurd rfl h
  | succ room => exact nofun

/-- A read of the rest of a chunk. -/
theorem rested {b : UInt8} {bs : Bytes} (room : Nat)
    (h : Books d e ends torn done ⟨queue, ⟨b :: bs, state⟩, dropped⟩ r) :
    Books d e ends torn done ⟨queue, ⟨(b :: bs).drop room, state⟩, dropped⟩
      { r with reads := r.reads ++ [(room, .ok ((b :: bs).take room))] } := by
  have hstate : state = .active := by
    by_contra hne
    exact absurd (h.spent hne) nofun
  subst hstate
  constructor
  case short => exact h.short
  case solid => exact h.solid
  case given => exact given_take room h.given
  case rest =>
    intro _
    obtain ⟨earlier, chunk, hreceived, hsuffix⟩ := h.rest nofun
    exact ⟨earlier, chunk, hreceived, (List.drop_suffix _ _).trans hsuffix⟩
  case active => exact h.active
  case spent => exact fun hne => absurd rfl hne
  case halted => exact fun hne => absurd rfl hne
  case course => exact .going (h.course.flows.snoc take_cons_ne_nil)
  case closed => exact h.closed

/-- A read that takes a chunk out of the channel. -/
theorem chunked {b : UInt8} {bs : Bytes} (room : Nat)
    (h : Books d e ends torn done ⟨[.chunk (b :: bs)], ⟨[], .active⟩, dropped⟩ r) :
    Books d e ends torn done ⟨[], ⟨(b :: bs).drop room, .active⟩, dropped⟩
      { r with
        received := r.received ++ [.chunk (b :: bs)]
        reads := r.reads ++ [(room, .ok ((b :: bs).take room))] } := by
  have hnone := h.active rfl
  have hbytes : chunkBytes (r.received ++ [.chunk (b :: bs)]) = chunkBytes r.received ++ (b :: bs) := by
    rw [chunkBytes_append hnone]
    exact congrArg _ (List.append_nil (b :: bs))
  constructor
  case short => exact Nat.zero_le 1
  case solid =>
    rw [List.append_nil]
    exact h.solid
  case given =>
    refine given_take room ?_
    rw [hbytes, ← h.given, List.append_nil]
  case rest => exact fun _ => ⟨r.received, b :: bs, rfl, List.drop_suffix _ _⟩
  case active =>
    intro _
    rw [failure?_append, hnone]
    rfl
  case spent => exact fun hne => absurd rfl hne
  case halted => exact fun hne => absurd rfl hne
  case course => exact .going (h.course.flows.snoc take_cons_ne_nil)
  case closed => exact h.closed

/-- A read that gives no bytes, because the output is over. -/
theorem overread (room : Nat) {result : ReadResult} {before after : OutletState}
    (h : Books d e ends torn done ⟨queue, ⟨[], before⟩, dropped⟩ r)
    (hgiven : Outlet.given (some result) = []) (hover : after ≠ .active)
    (hdone : done ∨ ∃ x, Message.failure x ∈ r.received)
    (hcourse : Reception.Course d e ends torn after (r.reads ++ [(room, result)])) :
    Books d e ends torn done ⟨queue, ⟨[], after⟩, dropped⟩
      { r with reads := r.reads ++ [(room, result)] } where
  short := h.short
  solid := h.solid
  given := by
    rw [bytes_snoc, hgiven, List.append_nil]
    exact h.given
  rest hne := absurd rfl hne
  active hactive := absurd hactive hover
  spent _ := rfl
  halted _ := hdone
  course := hcourse
  closed := h.closed

/-- A read that takes a failure out of the channel. -/
theorem failed {x : IoError} (room : Nat)
    (h : Books d e ends torn done ⟨[.failure x], ⟨[], .active⟩, dropped⟩ r)
    (hall : chunkBytes r.received = d) (hbroken : e = some x) (hends : ends) :
    Books d e ends torn done ⟨[], ⟨[], .failed⟩, dropped⟩
      { r with
        received := r.received ++ [.failure x]
        reads := r.reads ++ [(room, .error x)] } := by
  have hbytes : r.bytes = chunkBytes r.received := (List.append_nil _).symm.trans h.given
  constructor
  case short => exact Nat.zero_le 1
  case solid =>
    rw [List.append_nil]
    exact h.solid
  case given =>
    rw [bytes_snoc, chunkBytes_append (h.active rfl), hbytes]
    exact List.append_nil _
  case rest => exact fun hne => absurd rfl hne
  case active => exact nofun
  case spent => exact fun _ => rfl
  case halted =>
    exact fun _ => Or.inr ⟨x, List.mem_append_right _ (List.mem_singleton_self _)⟩
  case course =>
    exact .failed h.course.flows (fun _ hr => nomatch hr) (hbytes.trans hall) hbroken hends
  case closed => exact h.closed

end Books

namespace Session

variable {σ : Type} [ByteReader σ] [ReaderView σ]

/-! ## What the producer is at -/

/-- What a message in the producer's hand and the source behind it amount to,
    when `more` is still to come. -/
def Promises (ready : σ → Bool) (e : Ending) (source : σ) (more : Bytes) : Message → Prop
  | .chunk bytes => bytes ≠ [] ∧ more = bytes ++ content source ∧ ending source = e
  | .failure x => more = [] ∧ e = some x ∧ CanEnd ready

/-- Whether a failure was put into a channel after the chunks, unless the
    output was dropped. -/
def Told (s : Session σ) (side : Side) (chunks : List Bytes) (x : IoError) : Prop :=
  s.sent side = chunks.map .chunk ++ [.failure x] ∨
    ((s.tee.output side).dropped = true ∧ s.sent side = chunks.map .chunk)

/-- Where a tee stands, over a source that gives `d` and ends with `e`: by what
    the producer is at, what was put into the two channels. -/
inductive Stands (ready : σ → Bool) (d : Bytes) (e : Ending) (s : Session σ) : TeePhase → Prop where
  | reading (chunks : List Bytes) (quiet : s.tee.aborted = false)
      (sent : ∀ side, s.sent side = chunks.map .chunk)
      (total : s.tee.total = chunks.flatten.length)
      (data : d = chunks.flatten ++ content s.tee.source) (ends : ending s.tee.source = e) :
      Stands ready d e s .reading
  | toFirst (chunks : List Bytes) (m : Message) (more : Bytes) (quiet : s.tee.aborted = false)
      (sent : ∀ side, s.sent side = chunks.map .chunk)
      (total : s.tee.total = chunks.flatten.length) (data : d = chunks.flatten ++ more)
      (promises : Promises ready e s.tee.source more m) :
      Stands ready d e s (.sending .first m)
  | toSecond (chunks : List Bytes) (m : Message) (more : Bytes) (quiet : s.tee.aborted = false)
      (sent_first : s.sent .first = chunks.map .chunk ++ [m] ∨
        ∃ x, m = .failure x ∧ s.Told .first chunks x)
      (sent_second : s.sent .second = chunks.map .chunk)
      (total : s.tee.total = chunks.flatten.length) (data : d = chunks.flatten ++ more)
      (promises : Promises ready e s.tee.source more m) :
      Stands ready d e s (.sending .second m)
  | finished (chunks : List Bytes) (quiet : s.tee.aborted = false)
      (sent : ∀ side, s.sent side = chunks.map .chunk) (data : d = chunks.flatten)
      (clean : e = none) (ended : CanEnd ready) : Stands ready d e s (.exited (.ok d.length))
  | failed (chunks : List Bytes) (x : IoError) (quiet : s.tee.aborted = false)
      (told : ∀ side, s.Told side chunks x) (data : d = chunks.flatten) (broken : e = some x)
      (ended : CanEnd ready) : Stands ready d e s (.exited (.error (.stream x)))
  | crashed (quiet : s.tee.aborted = false) (sent : ∀ side, s.sent side = []) (data : d = [])
      (clean : e = none) (unbuffered : ¬Tee.Bufferable s.tee.buffer) :
      Stands ready d e s (.exited (.error .crashed))
  | torn (aborted : s.tee.aborted = true) (some : s.tee.someDropped = true)
      (sent : ∀ side, ∃ chunks : List Bytes, s.sent side = chunks.map .chunk ∧ chunks.flatten <+: d) :
      Stands ready d e s (.exited (.error (.stream (.fault .siblingClosed))))

/-- Whether the stream that passes a tee can come to its end: the source can, or
    nothing is read of it. -/
def CanFinish (ready : σ → Bool) (s : Session σ) : Prop :=
  CanEnd ready ∨ ¬Tee.Bufferable s.tee.buffer

/-- The books of a tee that gives `d` and ends with `e`. -/
structure Accounted (ready : σ → Bool) (d : Bytes) (e : Ending) (s : Session σ) : Prop where
  buffer_pos : 0 < s.tee.buffer
  stands : s.Stands ready d e s.tee.phase
  books : ∀ side, Books d e (s.CanFinish ready) ((s.tee.output side.other).dropped = true)
    (s.tee.result?.isSome = true) (s.tee.output side) (s.reception side)

/-- What passes a tee over a source: its bytes, if the producer has its buffer. -/
def passed (source : σ) (buffer : Nat) : Bytes :=
  if Tee.Bufferable buffer then content source else []

/-- How what passes a tee ends. -/
def passedEnd (source : σ) (buffer : Nat) : Ending :=
  if Tee.Bufferable buffer then ending source else none

omit [ByteReader σ] [ReaderView σ] in
theorem bufferable_start (source : σ) (buffer : Nat) :
    Tee.Bufferable (start source buffer).tee.buffer ↔ Tee.Bufferable buffer := by
  show max 1 buffer ≤ _ ↔ buffer ≤ _
  omega

theorem stands_start (ready : σ → Bool) (source : σ) (buffer : Nat) :
    (start source buffer).Stands ready (passed source buffer) (passedEnd source buffer)
      (start source buffer).tee.phase := by
  have hsent : ∀ side, (start source buffer).sent side = [] := fun side => by cases side <;> rfl
  rw [passed, passedEnd]
  by_cases hbuffer : Tee.Bufferable buffer
  · have hphase : (start source buffer).tee.phase = .reading := if_pos hbuffer
    rw [if_pos hbuffer, if_pos hbuffer, hphase]
    exact .reading [] rfl hsent rfl rfl rfl
  · have hphase : (start source buffer).tee.phase = .exited (.error .crashed) := if_neg hbuffer
    rw [if_neg hbuffer, if_neg hbuffer, hphase]
    exact .crashed rfl hsent rfl rfl (mt (bufferable_start source buffer).mp hbuffer)

theorem accounted_start (ready : σ → Bool) (source : σ) (buffer : Nat) :
    (start source buffer).Accounted ready (passed source buffer) (passedEnd source buffer) where
  buffer_pos := Nat.lt_of_lt_of_le Nat.zero_lt_one (Nat.le_max_left 1 buffer)
  stands := stands_start ready source buffer
  books side := by
    constructor
    case short => cases side <;> exact Nat.zero_le 1
    case solid => cases side <;> exact List.not_mem_nil
    case given => cases side <;> rfl
    case rest => cases side <;> exact fun h => absurd rfl h
    case active => cases side <;> exact fun _ => rfl
    case spent => cases side <;> exact fun _ => rfl
    case halted => cases side <;> exact fun h => absurd rfl h
    case course => cases side <;> exact .going fun _ h => nomatch h
    case closed => cases side <;> exact fun h => nomatch h

/-! ## What the books say -/

variable {ready : σ → Bool} {d : Bytes} {e : Ending} {s : Session σ} {phase : TeePhase}

/-- The bytes that were put into a channel are the first ones of the source. -/
theorem Stands.prefix_sent (h : s.Stands ready d e phase) (side : Side) :
    chunkBytes (s.sent side) <+: d := by
  have hfirst : ∀ {chunks : List Bytes} {more : Bytes}, s.sent side = chunks.map .chunk →
      d = chunks.flatten ++ more → chunkBytes (s.sent side) <+: d := by
    intro chunks more hsent hdata
    rw [hsent, chunkBytes_map, hdata]
    exact List.prefix_append _ _
  have htold : ∀ {chunks : List Bytes} {x : IoError}, s.Told side chunks x →
      d = chunks.flatten → chunkBytes (s.sent side) <+: d := by
    rintro chunks x (hsent | ⟨-, hsent⟩) hdata
    · have hlast : chunkBytes [Message.failure x] = [] := rfl
      exact ⟨[], by rw [hsent, chunkBytes_chunks, hdata, hlast, List.append_nil, List.append_nil]⟩
    · exact ⟨[], by rw [hsent, chunkBytes_map, hdata, List.append_nil]⟩
  cases h with
  | reading chunks quiet sent total data ends => exact hfirst (sent side) data
  | toFirst chunks m more quiet sent total data promises => exact hfirst (sent side) data
  | toSecond chunks m more quiet sent_first sent_second total data promises =>
      cases side with
      | second => exact hfirst sent_second data
      | first =>
          cases m with
          | chunk bytes =>
              rcases sent_first with hsent | ⟨x, hm, -⟩
              · obtain ⟨-, hmore, -⟩ := promises
                rw [hsent, chunkBytes_chunks, data, hmore]
                refine (List.prefix_append_right_inj _).mpr ?_
                exact (List.prefix_append_right_inj bytes).mpr List.nil_prefix
              · cases hm
          | failure x =>
              obtain ⟨hmore, -⟩ := promises
              rw [hmore, List.append_nil] at data
              rcases sent_first with hsent | ⟨x', -, hsent⟩
              · exact htold (Or.inl hsent) data
              · exact htold hsent data
  | finished chunks quiet sent data clean ended =>
      exact hfirst (sent side) (data.trans (List.append_nil _).symm)
  | failed chunks x quiet told data broken ended => exact htold (told side) data
  | crashed quiet sent data clean unbuffered =>
      rw [sent side]
      exact List.nil_prefix
  | torn aborted some sent =>
      obtain ⟨chunks, hsent, hprefix⟩ := sent side
      rw [hsent, chunkBytes_map]
      exact hprefix

/-- A failure in a channel is that of the source, and comes after all bytes. -/
theorem Stands.of_failure (h : s.Stands ready d e phase) {side : Side} {x : IoError}
    (hx : Message.failure x ∈ s.sent side) :
    ∃ chunks : List Bytes, s.sent side = chunks.map .chunk ++ [.failure x] ∧ d = chunks.flatten ∧
      e = some x ∧ CanEnd ready := by
  have hnone : ∀ {chunks : List Bytes}, s.sent side ≠ chunks.map .chunk := by
    intro chunks hsent
    rw [hsent] at hx
    exact failure_not_mem_map chunks x hx
  have hlast : ∀ {chunks : List Bytes} {m : Message}, s.sent side = chunks.map .chunk ++ [m] →
      m = .failure x := by
    intro chunks m hsent
    rw [hsent] at hx
    rcases List.mem_append.mp hx with hx | hx
    · exact absurd hx (failure_not_mem_map chunks x)
    · exact (List.mem_singleton.mp hx).symm
  cases h with
  | reading chunks quiet sent => exact absurd (sent side) hnone
  | toFirst chunks m more quiet sent => exact absurd (sent side) hnone
  | toSecond chunks m more quiet sent_first sent_second total data promises =>
      cases side with
      | second => exact absurd sent_second hnone
      | first =>
          have hsent : s.sent .first = chunks.map .chunk ++ [m] := by
            rcases sent_first with hsent | ⟨x', rfl, hsent | ⟨-, hsent⟩⟩
            · exact hsent
            · exact hsent
            · exact absurd hsent hnone
          cases hlast hsent
          obtain ⟨hmore, he, hends⟩ := promises
          rw [hmore, List.append_nil] at data
          exact ⟨chunks, hsent, data, he, hends⟩
  | finished chunks quiet sent => exact absurd (sent side) hnone
  | failed chunks x' quiet told data broken ended =>
      rcases told side with hsent | ⟨-, hsent⟩
      · cases hlast hsent
        exact ⟨chunks, hsent, data, broken, ended⟩
      · exact absurd hsent hnone
  | crashed quiet sent => exact absurd (sent side) (@hnone [])
  | torn aborted some sent =>
      obtain ⟨chunks, hsent, -⟩ := sent side
      exact absurd hsent hnone

/-- A stream is cut short only if an output was dropped. -/
theorem Stands.someDropped (h : s.Stands ready d e phase) (haborted : s.tee.aborted = true) :
    s.tee.someDropped = true := by
  cases h with
  | torn aborted some sent => exact some
  | reading _ quiet | toFirst _ _ _ quiet | toSecond _ _ _ quiet | finished _ quiet
  | failed _ _ quiet | crashed quiet => cases quiet.symm.trans haborted

/-- What was delivered is the beginning of the source. -/
theorem Accounted.prefix_bytes (h : s.Accounted ready d e) (side : Side) :
    (s.reception side).bytes <+: d := by
  have hgiven : (s.reception side).bytes <+: chunkBytes (s.reception side).received := by
    rw [← (h.books side).given]
    exact List.prefix_append _ _
  exact (hgiven.trans (chunkBytes_prefix_append _ _)).trans (h.stands.prefix_sent side)

/-! ## Steps of the producer -/

omit [ByteReader σ] [ReaderView σ] in
theorem sent_of_output {t : Tee σ} {side : Side} (h : t.output side = s.tee.output side) :
    ({ s with tee := t } : Session σ).sent side = s.sent side := by
  rw [sent, h, sent]

/-- A message that is being sent is no empty chunk. -/
theorem Stands.solid {side : Side} {m : Message} (h : s.Stands ready d e (.sending side m)) :
    m ≠ .chunk [] := by
  rintro rfl
  cases h with
  | toFirst chunks m more quiet sent total data promises => exact promises.1 rfl
  | toSecond chunks m more quiet sent_first sent_second total data promises => exact promises.1 rfl

theorem Stands.noticed (h : s.Stands ready d e .reading) (some : s.tee.someDropped = true) :
    Stands ready d e { s with tee := s.tee.abort } s.tee.abort.phase := by
  cases h with
  | reading chunks quiet sent total data ends =>
      refine .torn rfl some fun side => ⟨chunks, ?_, ?_⟩
      · rw [sent_of_output (Tee.output_abort ..), sent side]
      · rw [data]
        exact List.prefix_append _ _

theorem Stands.sourceRead (h : s.Stands ready d e .reading) (hbuffer : 0 < s.tee.buffer)
    (hready : ready s.tee.source = true) :
    Stands ready d e { s with tee := s.tee.readSource } s.tee.readSource.phase := by
  cases h with
  | reading chunks quiet sent total data ends =>
      have hsent : ∀ {t : Tee σ}, (∀ side, t.output side = s.tee.output side) → ∀ side,
          ({ s with tee := t } : Session σ).sent side = chunks.map .chunk :=
        fun ht side => (sent_of_output (ht side)).trans (sent side)
      rcases s.tee.readSource_cases hbuffer with ⟨x, source, hu, hc, he⟩ | ⟨source, hu, hc, he⟩
        | ⟨bytes, source, hne, hu, hc, he, -⟩
      · rw [hu]
        refine .toFirst chunks (.failure x) [] quiet (hsent ?_) total (hc ▸ data) ?_
        · exact fun side => by cases side <;> rfl
        · exact ⟨rfl, ends.symm.trans he, s.tee.source, hc, hready⟩
      · rw [hc, List.append_nil] at data
        rw [hu, total, ← data]
        refine .finished chunks quiet (hsent ?_) data (ends.symm.trans he)
          ⟨s.tee.source, hc, hready⟩
        exact fun side => by cases side <;> rfl
      · rw [hu]
        refine .toFirst chunks (.chunk bytes) _ quiet (hsent ?_) total data ?_
        · exact fun side => by cases side <;> rfl
        · exact ⟨hne, hc, he.trans ends⟩

theorem Stands.refused {target : Side} {chunk : Bytes}
    (h : s.Stands ready d e (.sending target (.chunk chunk)))
    (dropped : (s.tee.output target).dropped = true) :
    Stands ready d e { s with tee := s.tee.abort } s.tee.abort.phase := by
  refine .torn rfl (Tee.someDropped_of dropped : s.tee.someDropped = true) fun side => ?_
  rw [sent_of_output (Tee.output_abort ..)]
  cases h with
  | toFirst chunks _ more quiet sent total data promises =>
      refine ⟨chunks, sent side, ?_⟩
      rw [data]
      exact List.prefix_append _ _
  | toSecond chunks _ more quiet sent_first sent_second total data promises =>
      cases side with
      | second =>
          refine ⟨chunks, sent_second, ?_⟩
          rw [data]
          exact List.prefix_append _ _
      | first =>
          -- the chunk that the second output does not get any more is in the first one's channel
          rcases sent_first with hsent | ⟨x, hm, -⟩
          · obtain ⟨-, hmore, -⟩ := promises
            refine ⟨chunks ++ [chunk], ?_, ?_⟩
            · rw [hsent, List.map_append]
              rfl
            · rw [data, hmore, List.flatten_append, List.flatten_singleton]
              refine (List.prefix_append_right_inj _).mpr ?_
              exact List.prefix_append _ _
          · cases hm

theorem Stands.skipped {target : Side} {x : IoError}
    (h : s.Stands ready d e (.sending target (.failure x)))
    (dropped : (s.tee.output target).dropped = true) :
    Stands ready d e { s with tee := s.tee.afterSending target (.failure x) }
      (s.tee.afterSending target (.failure x)).phase := by
  have hsame : ∀ side, ({ s with tee := s.tee.afterSending target (.failure x) } :
      Session σ).sent side = s.sent side := fun side => sent_of_output (Tee.output_afterSending ..)
  have htold : ∀ {side : Side} {chunks : List Bytes}, s.Told side chunks x →
      Told { s with tee := s.tee.afterSending target (.failure x) } side chunks x := by
    intro side chunks h
    rw [Told, hsame, Tee.output_afterSending]
    exact h
  cases h with
  | toFirst chunks _ more quiet sent total data promises =>
      refine .toSecond chunks (.failure x) more quiet ?_ ?_ total data promises
      · exact Or.inr ⟨x, rfl, htold (Or.inr ⟨dropped, sent .first⟩)⟩
      · rw [hsame, sent .second]
  | toSecond chunks _ more quiet sent_first sent_second total data promises =>
      obtain ⟨hmore, he, hends⟩ := promises
      rw [hmore, List.append_nil] at data
      refine .failed chunks x quiet (fun side => htold ?_) data he hends
      cases side with
      | second => exact Or.inr ⟨dropped, sent_second⟩
      | first =>
          rcases sent_first with hsent | ⟨_, hm, hsent⟩
          · exact Or.inl hsent
          · cases hm
            exact hsent

theorem Stands.pushed {target : Side} {m : Message}
    (h : s.Stands ready d e (.sending target m)) :
    Stands ready d e { s with tee := (s.tee.push target m).afterSending target m }
      ((s.tee.push target m).afterSending target m).phase := by
  have hself : ({ s with tee := (s.tee.push target m).afterSending target m } :
      Session σ).sent target = s.sent target ++ [m] := by
    rw [sent, sent, Tee.output_afterSending, Tee.output_push, List.append_assoc]
  have hother : ∀ side, side ≠ target →
      ({ s with tee := (s.tee.push target m).afterSending target m } : Session σ).sent side
        = s.sent side := by
    intro side hne
    refine sent_of_output ?_
    rw [Tee.output_afterSending, Tee.output_push_of_ne _ _ hne]
  cases h with
  | toFirst chunks _ more quiet sent total data promises =>
      refine .toSecond chunks m more quiet (Or.inl ?_) ?_ total data promises
      · rw [hself, sent .first]
      · rw [hother .second nofun, sent .second]
  | toSecond chunks _ more quiet sent_first sent_second total data promises =>
      cases m with
      | chunk bytes =>
          obtain ⟨-, hmore, hends⟩ := promises
          have hfirst : s.sent .first = chunks.map .chunk ++ [.chunk bytes] := by
            rcases sent_first with hsent | ⟨_, hm, -⟩
            · exact hsent
            · cases hm
          refine .reading (chunks ++ [bytes]) quiet (fun side => ?_) ?_ ?_ hends
          · rw [List.map_append]
            cases side with
            | first => rw [hother .first nofun, hfirst]; rfl
            | second => rw [hself, sent_second]; rfl
          · rw [List.flatten_append, List.flatten_singleton, List.length_append, ← total]
            rfl
          · rw [data, hmore, List.flatten_append, List.flatten_singleton, List.append_assoc]
            rfl
      | failure x =>
          obtain ⟨hmore, he, hends⟩ := promises
          rw [hmore, List.append_nil] at data
          refine .failed chunks x quiet (fun side => ?_) data he hends
          cases side with
          | second =>
              refine Or.inl ?_
              rw [hself, sent_second]
          | first =>
              rw [Told, hother .first nofun, Tee.output_afterSending,
                Tee.output_push_of_ne _ _ (nofun : Side.first ≠ .second)]
              rcases sent_first with hsent | ⟨_, hm, hsent⟩
              · exact Or.inl hsent
              · cases hm
                exact hsent

/-- A step of the producer takes the tee from one place where it may stand to
    another. -/
theorem Stands.stepped {u : Tee σ} {watchful : Bool} (h : s.Stands ready d e s.tee.phase)
    (hbuffer : 0 < s.tee.buffer) (hawake : isStalled ready watchful s.tee = false)
    (hstep : s.tee.StepCase watchful u) : Stands ready d e { s with tee := u } u.phase := by
  cases hstep with
  | notice phase alert some =>
      rw [phase] at h
      exact h.noticed some
  | read phase calm =>
      have hready : ready s.tee.source = true := by simpa [isStalled, phase, calm] using hawake
      rw [phase] at h
      exact h.sourceRead hbuffer hready
  | refused phase dropped =>
      rw [phase] at h
      exact h.refused dropped
  | skipped phase dropped =>
      rw [phase] at h
      exact h.skipped dropped
  | sent phase held empty =>
      rw [phase] at h
      exact h.pushed

/-- Whatever the producer does, the books are kept. -/
theorem Accounted.produced (h : s.Accounted ready d e) (watchful : Bool) :
    (s.produce ready watchful).Accounted ready d e := by
  rw [produce]
  by_cases hstalled : isStalled ready watchful s.tee = true
  · rw [if_pos hstalled]
    exact h
  rw [if_neg hstalled]
  cases hstep : s.tee.step watchful with
  | none => exact h
  | some u =>
      have hcase := Tee.step_case hstep
      refine ⟨?_, h.stands.stepped h.buffer_pos (Bool.eq_false_iff.mpr hstalled) hcase, ?_⟩
      · show 0 < u.buffer
        rw [hcase.buffer]
        exact h.buffer_pos
      · intro side
        have hdropped : ((s.tee.output side.other).dropped = true) →
            (u.output side.other).dropped = true := by
          rw [hcase.dropped]
          exact id
        have hdone : s.tee.result?.isSome = true → u.result?.isSome = true := by
          rw [hcase.running]
          intro hnone
          cases hnone
        have hfinish : ({ s with tee := u } : Session σ).CanFinish ready = s.CanFinish ready := by
          rw [CanFinish, CanFinish, hcase.buffer]
        have hbooks := (h.books side).mono hdropped hdone
        rw [hfinish]
        rcases hcase.output side with hsame | ⟨m, hphase, hempty, hqueued⟩
        · rw [hsame]
          exact hbooks
        · have hstands := h.stands
          rw [hphase] at hstands
          obtain ⟨⟨queue, reader, dropped⟩, hout⟩ : ∃ out, s.tee.output side = out := ⟨_, rfl⟩
          rw [hout] at hempty hqueued hbooks
          cases hempty
          show Books d e _ _ _ (u.output side) _
          rw [hqueued]
          exact hbooks.queued hstands.solid

/-! ## What the holders of the outputs do -/

/-- A tee stands where it stood when nothing changes that counts for that. -/
theorem Stands.same (h : s.Stands ready d e phase) {s' : Session σ}
    (aborted : s'.tee.aborted = s.tee.aborted) (buffer : s'.tee.buffer = s.tee.buffer)
    (hcontent : content s'.tee.source = content s.tee.source)
    (hending : ending s'.tee.source = ending s.tee.source)
    (total : s'.tee.total = s.tee.total) (sent : ∀ side, s'.sent side = s.sent side)
    (dropped : ∀ side, (s.tee.output side).dropped = true → (s'.tee.output side).dropped = true) :
    s'.Stands ready d e phase := by
  have told : ∀ {side : Side} {chunks : List Bytes} {x : IoError}, s.Told side chunks x →
      s'.Told side chunks x := by
    intro side chunks x h
    rw [Told, sent side]
    exact h.imp_right fun ⟨hdropped, hsent⟩ => ⟨dropped side hdropped, hsent⟩
  have hpromises : ∀ {more : Bytes} {m : Message}, Promises ready e s.tee.source more m →
      Promises ready e s'.tee.source more m := by
    intro more m h
    cases m with
    | failure x => exact h
    | chunk bytes => exact ⟨h.1, hcontent ▸ h.2.1, hending.trans h.2.2⟩
  cases h with
  | reading chunks quiet hsent htotal data ends =>
      exact .reading chunks (aborted.trans quiet) (fun side => (sent side).trans (hsent side))
        (total.trans htotal) (hcontent ▸ data) (hending.trans ends)
  | toFirst chunks m more quiet hsent htotal data promises =>
      exact .toFirst chunks m more (aborted.trans quiet)
        (fun side => (sent side).trans (hsent side)) (total.trans htotal) data (hpromises promises)
  | toSecond chunks m more quiet sent_first sent_second htotal data promises =>
      refine .toSecond chunks m more (aborted.trans quiet) ?_ ((sent .second).trans sent_second)
        (total.trans htotal) data (hpromises promises)
      rcases sent_first with hsent | ⟨x, hm, hsent⟩
      · exact Or.inl ((sent .first).trans hsent)
      · exact Or.inr ⟨x, hm, told hsent⟩
  | finished chunks quiet hsent data clean ended =>
      exact .finished chunks (aborted.trans quiet) (fun side => (sent side).trans (hsent side)) data
        clean ended
  | failed chunks x quiet htold data broken ended =>
      exact .failed chunks x (aborted.trans quiet) (fun side => told (htold side)) data broken ended
  | crashed quiet hsent data clean unbuffered =>
      exact .crashed (aborted.trans quiet) (fun side => (sent side).trans (hsent side)) data clean
        (buffer ▸ unbuffered)
  | torn haborted some hsent =>
      refine .torn (aborted.trans haborted) ?_ fun side => ?_
      · rcases Bool.or_eq_true_iff.mp some with hfirst | hsecond
        · exact Tee.someDropped_of (dropped .first hfirst)
        · exact Tee.someDropped_of (dropped .second hsecond)
      · rw [sent side]
        exact hsent side

/-- What is done to one output keeps the books if it keeps those of that output. -/
theorem Accounted.updated (h : s.Accounted ready d e) {side : Side} {out : Output} {r : Reception}
    (hdropped : (s.tee.output side).dropped = true → out.dropped = true)
    (hsent : r.received ++ out.queue = s.sent side)
    (hbooks : Books d e (s.CanFinish ready) ((s.tee.output side.other).dropped = true)
      (s.tee.result?.isSome = true) out r) :
    (s.update side out r).Accounted ready d e := by
  have hmore : ∀ other, (s.tee.output other).dropped = true →
      ((s.update side out r).tee.output other).dropped = true :=
    s.update_elim side out r
      (fun other o _ => (s.tee.output other).dropped = true → o.dropped = true) hdropped
      (fun _ _ hother => hother)
  have hsame : ∀ other, (s.update side out r).sent other = s.sent other :=
    s.update_elim side out r (fun other o r => r.received ++ o.queue = s.sent other) hsent
      (fun _ _ => rfl)
  have hfinish : (s.update side out r).CanFinish ready = s.CanFinish ready := by
    rw [CanFinish, CanFinish, buffer_update]
  refine ⟨?_, ?_, fun other => hfinish ▸ ?_⟩
  · rw [buffer_update]
    exact h.buffer_pos
  · rw [phase_update]
    exact h.stands.same (aborted_update ..) (buffer_update ..) (congrArg content (source_update ..))
      (congrArg ending (source_update ..)) (total_update ..) hsame hmore
  · by_cases hs : other = side
    · subst hs
      rw [output_update, reception_update, result_update,
        output_update_of_ne _ _ _ _ other.other_ne]
      exact hbooks
    · rw [output_update_of_ne _ _ _ _ hs, reception_update_of_ne _ _ _ _ hs, result_update]
      exact (h.books other).mono (hmore other.other) id

theorem Accounted.closed (h : s.Accounted ready d e) (side : Side) :
    (s.close side).Accounted ready d e := by
  rw [close]
  by_cases hdone : s.tee.result?.isSome = true
  · rw [if_pos hdone]
    refine h.updated id rfl ?_
    exact { h.books side with closed := fun _ => hdone }
  · rw [if_neg hdone]
    exact h

theorem Accounted.dropped (h : s.Accounted ready d e) (side : Side) :
    ({ s with tee := s.tee.drop side } : Session σ).Accounted ready d e := by
  have hupdate : ({ s with tee := s.tee.drop side } : Session σ)
      = s.update side { s.tee.output side with dropped := true } (s.reception side) := by
    rw [update, Function.update_eq_self, Tee.drop]
  rw [hupdate]
  refine h.updated (fun _ => rfl) rfl ?_
  exact { h.books side with }

/-- How a tee that is done and was not cut short gave all of its source to an
    output that has nothing before it and saw no failure. -/
theorem Accounted.all_of_done (h : s.Accounted ready d e) {side : Side}
    (hdone : s.tee.result?.isSome = true) (hquiet : s.tee.aborted = false)
    (hheld : (s.tee.output side).dropped = false) (hempty : (s.tee.output side).queue = [])
    (hactive : (s.tee.output side).reader.state = .active) :
    chunkBytes (s.reception side).received = d ∧ e = none ∧ s.CanFinish ready := by
  have hsent : s.sent side = (s.reception side).received := by
    rw [sent, hempty, List.append_nil]
  have hstands := h.stands
  obtain ⟨result, hphase⟩ : ∃ result, s.tee.phase = .exited result := by
    obtain ⟨result, hresult⟩ := Option.isSome_iff_exists.mp hdone
    exact ⟨result, Tee.phase_of_result? hresult⟩
  rw [hphase] at hstands
  cases hstands with
  | finished chunks quiet sent data clean ended =>
      refine ⟨?_, clean, Or.inl ended⟩
      rw [← hsent, sent side, chunkBytes_map, data]
  | crashed quiet sent data clean unbuffered =>
      refine ⟨?_, clean, Or.inr unbuffered⟩
      rw [← hsent, sent side, data]
      rfl
  | failed chunks x quiet told data broken ended =>
      rcases told side with htold | ⟨hdropped, -⟩
      · have hnone := (h.books side).active hactive
        rw [← hsent, htold, failure?_chunks] at hnone
        cases hnone
      · cases hheld.symm.trans hdropped
  | torn aborted some sent => cases hquiet.symm.trans aborted

/-- All that a read can come to when the books are right. -/
theorem Accounted.read_case (h : s.Accounted ready d e) (side : Side) (room : Nat) :
    ReadCase s side room (s.read side room).1 (s.read side room).2 :=
  s.read_case side room (h.books side).short
    fun hmem => (h.books side).solid (List.mem_append_right _ hmem)

/-- A read keeps the books, whatever it comes to. -/
theorem Accounted.read (h : s.Accounted ready d e) {side : Side} (room : Nat)
    (hheld : (s.tee.output side).dropped = false) :
    (s.read side room).2.Accounted ready d e := by
  have hbooks := h.books side
  have hcase := h.read_case side room
  generalize s.read side room = pair at hcase
  obtain ⟨result, s'⟩ := pair
  cases hcase with
  | rest hout =>
      rw [hout] at hbooks
      exact h.updated (by rw [hout]; exact id) (by rw [sent, hout]) (hbooks.rested room)
  | ended hout =>
      rw [hout] at hbooks
      exact h.updated (by rw [hout]; exact id) (by rw [sent, hout])
        (hbooks.overread room rfl nofun (hbooks.halted nofun) (hbooks.course.again room))
  | failed hout =>
      rw [hout] at hbooks
      exact h.updated (by rw [hout]; exact id) (by rw [sent, hout])
        (hbooks.overread room rfl nofun (hbooks.halted nofun) (hbooks.course.still room))
  | waits hout hclosed => exact h
  | cut hout hclosed habort =>
      have hdone := hbooks.closed hclosed
      have hother := Tee.other_dropped (h.stands.someDropped habort) hheld
      rw [hout] at hbooks
      refine h.updated (by rw [hout]; exact id) (by rw [sent, hout])
        (hbooks.overread room rfl nofun (Or.inl hdone) ?_)
      exact .cut hbooks.course.flows (fun _ hr => nomatch hr) hother
  | ends hout hclosed hquiet =>
      have hdone := hbooks.closed hclosed
      obtain ⟨hall, hclean, hends⟩ := h.all_of_done hdone hquiet hheld (by rw [hout]) (by rw [hout])
      rw [hout] at hbooks
      have hbytes : (s.reception side).bytes = d :=
        ((List.append_nil _).symm.trans hbooks.given).trans hall
      refine h.updated (by rw [hout]; exact id) (by rw [sent, hout])
        (hbooks.overread room rfl nofun (Or.inl hdone) ?_)
      exact .complete hbooks.course.flows
        (fun r hr => by rw [List.mem_singleton.mp hr]) hbytes hclean hends
  | chunk hout =>
      rw [hout] at hbooks
      refine h.updated (by rw [hout]; exact id) ?_ (hbooks.chunked room)
      rw [sent, hout, List.append_nil]
  | @failure x dropped hout =>
      have hsent : s.sent side = (s.reception side).received ++ [.failure x] := by rw [sent, hout]
      obtain ⟨chunks, hchunks, hdata, hbroken, hends⟩ := h.stands.of_failure
        (hsent ▸ List.mem_append_right _ (List.mem_singleton_self _))
      have hall : chunkBytes (s.reception side).received = d := by
        rw [List.append_cancel_right (hsent.symm.trans hchunks), chunkBytes_map, hdata]
      rw [hout] at hbooks
      refine h.updated (by rw [hout]; exact id) ?_ (hbooks.failed room hall hbroken (Or.inl hends))
      rw [sent, hout, List.append_nil]

/-! ## Any actions -/

theorem Accounted.performed (h : s.Accounted ready d e) (a : TeeAction) :
    (s.perform ready a).Accounted ready d e := by
  cases a with
  | produce watchful => exact h.produced watchful
  | close side => exact h.closed side
  | drop side => exact h.dropped side
  | read side room =>
      rw [perform]
      by_cases hdropped : (s.tee.output side).dropped = true
      · rw [if_pos hdropped]
        exact h
      · rw [if_neg hdropped]
        exact h.read room (Bool.eq_false_iff.mpr hdropped)

/-- The books are right whatever was done, in whatever order. -/
theorem accounted_after (ready : σ → Bool) (source : σ) (buffer : Nat) (actions : List TeeAction) :
    ((start source buffer).after ready actions).Accounted ready (passed source buffer)
      (passedEnd source buffer) :=
  after_keeps (P := fun s => s.Accounted ready (passed source buffer) (passedEnd source buffer))
    (fun _ a h => h.performed a) actions (accounted_start ready source buffer)

omit [ReaderView σ] in
/-- Whether the producer has its buffer is settled at the start. -/
theorem bufferable_after (ready : σ → Bool) (source : σ) (buffer : Nat)
    (actions : List TeeAction) :
    Tee.Bufferable ((start source buffer).after ready actions).tee.buffer ↔
      Tee.Bufferable buffer :=
  after_keeps (P := fun s => Tee.Bufferable s.tee.buffer ↔ Tee.Bufferable buffer)
    (fun s a h => by rw [buffer_perform ready s a, h]) actions (bufferable_start source buffer)

omit [ReaderView σ] in
/-- A producer without a buffer has crashed, whatever was done since. -/
theorem crashed_after (ready : σ → Bool) (source : σ) {buffer : Nat}
    (hbuffer : ¬Tee.Bufferable buffer) (actions : List TeeAction) :
    ((start source buffer).after ready actions).tee.phase = .exited (.error .crashed) :=
  after_keeps (P := fun s => s.tee.phase = .exited (.error .crashed))
    (fun _ a h => exited_perform ready a h) actions (if_neg hbuffer)

/-- Nothing was put into the channels of a tee whose producer crashed. -/
theorem Accounted.unsent_of_crashed (h : s.Accounted ready d e)
    (hphase : s.tee.phase = .exited (.error .crashed)) (side : Side) : s.sent side = [] := by
  have hstands := h.stands
  rw [hphase] at hstands
  cases hstands with
  | crashed quiet sent => exact sent side

end Session

end ContentVault
