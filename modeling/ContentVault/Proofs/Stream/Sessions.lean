import ContentVault.Proofs.Stream.Split
import Mathlib.Logic.Function.Basic

/-! # A tee at work

    The producer of a tee and the holders of its outputs act independently of
    each other.  A `Session` is a tee together with what each output was given
    so far; an `Action` is what one of the parties does next, and a list of
    actions is one way in which the parties may take turns.  The source may
    have nothing to give for a while or for ever: which of its states are
    `ready` is a parameter.  When the producer is done, the sending ends of the
    two channels go away one after the other, and a reader that has nothing to
    read waits until its own is gone. -/

namespace ContentVault

open ByteReader ReaderView Outlet

theorem OutletState.ended_ne_active : OutletState.ended ≠ .active := by decide

theorem OutletState.failed_ne_active : OutletState.failed ≠ .active := by decide

/-! ## Sessions -/

/-- The other output. -/
def Side.other : Side → Side
  | .first => .second
  | .second => .first

theorem Side.other_ne (side : Side) : side.other ≠ side := by cases side <;> exact nofun

theorem Side.other_other (side : Side) : side.other.other = side := by cases side <;> rfl

theorem Side.eq_other {target side : Side} (h : target ≠ side) : target = side.other := by
  cases target <;> cases side
  · exact absurd rfl h
  · rfl
  · rfl
  · exact absurd rfl h

/-- What an output was given so far. -/
structure Reception where
  /-- The messages that were taken out of its channel, oldest first. -/
  received : List Message := []
  /-- The reads that did not have to wait, oldest first: the room that each of
      them had, and what it came to. -/
  reads : List (Nat × ReadResult) := []
  /-- Whether the sending end of the channel is gone. -/
  closed : Bool := false

namespace Reception

/-- The bytes that reads gave. -/
def bytesOf (reads : List (Nat × ReadResult)) : Bytes :=
  (reads.map fun r => given (some r.2)).flatten

/-- The bytes that were delivered. -/
def bytes (r : Reception) : Bytes := bytesOf r.reads

/-- How many messages were taken out of the channel. -/
def taken (r : Reception) : Nat := r.received.length

/-- Whether a read with room for something gave nothing, which means the end. -/
def SawEnd (r : Reception) : Prop := ∃ room, room ≠ 0 ∧ (room, .ok []) ∈ r.reads

/-- The failure that one of the reads reported first. -/
def failureOf (reads : List (Nat × ReadResult)) : Ending :=
  reads.findSome? fun read => match read.2 with
    | .error e => some e
    | .ok _ => none

/-- The failure that was reported first. -/
def failure? (r : Reception) : Ending := failureOf r.reads

/-- Whether the holder was told that nothing more will come. -/
def IsOver (r : Reception) : Prop := r.SawEnd ∨ r.failure? ≠ none

/-- What a holder was told, it knows later. -/
theorem IsOver.mono {r r' : Reception} (h : r.IsOver) (hreads : r.reads <+: r'.reads) :
    r'.IsOver := by
  obtain ⟨more, hmore⟩ := hreads
  rcases h with ⟨room, hroom, hend⟩ | hfailure
  · exact Or.inl ⟨room, hroom, hmore ▸ List.mem_append_left more hend⟩
  · refine Or.inr fun hnone => hfailure ?_
    rw [failure?, failureOf, ← hmore, List.findSome?_append, Option.or_eq_none_iff] at hnone
    exact hnone.1

end Reception

/-- What one of the parties does next. -/
inductive TeeAction where
  /-- The producer makes a step.  If an output was dropped, it may notice that
      before it reads on: `watchful` says so. -/
  | produce (watchful : Bool)
  /-- A sending end goes away. -/
  | close (side : Side)
  | read (side : Side) (room : Nat)
  | drop (side : Side)
deriving DecidableEq, Repr

/-- A tee at work. -/
structure Session (σ : Type) where
  tee : Tee σ
  reception : Side → Reception := fun _ => {}

namespace Session

variable {σ : Type}

/-- The messages that were put into a channel, oldest first: those that were
    taken out and those that wait. -/
def sent (s : Session σ) (side : Side) : List Message :=
  (s.reception side).received ++ (s.tee.output side).queue

/-- Replaces an output and what it was given. -/
def update (s : Session σ) (side : Side) (out : Output) (r : Reception) : Session σ where
  tee := s.tee.setOutput side out
  reception := Function.update s.reception side r

/-- Reads once from an output.  Gives nothing when the reader has to wait. -/
def read (s : Session σ) (side : Side) (room : Nat) : Option ReadResult × Session σ :=
  let out := s.tee.output side
  let r := s.reception side
  let (result, reader, box) := out.reader.read ⟨out.queue, r.closed, s.tee.aborted⟩ room
  (result, s.update side { out with reader, queue := box.queue }
    { r with
      received := r.received ++ out.queue.take (out.queue.length - box.queue.length)
      reads := r.reads ++ (result.map fun x => (room, x)).toList })

/-- A sending end goes away, if the producer is done. -/
def close (s : Session σ) (side : Side) : Session σ :=
  if s.tee.result?.isSome then
    s.update side (s.tee.output side) { s.reception side with closed := true }
  else s

variable [ByteReader σ]

/-- Whether the producer can do nothing but wait for the source. -/
def isStalled (ready : σ → Bool) (watchful : Bool) (t : Tee σ) : Bool :=
  match t.phase with
  | .reading => !(watchful && t.someDropped) && !ready t.source
  | _ => false

/-- The producer makes a step, if it can. -/
def produce (ready : σ → Bool) (watchful : Bool) (s : Session σ) : Session σ :=
  if isStalled ready watchful s.tee then s
  else
    match s.tee.step watchful with
    | some tee => { s with tee }
    | none => s

/-- What an action does.  What cannot be done now is left undone. -/
def perform (ready : σ → Bool) (s : Session σ) : TeeAction → Session σ
  | .produce watchful => s.produce ready watchful
  | .close side => s.close side
  | .read side room => if (s.tee.output side).dropped then s else (s.read side room).2
  | .drop side => { s with tee := s.tee.drop side }

/-- What actions do, one after the other. -/
def after (ready : σ → Bool) (s : Session σ) (actions : List TeeAction) : Session σ :=
  actions.foldl (perform ready) s

omit [ByteReader σ] in
/-- A tee that has not started, and nothing was given. -/
def start (source : σ) (buffer : Nat) : Session σ := { tee := .ofSource source buffer }

@[simp] theorem after_nil (ready : σ → Bool) (s : Session σ) : s.after ready [] = s := rfl

@[simp] theorem after_cons (ready : σ → Bool) (s : Session σ) (a : TeeAction)
    (actions : List TeeAction) :
    s.after ready (a :: actions) = (s.perform ready a).after ready actions := rfl

theorem after_append (ready : σ → Bool) (s : Session σ) (before later : List TeeAction) :
    s.after ready (before ++ later) = (s.after ready before).after ready later :=
  List.foldl_append

/-- What every action keeps, any actions keep. -/
theorem after_keeps {ready : σ → Bool} {P : Session σ → Prop}
    (hstep : ∀ s a, P s → P (s.perform ready a)) (actions : List TeeAction) {s : Session σ}
    (h : P s) : P (s.after ready actions) := by
  induction actions generalizing s with
  | nil => exact h
  | cons a actions ih => exact ih (hstep s a h)

/-! ## Replacing an output -/

omit [ByteReader σ]

section

variable (s : Session σ) (side : Side) (out : Output) (r : Reception)

@[simp] theorem output_update : (s.update side out r).tee.output side = out :=
  Tee.output_setOutput ..

@[simp] theorem reception_update : (s.update side out r).reception side = r :=
  Function.update_self ..

theorem output_update_of_ne {other : Side} (h : other ≠ side) :
    (s.update side out r).tee.output other = s.tee.output other :=
  Tee.output_setOutput_of_ne _ _ h

theorem reception_update_of_ne {other : Side} (h : other ≠ side) :
    (s.update side out r).reception other = s.reception other :=
  Function.update_of_ne h ..

/-- What the new output and what it was given satisfy, and the other ones as
    they were, all of them satisfy. -/
theorem update_elim (P : Side → Output → Reception → Prop) (hself : P side out r)
    (hother : ∀ other, other ≠ side → P other (s.tee.output other) (s.reception other))
    (other : Side) :
    P other ((s.update side out r).tee.output other) ((s.update side out r).reception other) := by
  by_cases hs : other = side
  · subst hs
    rw [output_update, reception_update]
    exact hself
  · rw [output_update_of_ne _ _ _ _ hs, reception_update_of_ne _ _ _ _ hs]
    exact hother other hs

@[simp] theorem phase_update : (s.update side out r).tee.phase = s.tee.phase :=
  Tee.phase_setOutput ..

@[simp] theorem aborted_update : (s.update side out r).tee.aborted = s.tee.aborted := by
  cases side <;> rfl

@[simp] theorem source_update : (s.update side out r).tee.source = s.tee.source := by
  cases side <;> rfl

@[simp] theorem total_update : (s.update side out r).tee.total = s.tee.total := by
  cases side <;> rfl

@[simp] theorem buffer_update : (s.update side out r).tee.buffer = s.tee.buffer := by
  cases side <;> rfl

@[simp] theorem result_update : (s.update side out r).tee.result? = s.tee.result? := by
  cases side <;> rfl

theorem update_self : s.update side (s.tee.output side) (s.reception side) = s := by
  rw [update, Tee.setOutput_self rfl, Function.update_eq_self]

end

/-! ## What a read does -/

/-- A read is from one output, and adds to what that gave. -/
theorem read_eq_update (s : Session σ) (side : Side) (room : Nat) :
    ∃ out r, (s.read side room).2 = s.update side out r ∧
      out.dropped = (s.tee.output side).dropped ∧ (s.reception side).reads <+: r.reads :=
  ⟨_, _, rfl, rfl, List.prefix_append _ _⟩

/-- All that a read can come to. -/
inductive ReadCase (s : Session σ) (side : Side) (room : Nat) :
    Option ReadResult → Session σ → Prop where
  /-- The rest of the last chunk is there. -/
  | rest {queue : List Message} {b : UInt8} {bs : Bytes} {state : OutletState} {dropped : Bool}
      (hout : s.tee.output side = ⟨queue, ⟨b :: bs, state⟩, dropped⟩) :
      ReadCase s side room (some (.ok ((b :: bs).take room)))
        (s.update side ⟨queue, ⟨(b :: bs).drop room, state⟩, dropped⟩
          { s.reception side with
            reads := (s.reception side).reads ++ [(room, .ok ((b :: bs).take room))] })
  /-- The end was seen before. -/
  | ended {queue : List Message} {dropped : Bool}
      (hout : s.tee.output side = ⟨queue, ⟨[], .ended⟩, dropped⟩) :
      ReadCase s side room (some (.ok []))
        (s.update side ⟨queue, ⟨[], .ended⟩, dropped⟩
          { s.reception side with reads := (s.reception side).reads ++ [(room, .ok [])] })
  /-- A failure was seen before. -/
  | failed {queue : List Message} {dropped : Bool}
      (hout : s.tee.output side = ⟨queue, ⟨[], .failed⟩, dropped⟩) :
      ReadCase s side room (some (.error .alreadyFailed))
        (s.update side ⟨queue, ⟨[], .failed⟩, dropped⟩
          { s.reception side with
            reads := (s.reception side).reads ++ [(room, .error .alreadyFailed)] })
  /-- There is nothing, and more may come. -/
  | waits {dropped : Bool} (hout : s.tee.output side = ⟨[], ⟨[], .active⟩, dropped⟩)
      (hclosed : (s.reception side).closed = false) : ReadCase s side room none s
  /-- There is nothing, and nothing more comes because the stream was cut short. -/
  | cut {dropped : Bool} (hout : s.tee.output side = ⟨[], ⟨[], .active⟩, dropped⟩)
      (hclosed : (s.reception side).closed = true) (habort : s.tee.aborted = true) :
      ReadCase s side room (some (.error (.fault .siblingClosed)))
        (s.update side ⟨[], ⟨[], .failed⟩, dropped⟩
          { s.reception side with
            reads := (s.reception side).reads ++ [(room, .error (.fault .siblingClosed))] })
  /-- There is nothing, and nothing more comes because the stream is complete. -/
  | ends {dropped : Bool} (hout : s.tee.output side = ⟨[], ⟨[], .active⟩, dropped⟩)
      (hclosed : (s.reception side).closed = true) (hquiet : s.tee.aborted = false) :
      ReadCase s side room (some (.ok []))
        (s.update side ⟨[], ⟨[], .ended⟩, dropped⟩
          { s.reception side with reads := (s.reception side).reads ++ [(room, .ok [])] })
  /-- A chunk is taken out of the channel. -/
  | chunk {b : UInt8} {bs : Bytes} {dropped : Bool}
      (hout : s.tee.output side = ⟨[.chunk (b :: bs)], ⟨[], .active⟩, dropped⟩) :
      ReadCase s side room (some (.ok ((b :: bs).take room)))
        (s.update side ⟨[], ⟨(b :: bs).drop room, .active⟩, dropped⟩
          { s.reception side with
            received := (s.reception side).received ++ [.chunk (b :: bs)]
            reads := (s.reception side).reads ++ [(room, .ok ((b :: bs).take room))] })
  /-- A failure is taken out of the channel. -/
  | failure {e : IoError} {dropped : Bool}
      (hout : s.tee.output side = ⟨[.failure e], ⟨[], .active⟩, dropped⟩) :
      ReadCase s side room (some (.error e))
        (s.update side ⟨[], ⟨[], .failed⟩, dropped⟩
          { s.reception side with
            received := (s.reception side).received ++ [.failure e]
            reads := (s.reception side).reads ++ [(room, .error e)] })

/-- A read on a channel that holds one message at most, and no empty chunk. -/
theorem read_case (s : Session σ) (side : Side) (room : Nat)
    (hshort : (s.tee.output side).queue.length ≤ 1)
    (hsolid : Message.chunk [] ∉ (s.tee.output side).queue) :
    ReadCase s side room (s.read side room).1 (s.read side room).2 := by
  obtain ⟨⟨queue, ⟨pending, state⟩, dropped⟩, hout⟩ : ∃ out, s.tee.output side = out := ⟨_, rfl⟩
  obtain ⟨⟨received, reads, closed⟩, hr⟩ : ∃ r, s.reception side = r := ⟨_, rfl⟩
  rw [hout] at hshort hsolid
  rw [read]
  rw [hout, hr]
  cases pending with
  | cons b bs => simpa [hr, Outlet.read] using (.rest hout : ReadCase s side room _ _)
  | nil =>
      cases state with
      | ended => simpa [hr, Outlet.read] using (.ended hout : ReadCase s side room _ _)
      | failed => simpa [hr, Outlet.read] using (.failed hout : ReadCase s side room _ _)
      | active =>
          cases queue with
          | nil =>
              cases closed with
              | false =>
                  have hwait : ReadCase s side room _ _ := .waits hout (by rw [hr])
                  have hself : s.update side ⟨[], ⟨[], .active⟩, dropped⟩ ⟨received, reads, false⟩
                      = s := by
                    rw [← hout, ← hr]
                    exact s.update_self side
                  simpa [Outlet.read, receive, hself] using hwait
              | true =>
                  cases habort : s.tee.aborted with
                  | true =>
                      simpa [hr, Outlet.read, receive] using
                        (.cut hout (by rw [hr]) habort : ReadCase s side room _ _)
                  | false =>
                      simpa [hr, Outlet.read, receive] using
                        (.ends hout (by rw [hr]) habort : ReadCase s side room _ _)
          | cons m queue =>
              obtain rfl : queue = [] := List.length_eq_zero_iff.mp (Nat.le_zero.mp
                (Nat.le_of_succ_le_succ hshort))
              cases m with
              | failure e =>
                  simpa [hr, Outlet.read, receive] using (.failure hout : ReadCase s side room _ _)
              | chunk bytes =>
                  cases bytes with
                  | nil => exact absurd (List.mem_singleton_self _) hsolid
                  | cons b bs =>
                      simpa [hr, Outlet.read, receive] using
                        (.chunk hout : ReadCase s side room _ _)

/-- A read is one on the tee itself, unless the producer is done and the
    channel is not closed yet: then a reader without anything to read waits. -/
theorem read_eq_or_waits (s : Session σ) (side : Side) (room : Nat)
    (hclosed : (s.reception side).closed = true → s.tee.result?.isSome = true)
    (hshort : (s.tee.output side).queue.length ≤ 1)
    (hsolid : Message.chunk [] ∉ (s.tee.output side).queue) :
    ((s.read side room).1 = (s.tee.read side room).1 ∧
      (s.read side room).2.tee = (s.tee.read side room).2) ∨
    s.read side room = (none, s) := by
  by_cases hsame : (s.reception side).closed = s.tee.result?.isSome
  · refine Or.inl ⟨?_, ?_⟩
    · simp only [read, Tee.read, hsame]
    · simp only [read, Tee.read, hsame]
      rfl
  · -- the two differ only in what a reader makes of a channel with nothing in it
    have hopen : (s.reception side).closed = false :=
      Bool.eq_false_iff.mpr fun h => hsame (h.trans (hclosed h).symm)
    have hcase := s.read_case side room hshort hsolid
    obtain ⟨⟨result, s'⟩, hread⟩ : ∃ pair, s.read side room = pair := ⟨_, rfl⟩
    rw [hread] at hcase ⊢
    cases hcase with
    | waits => exact Or.inr rfl
    | cut _ hc => cases hopen.symm.trans hc
    | ends _ hc => cases hopen.symm.trans hc
    | rest hout => exact Or.inl (by simp [Tee.read, hout, Outlet.read])
    | ended hout => exact Or.inl (by simp [Tee.read, hout, Outlet.read])
    | failed hout => exact Or.inl (by simp [Tee.read, hout, Outlet.read])
    | chunk hout => exact Or.inl (by simp [Tee.read, hout, Outlet.read, receive])
    | failure hout => exact Or.inl (by simp [Tee.read, hout, Outlet.read, receive])

end Session

/-! ## What a step of the producer does -/

namespace Tee

variable {σ : Type}

theorem output_abort (t : Tee σ) (side : Side) : t.abort.output side = t.output side := by
  cases side <;> rfl

theorem output_afterSending (t : Tee σ) (target : Side) (m : Message) (side : Side) :
    (t.afterSending target m).output side = t.output side := by
  cases target <;> cases m <;> cases side <;> rfl

theorem output_push (t : Tee σ) (side : Side) (m : Message) :
    (t.push side m).output side
      = { t.output side with queue := (t.output side).queue ++ [m] } :=
  output_setOutput ..

theorem output_push_of_ne (t : Tee σ) {target side : Side} (m : Message) (h : side ≠ target) :
    (t.push target m).output side = t.output side :=
  output_setOutput_of_ne _ _ h

theorem someDropped_of {t : Tee σ} {side : Side} (h : (t.output side).dropped = true) :
    t.someDropped = true := by
  cases side with
  | first => exact Bool.or_eq_true_iff.mpr (Or.inl h)
  | second => exact Bool.or_eq_true_iff.mpr (Or.inr h)

/-- If an output was dropped, and it was not this one, then it was the other. -/
theorem other_dropped {t : Tee σ} {side : Side} (hsome : t.someDropped = true)
    (hheld : (t.output side).dropped = false) : (t.output side.other).dropped = true := by
  rcases Bool.or_eq_true_iff.mp hsome with hfirst | hsecond
  · cases side with
    | first => cases hheld.symm.trans hfirst
    | second => exact hfirst
  · cases side with
    | first => exact hsecond
    | second => cases hheld.symm.trans hsecond

variable [ByteReader σ]

/-- All that a read of the source can come to. -/
theorem readSource_cases [ReaderView σ] (t : Tee σ) (hbuffer : 0 < t.buffer) :
    (∃ x source, t.readSource = { t with source, phase := .sending .first (.failure x) } ∧
      content t.source = [] ∧ ending t.source = some x) ∨
    (∃ source, t.readSource = { t with source, phase := .exited (.ok t.total) } ∧
      content t.source = [] ∧ ending t.source = none) ∨
    (∃ bytes source, bytes ≠ [] ∧
      t.readSource = { t with source, phase := .sending .first (.chunk bytes) } ∧
      content t.source = bytes ++ content source ∧ ending source = ending t.source ∧
      left source + bytes.length ≤ left t.source) := by
  obtain ⟨⟨result, source⟩, hread⟩ : ∃ pair, ByteReader.read t.source t.buffer = pair := ⟨_, rfl⟩
  rw [readSource, hread]
  cases result with
  | error x => exact Or.inl ⟨x, source, rfl, read_failure hbuffer hread⟩
  | ok bytes =>
      by_cases hne : bytes = []
      · subst hne
        obtain ⟨hc, he, -⟩ := read_end hbuffer hread
        exact Or.inr (Or.inl ⟨source, rfl, hc, he⟩)
      · obtain ⟨hc, he⟩ := read_bytes hbuffer hne hread
        exact Or.inr (Or.inr ⟨bytes, source, hne, if_neg hne, hc, he, left_read hread⟩)

/-- All that a step of the producer can be. -/
inductive StepCase (t : Tee σ) (watchful : Bool) : Tee σ → Prop where
  /-- It notices that an output was dropped. -/
  | notice (phase : t.phase = .reading) (alert : watchful = true) (some : t.someDropped = true) :
      StepCase t watchful t.abort
  | read (phase : t.phase = .reading) (calm : (watchful && t.someDropped) = false) :
      StepCase t watchful t.readSource
  /-- A chunk is for an output that was dropped. -/
  | refused {side : Side} {chunk : Bytes} (phase : t.phase = .sending side (.chunk chunk))
      (dropped : (t.output side).dropped = true) : StepCase t watchful t.abort
  /-- A failure is for an output that was dropped. -/
  | skipped {side : Side} {e : IoError} (phase : t.phase = .sending side (.failure e))
      (dropped : (t.output side).dropped = true) :
      StepCase t watchful (t.afterSending side (.failure e))
  | sent {side : Side} {m : Message} (phase : t.phase = .sending side m)
      (held : (t.output side).dropped = false) (empty : (t.output side).queue = []) :
      StepCase t watchful ((t.push side m).afterSending side m)

theorem step_case {t u : Tee σ} {watchful : Bool} (h : t.step watchful = some u) :
    t.StepCase watchful u := by
  rw [step] at h
  split at h
  · rename_i hp
    split at h <;> cases h
    · rename_i hc
      obtain ⟨halert, hsome⟩ := Bool.and_eq_true_iff.mp hc
      exact .notice hp halert hsome
    · rename_i hc
      exact .read hp (Bool.eq_false_iff.mpr hc)
  · rename_i side m hp
    rw [send.eq_def] at h
    split at h
    · rename_i hdropped
      cases m with
      | chunk bytes =>
          cases h
          exact .refused hp hdropped
      | failure e =>
          cases h
          exact .skipped hp hdropped
    · rename_i hheld
      split at h <;> cases h
      rename_i hq
      exact .sent hp (Bool.eq_false_iff.mpr hheld) hq
  · cases h

theorem StepCase.running {t u : Tee σ} {watchful : Bool} (h : t.StepCase watchful u) :
    t.result? = none := by
  cases h with
  | notice phase | read phase | refused phase | skipped phase | sent phase => rw [result?, phase]

theorem StepCase.buffer {t u : Tee σ} {watchful : Bool} (h : t.StepCase watchful u) :
    u.buffer = t.buffer := by
  cases h with
  | notice | refused => rfl
  | read phase =>
      rw [readSource]
      split
      · rfl
      · split <;> rfl
  | @skipped side e | @sent side m => cases side <;> first | rfl | cases m <;> rfl

/-- A step leaves an output as it is, or puts the message in hand into its
    empty channel. -/
theorem StepCase.output {t u : Tee σ} {watchful : Bool} (h : t.StepCase watchful u)
    (side : Side) :
    u.output side = t.output side ∨
    ∃ m, t.phase = .sending side m ∧ (t.output side).queue = [] ∧
      u.output side = { t.output side with queue := [m] } := by
  cases h with
  | notice | refused => exact Or.inl (output_abort ..)
  | skipped => exact Or.inl (output_afterSending ..)
  | read phase =>
      refine Or.inl ?_
      rw [readSource]
      split
      · cases side <;> rfl
      · split <;> cases side <;> rfl
  | @sent target m phase held empty =>
      rw [output_afterSending]
      by_cases hs : side = target
      · subst hs
        refine Or.inr ⟨m, phase, empty, ?_⟩
        rw [output_push, empty, List.nil_append]
      · exact Or.inl (output_push_of_ne _ _ hs)

theorem StepCase.dropped {t u : Tee σ} {watchful : Bool} (h : t.StepCase watchful u)
    (side : Side) : (u.output side).dropped = (t.output side).dropped := by
  rcases h.output side with hsame | ⟨m, -, -, hqueued⟩
  · rw [hsame]
  · rw [hqueued]

/-- What a producer that can make no step waits for. -/
theorem stuck_of_step_eq_none {t : Tee σ} {watchful : Bool} (h : t.step watchful = none) :
    (∃ result, t.phase = .exited result) ∨
    (∃ side m, t.phase = .sending side m ∧ (t.output side).dropped = false ∧
      (t.output side).queue ≠ []) := by
  rw [step] at h
  split at h
  · split at h <;> cases h
  · rename_i side m hp
    rw [send.eq_def] at h
    split at h
    · cases m <;> cases h
    · rename_i hheld
      split at h
      · cases h
      · rename_i hq
        exact Or.inr ⟨side, m, hp, Bool.eq_false_iff.mpr hheld, hq⟩
  · rename_i result hp
    exact Or.inl ⟨result, hp⟩

end Tee

/-! ## What an action leaves alone -/

namespace Session

variable {σ : Type}

theorem dropped_update (s : Session σ) {side : Side} {out : Output} (r : Reception)
    (h : out.dropped = (s.tee.output side).dropped) (other : Side) :
    ((s.update side out r).tee.output other).dropped = (s.tee.output other).dropped :=
  s.update_elim side out r (fun other o _ => o.dropped = (s.tee.output other).dropped) h
    (fun _ _ => rfl) other

variable [ByteReader σ]

/-- Nothing but dropping it drops an output. -/
theorem dropped_perform (ready : σ → Bool) (s : Session σ) {a : TeeAction} {side : Side}
    (ha : a ≠ .drop side) :
    ((s.perform ready a).tee.output side).dropped = (s.tee.output side).dropped := by
  cases a with
  | produce watchful =>
      rw [perform, produce]
      split
      · rfl
      · split
        · rename_i hstep
          exact (Tee.step_case hstep).dropped side
        · rfl
  | close target =>
      rw [perform, close]
      split
      · exact s.dropped_update _ rfl side
      · rfl
  | read target room =>
      rw [perform]
      split
      · rfl
      · obtain ⟨out, r, hread, hdropped, -⟩ := s.read_eq_update target room
        rw [hread]
        exact s.dropped_update r hdropped side
  | drop target =>
      have hne : side ≠ target := fun h => ha (congrArg _ h.symm)
      exact congrArg _ (Tee.output_setOutput_of_ne _ _ hne)

/-- Nothing but reading from it changes the reader of an output and what was
    taken out of its channel. -/
theorem unread_perform (ready : σ → Bool) (s : Session σ) {a : TeeAction} {side : Side}
    (ha : ∀ room, a ≠ .read side room) :
    ((s.perform ready a).tee.output side).reader = (s.tee.output side).reader ∧
      ((s.perform ready a).reception side).received = (s.reception side).received := by
  cases a with
  | produce watchful =>
      rw [perform, produce]
      split
      · exact ⟨rfl, rfl⟩
      · split
        · rename_i u hstep
          refine ⟨?_, rfl⟩
          show (u.output side).reader = _
          rcases (Tee.step_case hstep).output side with hsame | ⟨m, -, -, hqueued⟩
          · rw [hsame]
          · rw [hqueued]
        · exact ⟨rfl, rfl⟩
  | close target =>
      rw [perform, close]
      split
      · exact s.update_elim target _ { s.reception target with closed := true }
          (fun other o r => o.reader = (s.tee.output other).reader ∧
            r.received = (s.reception other).received)
          ⟨rfl, rfl⟩ (fun _ _ => ⟨rfl, rfl⟩) side
      · exact ⟨rfl, rfl⟩
  | drop target =>
      refine ⟨?_, rfl⟩
      show ((s.tee.setOutput target _).output side).reader = _
      by_cases hs : side = target
      · rw [hs, Tee.output_setOutput]
      · rw [Tee.output_setOutput_of_ne _ _ hs]
  | read target room =>
      have hne : side ≠ target := fun hs => ha room (hs ▸ rfl)
      rw [perform]
      split
      · exact ⟨rfl, rfl⟩
      · obtain ⟨out, r, hread, -, -⟩ := s.read_eq_update target room
        rw [hread, output_update_of_ne _ _ _ _ hne, reception_update_of_ne _ _ _ _ hne]
        exact ⟨rfl, rfl⟩

/-- Outputs that no action drops are held. -/
theorem held_after (ready : σ → Bool) (source : σ) (buffer : Nat) {actions : List TeeAction}
    {side : Side} (hfree : .drop side ∉ actions) :
    (((start source buffer).after ready actions).tee.output side).dropped = false := by
  have hkept : ∀ {s : Session σ} {actions : List TeeAction}, .drop side ∉ actions →
      ((s.after ready actions).tee.output side).dropped = (s.tee.output side).dropped := by
    intro s actions
    induction actions generalizing s with
    | nil => exact fun _ => rfl
    | cons a actions ih =>
        intro hfree
        rw [after_cons, ih fun hmem => hfree (List.mem_cons_of_mem _ hmem)]
        exact dropped_perform ready s fun ha => hfree (ha ▸ List.mem_cons_self)
  rw [hkept hfree]
  cases side <;> rfl

/-- The producer keeps its buffer. -/
theorem buffer_perform (ready : σ → Bool) (s : Session σ) (a : TeeAction) :
    (s.perform ready a).tee.buffer = s.tee.buffer := by
  cases a with
  | produce watchful =>
      rw [perform, produce]
      split
      · rfl
      · split
        · rename_i hstep
          exact (Tee.step_case hstep).buffer
        · rfl
  | close target =>
      rw [perform, close]
      split
      · exact buffer_update ..
      · rfl
  | read target room =>
      rw [perform]
      split
      · rfl
      · obtain ⟨out, r, hread, -, -⟩ := s.read_eq_update target room
        rw [hread, buffer_update]
  | drop target => cases target <;> rfl

/-- A producer that is done stays done. -/
theorem exited_perform (ready : σ → Bool) {s : Session σ} (a : TeeAction)
    {result : Except ProducerFailure Nat} (h : s.tee.phase = .exited result) :
    (s.perform ready a).tee.phase = .exited result := by
  cases a with
  | produce watchful =>
      have hidle : s.tee.step watchful = none := by rw [Tee.step, h]
      rw [perform, produce, hidle, ite_self]
      exact h
  | close target =>
      rw [perform, close]
      split
      · rw [phase_update]
        exact h
      · exact h
  | read target room =>
      rw [perform]
      split
      · exact h
      · obtain ⟨out, r, hread, -, -⟩ := s.read_eq_update target room
        rw [hread, phase_update]
        exact h
  | drop target => exact (Tee.phase_setOutput ..).trans h

/-- What reads gave is not taken back. -/
theorem reads_perform (ready : σ → Bool) (s : Session σ) (a : TeeAction) (side : Side) :
    (s.reception side).reads <+: ((s.perform ready a).reception side).reads := by
  have hupdate : ∀ {target : Side} {out : Output} {r : Reception},
      (s.reception target).reads <+: r.reads →
      (s.reception side).reads <+: ((s.update target out r).reception side).reads := by
    intro target out r h
    exact s.update_elim target out r (fun other _ r => (s.reception other).reads <+: r.reads) h
      (fun _ _ => List.prefix_refl _) side
  cases a with
  | produce watchful =>
      rw [perform, produce]
      split
      · exact List.prefix_refl _
      · split <;> exact List.prefix_refl _
  | drop target => exact List.prefix_refl _
  | close target =>
      rw [perform, close]
      split
      · exact hupdate (List.prefix_refl _)
      · exact List.prefix_refl _
  | read target room =>
      rw [perform]
      split
      · exact List.prefix_refl _
      · obtain ⟨out, r, hread, -, hreads⟩ := s.read_eq_update target room
        rw [hread]
        exact hupdate hreads

end Session

end ContentVault
