import ContentVault.Proofs.Cipher.Frames
import ContentVault.Proofs.Stream.Ports

/-! # A task that encrypts

    Where content is encrypted, a task of its own stands between an output of
    the tee and the port: it fills a chunk with the bytes it reads, puts the
    frame of the chunk into a channel that holds one, and goes on until the last
    frame or a failure is sent.  Then the sending end of the channel goes away,
    and the output is dropped.  The task notices if the port is gone: while it
    reads, or when it sends.

    Such a branch gets on if its port does (`Sealed.lively`), and gives its
    output up if the port is done (`Sealed.givesUp`). -/

namespace ContentVault

open ByteReader ReaderView Outlet Session

/-! ## Reading from a channel -/

namespace Outlet

/-- All that a read of a channel can come to that holds no empty chunk and is
    not aborted. -/
inductive Reads (closed : Bool) (room : Nat) :
    Outlet → List Message → Option ReadResult → Outlet → List Message → Prop where
  | rest {b : UInt8} {bs : Bytes} {state : OutletState} {queue : List Message} :
      Reads closed room ⟨b :: bs, state⟩ queue (some (.ok ((b :: bs).take room)))
        ⟨(b :: bs).drop room, state⟩ queue
  | ended {queue : List Message} :
      Reads closed room ⟨[], .ended⟩ queue (some (.ok [])) ⟨[], .ended⟩ queue
  | failed {queue : List Message} :
      Reads closed room ⟨[], .failed⟩ queue (some (.error .alreadyFailed)) ⟨[], .failed⟩ queue
  | waits (isOpen : closed = false) :
      Reads closed room ⟨[], .active⟩ [] none ⟨[], .active⟩ []
  | ends (isClosed : closed = true) :
      Reads closed room ⟨[], .active⟩ [] (some (.ok [])) ⟨[], .ended⟩ []
  | chunk {b : UInt8} {bs : Bytes} {queue : List Message} :
      Reads closed room ⟨[], .active⟩ (.chunk (b :: bs) :: queue)
        (some (.ok ((b :: bs).take room))) ⟨(b :: bs).drop room, .active⟩ queue
  | failure {x : IoError} {queue : List Message} :
      Reads closed room ⟨[], .active⟩ (.failure x :: queue) (some (.error x)) ⟨[], .failed⟩ queue

theorem reads_of_read {r r' : Outlet} {queue : List Message} {closed : Bool} {room : Nat}
    {result : Option ReadResult} {box : Mailbox}
    (h : r.read ⟨queue, closed, false⟩ room = (result, r', box))
    (hsolid : Message.chunk [] ∉ queue) : Reads closed room r queue result r' box.queue := by
  suffices hread : Reads closed room r queue (r.read ⟨queue, closed, false⟩ room).1
      (r.read ⟨queue, closed, false⟩ room).2.1
      (r.read ⟨queue, closed, false⟩ room).2.2.queue by
    rw [h] at hread
    exact hread
  obtain ⟨pending, state⟩ := r
  cases pending with
  | cons b bs => exact .rest
  | nil =>
      cases state with
      | ended => exact .ended
      | failed => exact .failed
      | active =>
          cases queue with
          | nil =>
              cases closed with
              | false => exact .waits rfl
              | true => exact .ends rfl
          | cons m queue =>
              cases m with
              | failure x => exact .failure
              | chunk bytes =>
                  cases bytes with
                  | nil => exact absurd List.mem_cons_self hsolid
                  | cons b bs => exact .chunk

/-- What a reader has still to get: bytes at hand, messages, and the end. -/
def heft (r : Outlet) (queue : List Message) : Nat :=
  weigh queue + r.pending.length + if r.state = .active then 1 else 0

/-- A read with room makes that less, unless it gives no bytes. -/
theorem Reads.lightens {closed : Bool} {room : Nat} {r r' : Outlet} {queue queue' : List Message}
    {result : ReadResult} (h : Reads closed room r queue (some result) r' queue')
    (hroom : room ≠ 0) :
    r'.heft queue' < r.heft queue ∨ (r'.heft queue' = r.heft queue ∧ given (some result) = []) := by
  cases h with
  | rest =>
      refine Or.inl ?_
      rw [heft, heft, List.length_drop, List.length_cons]
      dsimp only
      omega
  | ended | failed => exact Or.inr ⟨rfl, rfl⟩
  | ends => exact Or.inl (Nat.lt_succ_self _)
  | chunk =>
      refine Or.inl ?_
      rw [heft, heft, List.length_drop, weigh]
      dsimp only [List.length_nil]
      omega
  | failure =>
      refine Or.inl ?_
      rw [heft, heft, weigh, if_neg OutletState.failed_ne_active, if_pos rfl]
      dsimp only [List.length_nil]
      omega

end Outlet

/-- Who waits does so at an empty channel that is open. -/
theorem Outlet.Reads.of_waiting {closed : Bool} {room : Nat} {r r' : Outlet}
    {queue queue' : List Message} (h : Outlet.Reads closed room r queue none r' queue') :
    queue = [] ∧ closed = false := by
  cases h with
  | waits isOpen => exact ⟨rfl, isOpen⟩

theorem Outlet.Reads.subset {closed : Bool} {room : Nat} {r r' : Outlet}
    {queue queue' : List Message} {result : Option ReadResult}
    (h : Outlet.Reads closed room r queue result r' queue') : queue' ⊆ queue := by
  cases h with
  | chunk | failure => exact List.subset_cons_self _ _
  | rest | ended | failed | waits | ends => exact List.Subset.refl _

namespace Frames

/-! ## The task -/

/-- What a task that encrypts is at. -/
inductive SealingPhase where
  /-- It fills a chunk. -/
  | filling (index : Nat) (filled : Bytes)
  /-- It waits for room in its channel, perhaps for the last message. -/
  | sending (index : Nat) (message : Message) (last : Bool)
  /-- Its sending end goes away. -/
  | closing
  /-- It drops its output. -/
  | leaving
  | gone
deriving DecidableEq, Repr

/-- A task that encrypts, the channel behind it, and the port. -/
structure SealingTask (κ : Type) where
  phase : SealingPhase := .filling 0 []
  queue : List Message := []
  /-- Whether the sending end is gone. -/
  closed : Bool := false
  reader : Outlet := {}
  port : κ
  /-- Whether the port let go of the ciphertext. -/
  left : Bool := false

section

variable (a : Aead) (key : Key) (base : Nonce) (size : ChunkSize) {α : Type} (p : Port α)

/-- Where the task goes on with what it has read. -/
def filledWith (index : Nat) (filled : Bytes) : ReadResult → SealingPhase
  | .error e => .sending index (.failure e) true
  | .ok [] => .sending index (.chunk (encryptChunk a key base index filled true)) true
  | .ok (b :: bs) =>
    if (filled ++ b :: bs).length < size.val then .filling index (filled ++ b :: bs)
    else .sending index (.chunk (encryptChunk a key base index (filled ++ b :: bs) false)) false

/-- What the task does. -/
def sealingDeed {κ : Type} (k : SealingTask κ) (watchful : Bool) : Deed (SealingTask κ) :=
  match k.phase with
  | .filling index filled =>
    if watchful && k.left then .work { k with phase := .closing }
    else .read (size.val - filled.length)
      (fun r => { k with phase := filledWith a key base size index filled r })
      (if k.left then some { k with phase := .closing } else none)
  | .sending index message last =>
    if k.left then .work { k with phase := .closing }
    else if k.queue = [] then .work { k with
      queue := [message], phase := if last then .closing else .filling (index + 1) [] }
    else .rest
  | .closing => .work { k with closed := true, phase := .leaving }
  | .leaving => .leave { k with phase := .gone }
  | .gone => .rest

/-- What the port does, which reads from the channel. -/
def portDeed (k : SealingTask p.State) : Deed (SealingTask p.State) :=
  match p.step k.port, k.left with
  | .ask room fed, false =>
    match k.reader.read ⟨k.queue, k.closed, false⟩ room with
    | (some r, reader, box) => .work { k with queue := box.queue, reader, port := fed r }
    | (none, _) => .rest
  | .ask _ _, true => .rest
  | .work next, _ => .work { k with port := next }
  | .leave next, _ => .work { k with port := next, left := true }
  | .done _, false => .work { k with left := true }
  | .done _, true => .rest

/-- All that reading can lead to: the last frame, a failure, more to fill, or a
    full frame. -/
theorem filledWith_cases (index : Nat) (filled : Bytes) (r : ReadResult) :
    (r = .ok [] ∧ filledWith a key base size index filled r
      = .sending index (.chunk (encryptChunk a key base index filled true)) true) ∨
    (∃ e, r = .error e ∧
      filledWith a key base size index filled r = .sending index (.failure e) true) ∨
    (∃ bytes, bytes ≠ [] ∧ r = .ok bytes ∧ (filled ++ bytes).length < size.val ∧
      filledWith a key base size index filled r = .filling index (filled ++ bytes)) ∨
    (∃ bytes, bytes ≠ [] ∧ r = .ok bytes ∧ filledWith a key base size index filled r
      = .sending index (.chunk (encryptChunk a key base index (filled ++ bytes) false)) false) := by
  match r with
  | .ok [] => exact Or.inl ⟨rfl, rfl⟩
  | .error e => exact Or.inr (Or.inl ⟨e, rfl, rfl⟩)
  | .ok (b :: bs) =>
      by_cases hroom : (filled ++ b :: bs).length < size.val
      · exact Or.inr (Or.inr (Or.inl ⟨b :: bs, nofun, rfl, hroom, if_pos hroom⟩))
      · exact Or.inr (Or.inr (Or.inr ⟨b :: bs, nofun, rfl, if_neg hroom⟩))

/-- All that the task can do. -/
inductive SealingCase {κ : Type} (k : SealingTask κ) (watchful : Bool) :
    Deed (SealingTask κ) → Prop where
  | notices {index : Nat} {filled : Bytes} (phase : k.phase = .filling index filled)
      (left : k.left = true) : SealingCase k watchful (.work { k with phase := .closing })
  | fills {index : Nat} {filled : Bytes} {otherwise : Option (SealingTask κ)}
      (phase : k.phase = .filling index filled)
      (other : otherwise = if k.left then some { k with phase := .closing } else none) :
      SealingCase k watchful (.read (size.val - filled.length)
        (fun r => { k with phase := filledWith a key base size index filled r }) otherwise)
  | refused {index : Nat} {m : Message} {last : Bool} (phase : k.phase = .sending index m last)
      (left : k.left = true) : SealingCase k watchful (.work { k with phase := .closing })
  | sends {index : Nat} {m : Message} {last : Bool} (phase : k.phase = .sending index m last)
      (held : k.left = false) (empty : k.queue = []) :
      SealingCase k watchful (.work { k with
        queue := [m], phase := if last then .closing else .filling (index + 1) [] })
  | full {index : Nat} {m : Message} {last : Bool} (phase : k.phase = .sending index m last)
      (held : k.left = false) (waiting : k.queue ≠ []) : SealingCase k watchful .rest
  | closes (phase : k.phase = .closing) :
      SealingCase k watchful (.work { k with closed := true, phase := .leaving })
  | leaves (phase : k.phase = .leaving) :
      SealingCase k watchful (.leave { k with phase := .gone })
  | idle (phase : k.phase = .gone) : SealingCase k watchful .rest

theorem sealing_case {κ : Type} (k : SealingTask κ) (watchful : Bool) :
    SealingCase a key base size k watchful (sealingDeed a key base size k watchful) := by
  rw [sealingDeed]
  cases hphase : k.phase with
  | filling index filled =>
      dsimp only
      split
      · rename_i hnotice
        exact .notices hphase (Bool.and_eq_true_iff.mp hnotice).2
      · exact .fills hphase rfl
  | sending index m last =>
      dsimp only
      split
      · rename_i hleft
        exact .refused hphase hleft
      · rename_i hheld
        have held : k.left = false := Bool.eq_false_iff.mpr hheld
        split
        · rename_i hempty
          exact .sends hphase held hempty
        · rename_i hwaiting
          exact .full hphase held hwaiting
  | closing => exact .closes hphase
  | leaving => exact .leaves hphase
  | gone => exact .idle hphase

/-- All that the port can do. -/
inductive PortCase (k : SealingTask p.State) : Deed (SealingTask p.State) → Prop where
  | asks {room : Nat} {fed : ReadResult → p.State} {r : ReadResult} {reader : Outlet}
      {box : Mailbox} (step : p.step k.port = .ask room fed) (held : k.left = false)
      (hread : k.reader.read ⟨k.queue, k.closed, false⟩ room = (some r, reader, box)) :
      PortCase k (.work { k with queue := box.queue, reader, port := fed r, left := false })
  | waits {room : Nat} {fed : ReadResult → p.State} (step : p.step k.port = .ask room fed)
      {reader : Outlet} {box : Mailbox} (held : k.left = false)
      (hread : k.reader.read ⟨k.queue, k.closed, false⟩ room = (none, reader, box)) :
      PortCase k .rest
  | mute {room : Nat} {fed : ReadResult → p.State} (step : p.step k.port = .ask room fed)
      (left : k.left = true) : PortCase k .rest
  | works {next : p.State} (step : p.step k.port = .work next) :
      PortCase k (.work { k with port := next })
  | leaves {next : p.State} (step : p.step k.port = .leave next) :
      PortCase k (.work { k with port := next, left := true })
  | done {r : α} (step : p.step k.port = .done r) (held : k.left = false) :
      PortCase k (.work { k with left := true })
  | idle {r : α} (step : p.step k.port = .done r) (left : k.left = true) : PortCase k .rest

theorem port_case (k : SealingTask p.State) : PortCase p k (portDeed p k) := by
  rw [portDeed]
  cases hstep : p.step k.port with
  | ask room fed =>
      cases hleft : k.left with
      | true => exact .mute hstep hleft
      | false =>
          dsimp only
          obtain ⟨⟨result, reader, box⟩, hread⟩ :
            ∃ out, k.reader.read ⟨k.queue, k.closed, false⟩ room = out := ⟨_, rfl⟩
          rw [hread]
          cases result with
          | some r => exact .asks hstep hleft hread
          | none => exact .waits hstep hleft hread
  | work next => exact .works hstep
  | leave next => exact .leaves hstep
  | done r =>
      cases hleft : k.left with
      | false => exact .done hstep hleft
      | true => exact .idle hstep hleft

end

end Frames

/-! ## The branch -/

namespace Frames.SealingPhase

/-- Whether the task has dropped its output. -/
def isGone : SealingPhase → Bool
  | .gone => true
  | _ => false

/-- The message that waits for room in the channel. -/
def hand : SealingPhase → List Message
  | .sending _ m _ => [m]
  | _ => []

/-- A bound on what the task has still to do, as long as it reads nothing. -/
def rank (size : ChunkSize) : SealingPhase → Nat
  | .filling _ _ => size.val + 30
  | .sending _ _ false => size.val + 31
  | .sending _ _ true => 3
  | .closing => 2
  | .leaving => 1
  | .gone => 0

end Frames.SealingPhase

theorem Frames.isGone_filledWith (a : Aead) (key : Key) (base : Nonce) (size : ChunkSize)
    (index : Nat) (filled : Bytes) (r : ReadResult) :
    (filledWith a key base size index filled r).isGone = false := by
  rcases filledWith_cases a key base size index filled r with ⟨-, hto⟩ | ⟨e, -, hto⟩
    | ⟨bytes, -, -, -, hto⟩ | ⟨bytes, -, -, hto⟩
  all_goals
    rw [hto]
    rfl

section

variable {α : Type} (p : Port α) (a : Aead) (key : Key) (base : Nonce) (size : ChunkSize)

open Frames

/-- The branch that a task that encrypts and the port behind it are. -/
def Port.sealed : Branch α where
  State := SealingTask p.State
  start := { port := p.start }
  next k task watchful := match task with
    | .stage => sealingDeed a key base size k watchful
    | .port => portDeed p k
  result? k := p.result? k.port
  left k := k.phase.isGone
  left_start := rfl
  left_leads {k k' task watchful} h := by
    cases task with
    | stage =>
        have hcase := sealing_case a key base size k watchful
        generalize sealingDeed a key base size k watchful = deed at h hcase
        cases hcase with
        | notices phase | refused phase | closes phase | leaves phase =>
            cases h
            rw [phase]
            rfl
        | @sends index m last phase =>
            cases h
            rw [phase]
            cases last <;> rfl
        | @fills index filled otherwise phase other =>
            cases h with
            | fed result =>
                rw [phase]
                exact isGone_filledWith a key base size index filled result
            | otherwise =>
                split at other
                · cases other
                  rw [phase]
                  rfl
                · cases other
        | full | idle => cases h
    | port =>
        have hcase := port_case p k
        generalize portDeed p k = deed at h hcase
        cases hcase <;> cases h <;> exact (Bool.or_false _).symm
  held_of_read {k task watchful room fed otherwise} h := by
    cases task with
    | stage =>
        have hcase := sealing_case a key base size k watchful
        change sealingDeed a key base size k watchful = _ at h
        rw [h] at hcase
        cases hcase with
        | fills phase =>
            rw [phase]
            rfl
    | port =>
        have hcase := port_case p k
        change portDeed p k = _ at h
        rw [h] at hcase
        cases hcase
  result_leads {k k' task watchful r} h hr := by
    cases task with
    | stage =>
        have hcase := sealing_case a key base size k watchful
        generalize sealingDeed a key base size k watchful = deed at h hcase
        cases hcase with
        | notices | refused | closes | leaves | sends =>
            cases h
            exact hr
        | @fills index filled otherwise phase other =>
            cases h with
            | fed result => exact hr
            | otherwise =>
                split at other
                · cases other
                  exact hr
                · cases other
        | full | idle => cases h
    | port =>
        have hdone := Port.result_eq_some_iff.mp hr
        have hcase := port_case p k
        generalize portDeed p k = deed at h hcase
        cases hcase with
        | done =>
            cases h
            exact hr
        | asks step | works step | leaves step => cases step.symm.trans hdone
        | waits | mute | idle => cases h

/-- What the branch does is what the task or the port does. -/
theorem Port.sealed_cases {k : SealingTask p.State} {task : Task} {watchful : Bool}
    {deed : Deed (SealingTask p.State)}
    (h : (p.sealed a key base size).next k task watchful = deed) :
    SealingCase a key base size k watchful deed ∨ PortCase p k deed := by
  cases task with
  | stage => exact Or.inl (h ▸ sealing_case a key base size k watchful)
  | port => exact Or.inr (h ▸ port_case p k)

end

/-! ## Sound states -/

namespace Frames

/-- A frame is no empty chunk. -/
theorem encryptChunk_ne_nil (a : Aead) (key : Key) (base : Nonce) (index : Nat) (chunk : Bytes)
    (final : Bool) : encryptChunk a key base index chunk final ≠ [] := by
  intro hnil
  have hlen := length_frame (a.encrypt key (base.forChunk index)
    (Cipher.chunkBinding index final) chunk) final
  rw [encryptChunk] at hnil
  rw [hnil] at hlen
  simp only [List.length_nil, headerSize] at hlen
  omega

/-- Whether a task can be where it is: it sends no empty chunk, fills no full
    one, and its sending end is gone when it leaves. -/
structure SealingTask.Sound {κ : Type} (size : ChunkSize) (k : SealingTask κ) : Prop where
  queue : Message.chunk [] ∉ k.queue
  hand : Message.chunk [] ∉ k.phase.hand
  filling : ∀ index filled, k.phase = .filling index filled → filled.length < size.val
  closed : k.closed = true ↔ k.phase = .leaving ∨ k.phase = .gone

section

variable {κ : Type} {k k' : SealingTask κ} {a : Aead} {key : Key} {base : Nonce} {size : ChunkSize}
  {watchful : Bool} {deed : Deed (SealingTask κ)}

/-- What the task does is nothing to the port. -/
theorem SealingCase.keeps (hcase : SealingCase a key base size k watchful deed)
    (hleads : deed.Leads k') :
    k'.port = k.port ∧ k'.left = k.left ∧ k'.reader = k.reader := by
  cases hcase with
  | notices | refused | sends | closes | leaves =>
      cases hleads
      exact ⟨rfl, rfl, rfl⟩
  | fills phase other =>
      cases hleads with
      | fed result => exact ⟨rfl, rfl, rfl⟩
      | otherwise =>
          split at other
          · cases other
            exact ⟨rfl, rfl, rfl⟩
          · cases other
  | full | idle => cases hleads

/-- A task that is sound and at work can give up. -/
theorem SealingTask.Sound.closing (h : k.Sound size)
    (hopen : ¬(k.phase = .leaving ∨ k.phase = .gone)) :
    SealingTask.Sound size { k with phase := .closing } where
  queue := h.queue
  hand := List.not_mem_nil
  filling := nofun
  closed := ⟨fun hclosed => absurd (h.closed.mp hclosed) hopen,
    by rintro (hphase | hphase) <;> cases hphase⟩

/-- What the task does keeps it sound. -/
theorem SealingTask.Sound.task (h : k.Sound size)
    (hcase : SealingCase a key base size k watchful deed) (hleads : deed.Leads k') :
    k'.Sound size := by
  have isOpen : ∀ {phase : SealingPhase}, k.phase = phase → phase ≠ .leaving → phase ≠ .gone →
      ¬(k.phase = .leaving ∨ k.phase = .gone) := by
    rintro phase rfl hleaving hgone (hphase | hphase)
    · exact hleaving hphase
    · exact hgone hphase
  cases hcase with
  | notices phase | refused phase =>
      cases hleads
      exact h.closing (isOpen phase nofun nofun)
  | @fills index filled otherwise phase other =>
      have hopen := isOpen phase nofun nofun
      cases hleads with
      | otherwise =>
          split at other
          · cases other
            exact h.closing hopen
          · cases other
      | fed result =>
          have hsending : ∀ {m : Message} {last : Bool}, m ≠ .chunk [] →
              SealingTask.Sound size { k with phase := .sending index m last } := by
            intro m last hm
            refine ⟨h.queue, fun hmem => hm (List.mem_singleton.mp hmem).symm, nofun,
              fun hclosed => absurd (h.closed.mp hclosed) hopen, ?_⟩
            rintro (hphase | hphase) <;> cases hphase
          have hframe : ∀ {chunk : Bytes} {final : Bool},
              Message.chunk (encryptChunk a key base index chunk final) ≠ .chunk [] :=
            fun hm => encryptChunk_ne_nil a key base index _ _ (Message.chunk.inj hm)
          dsimp only
          rcases filledWith_cases a key base size index filled result with ⟨-, hto⟩
            | ⟨e, -, hto⟩ | ⟨bytes, -, -, hroom, hto⟩ | ⟨bytes, -, -, hto⟩
          · rw [hto]
            exact hsending hframe
          · rw [hto]
            exact hsending nofun
          · rw [hto]
            refine ⟨h.queue, List.not_mem_nil, ?_,
              fun hclosed => absurd (h.closed.mp hclosed) hopen, ?_⟩
            · intro index' filled' hphase
              cases hphase
              exact hroom
            · rintro (hphase | hphase) <;> cases hphase
          · rw [hto]
            exact hsending hframe
  | @sends index m last phase held empty =>
      have hopen := isOpen phase nofun nofun
      have hm : Message.chunk [] ∉ [m] := by
        have hhand := h.hand
        rw [phase] at hhand
        exact hhand
      cases hleads
      cases last with
      | true =>
          refine ⟨hm, List.not_mem_nil, nofun,
            fun hclosed => absurd (h.closed.mp hclosed) hopen, ?_⟩
          rintro (hphase | hphase) <;> cases hphase
      | false =>
          refine ⟨hm, List.not_mem_nil, ?_, fun hclosed => absurd (h.closed.mp hclosed) hopen, ?_⟩
          · intro index' filled' hphase
            cases hphase
            exact size.pos
          · rintro (hphase | hphase) <;> cases hphase
  | closes phase =>
      cases hleads
      exact ⟨h.queue, List.not_mem_nil, nofun, fun _ => Or.inl rfl, fun _ => rfl⟩
  | leaves phase =>
      cases hleads
      exact ⟨h.queue, List.not_mem_nil, nofun, fun _ => Or.inr rfl,
        fun _ => h.closed.mpr (Or.inl phase)⟩
  | full | idle => cases hleads

/-- What the port does keeps the task sound. -/
theorem SealingTask.Sound.ported {α : Type} {p : Port α} {k k' : SealingTask p.State}
    {deed : Deed (SealingTask p.State)} (h : k.Sound size) (hcase : PortCase p k deed)
    (hleads : deed.Leads k') : k'.Sound size := by
  cases hcase with
  | asks step held hread =>
      cases hleads
      have hreads := reads_of_read hread h.queue
      exact ⟨fun hmem => h.queue (hreads.subset hmem), h.hand, h.filling, h.closed⟩
  | works | leaves | done =>
      cases hleads
      exact ⟨h.queue, h.hand, h.filling, h.closed⟩
  | waits | mute | idle => cases hleads

end

theorem sound_start {κ : Type} (port : κ) (size : ChunkSize) : SealingTask.Sound size { port } where
  queue := List.not_mem_nil
  hand := List.not_mem_nil
  filling index filled hphase := by
    cases hphase
    exact size.pos
  closed := ⟨nofun, by rintro (hphase | hphase) <;> cases hphase⟩

end Frames

/-! ## Getting on -/

namespace Sealed

open Frames

variable {α : Type} {p : Port α} {a : Aead} {key : Key} {base : Nonce} {size : ChunkSize}
  {Live : p.State → Prop} {rank : p.State → Nat}

/-- The states in which the branch gets on, if the port does in its own. -/
structure LiveSealed (p : Port α) (size : ChunkSize) (Live : p.State → Prop)
    (k : SealingTask p.State) : Prop where
  sound : k.Sound size
  port : Live k.port
  done : k.left = true → p.IsDone k.port

/-- What the branch has still to do: the task, in the channel, and the port. -/
def rankSealed (size : ChunkSize) (rank : p.State → Nat) (k : SealingTask p.State) : Nat :=
  k.phase.rank size + k.reader.heft (k.queue ++ k.phase.hand) + rank k.port
    + if k.left then 0 else 1

theorem live_start (h : Live p.start) : LiveSealed p size Live { port := p.start } :=
  ⟨sound_start p.start size, h, nofun⟩

/-- What the task does leads to where the branch gets on. -/
theorem LiveSealed.task {k k' : SealingTask p.State} (h : LiveSealed p size Live k)
    {watchful : Bool} {deed : Deed (SealingTask p.State)} (hcase : SealingCase a key base size k watchful deed)
    (hleads : deed.Leads k') : LiveSealed p size Live k' := by
  obtain ⟨hport, hleft, -⟩ := hcase.keeps hleads
  refine ⟨h.sound.task hcase hleads, hport.symm ▸ h.port, fun hk' => ?_⟩
  rw [hport]
  exact h.done (hleft.symm.trans hk')

/-- What the port does leads to where the branch gets on. -/
theorem LiveSealed.ported (hp : p.Lively Live rank) {k k' : SealingTask p.State}
    (h : LiveSealed p size Live k) {deed : Deed (SealingTask p.State)} (hcase : PortCase p k deed)
    (hleads : deed.Leads k') : LiveSealed p size Live k' := by
  have hsound := h.sound.ported hcase hleads
  cases hcase with
  | @asks room fed r reader box step held hread =>
      cases hleads
      exact ⟨hsound, ((hp.ask h.port step).2 r).1, nofun⟩
  | works step =>
      cases hleads
      refine ⟨hsound, (hp.work h.port step).1, fun hleft => ?_⟩
      obtain ⟨r, hr⟩ := Option.isSome_iff_exists.mp (h.done hleft)
      cases step.symm.trans (Port.result_eq_some_iff.mp hr)
  | leaves step => exact absurd step (hp.stays h.port)
  | done step =>
      cases hleads
      exact ⟨hsound, h.port,
        fun _ => Option.isSome_iff_exists.mpr ⟨_, Port.result_eq_some_iff.mpr step⟩⟩
  | waits | mute | idle => cases hleads

/-- What the task does without the port leaves less to do if it has less to do
    itself and in the channel. -/
theorem rank_task {k k' : SealingTask p.State} (hreader : k'.reader = k.reader)
    (hport : k'.port = k.port) (hleft : k'.left = k.left)
    (hless : k'.phase.rank size + weigh (k'.queue ++ k'.phase.hand)
      < k.phase.rank size + weigh (k.queue ++ k.phase.hand)) :
    rankSealed size rank k' < rankSealed size rank k := by
  rw [rankSealed, rankSealed, heft, heft, hreader, hport, hleft]
  omega

/-- A task that gives up has next to nothing left to do. -/
theorem rank_closing {k : SealingTask p.State} (h : 2 < k.phase.rank size) :
    rankSealed size rank { k with phase := .closing } < rankSealed size rank k := by
  refine rank_task rfl rfl rfl ?_
  show 2 + weigh (k.queue ++ []) < _
  rw [List.append_nil, weigh_append]
  omega

/-- The frame of a chunk that is not full. -/
theorem weigh_frame {index : Nat} {filled : Bytes} {final : Bool} (h : filled.length < size.val) :
    weigh [.chunk (encryptChunk a key base index filled final)] < size.val + 22 := by
  rw [weigh, weigh, encryptChunk, length_frame, a.length_encrypt]
  simp only [headerSize, tagLength]
  omega

/-- A task that has read no bytes has less left to do than before. -/
theorem rank_filledWith {k : SealingTask p.State} {index : Nat} {filled : Bytes} {r : ReadResult}
    (hphase : k.phase = .filling index filled) (hlen : filled.length < size.val)
    (hr : given (some r) = []) :
    rankSealed size rank { k with phase := filledWith a key base size index filled r }
      < rankSealed size rank k := by
  have hlast : ∀ {m : Message}, weigh [m] < size.val + 22 →
      rankSealed size rank { k with phase := .sending index m true } < rankSealed size rank k := by
    intro m hm
    refine rank_task rfl rfl rfl ?_
    show 3 + weigh (k.queue ++ [m]) < _
    rw [hphase, weigh_append]
    show _ < size.val + 30 + weigh (k.queue ++ [])
    rw [List.append_nil]
    omega
  rcases filledWith_cases a key base size index filled r with ⟨-, hto⟩ | ⟨e, -, hto⟩
    | ⟨bytes, hne, rfl, -⟩ | ⟨bytes, hne, rfl, -⟩
  · rw [hto]
    exact hlast (weigh_frame hlen)
  · rw [hto]
    refine hlast ?_
    show 1 + 0 < _
    omega
  · exact absurd hr hne
  · exact absurd hr hne

theorem heft_append (r : Outlet) (queue hand : List Message) :
    r.heft (queue ++ hand) = r.heft queue + weigh hand := by
  rw [heft, heft, weigh_append]
  omega

/-- A branch with a task that encrypts gets on if its port does. -/
theorem lively (hp : p.Lively Live rank) :
    (p.sealed a key base size).Lively (LiveSealed p size Live) (rankSealed size rank) := by
  constructor
  case live =>
    intro (k : SealingTask p.State) (k' : SealingTask p.State) t watchful h hleads
    rcases p.sealed_cases a key base size rfl with hcase | hcase
    · exact h.task hcase hleads
    · exact h.ported hp hcase hleads
  case work =>
    intro (k : SealingTask p.State) (k' : SealingTask p.State) t watchful h hnext
    rcases p.sealed_cases a key base size hnext with hcase | hcase
    · cases hcase with
      | notices phase =>
          refine rank_closing ?_
          rw [phase]
          show 2 < size.val + 30
          omega
      | @refused index m last phase =>
          refine rank_closing ?_
          rw [phase]
          cases last with
          | true => exact Nat.lt_succ_self 2
          | false =>
              show 2 < size.val + 31
              omega
      | @sends index m last phase held empty =>
          refine rank_task rfl rfl rfl ?_
          rw [phase, empty]
          cases last <;> exact Nat.add_lt_add_right (Nat.lt_succ_self _) _
      | closes phase =>
          refine rank_task rfl rfl rfl ?_
          rw [phase]
          exact Nat.add_lt_add_right (Nat.lt_succ_self _) _
    · cases hcase with
      | @asks room fed r reader box step held hread =>
          obtain ⟨hroom, hfed⟩ := hp.ask h.port step
          obtain ⟨-, hle, hlt⟩ := hfed r
          have hreads := reads_of_read hread h.sound.queue
          rw [rankSealed, rankSealed, heft_append, heft_append, held]
          dsimp only
          rcases hreads.lightens hroom with hless | ⟨hsame, hnone⟩
          · omega
          · have := hlt hnone
            omega
      | works step =>
          have := (hp.work h.port step).2
          rw [rankSealed, rankSealed]
          dsimp only
          omega
      | leaves step => exact absurd step (hp.stays h.port)
      | done step held =>
          rw [rankSealed, rankSealed, held]
          exact Nat.lt_succ_self _
  case leave =>
    intro (k : SealingTask p.State) (k' : SealingTask p.State) t watchful h hnext
    rcases p.sealed_cases a key base size hnext with hcase | hcase
    · cases hcase with
      | leaves phase =>
          refine rank_task rfl rfl rfl ?_
          rw [phase]
          exact Nat.add_lt_add_right (Nat.lt_succ_self _) _
    · cases hcase
  case read =>
    intro (k : SealingTask p.State) t watchful room fed otherwise h hnext
    rcases p.sealed_cases a key base size hnext with hcase | hcase
    · cases hcase with
      | @fills index filled _ phase other =>
          have hlen := h.sound.filling index filled phase
          refine ⟨by omega, fun r hr => rank_filledWith phase hlen hr, fun k' hk' => ?_⟩
          rw [hk'] at other
          split at other
          · cases other
            refine rank_closing ?_
            rw [phase]
            show 2 < size.val + 30
            omega
          · cases other
    · cases hcase
  case busy =>
    intro (k : SealingTask p.State) h hbusy
    have htask : ∀ {deed : Deed (SealingTask p.State)} (watchful : Bool),
        SealingCase a key base size k watchful deed → deed = .rest →
        (k.phase.hand ≠ [] ∧ k.left = false ∧ k.queue ≠ []) ∨ k.phase = .gone := by
      intro deed watchful hcase hrest
      cases hcase with
      | full phase held waiting =>
          refine Or.inl ⟨?_, held, waiting⟩
          rw [phase]
          nofun
      | idle phase => exact Or.inr phase
      | notices | fills | refused | sends | closes | leaves => cases hrest
    by_cases hport : portDeed p k = .rest
    · refine ⟨.stage, fun watchful hrest => ?_⟩
      have hcase := port_case p k
      rw [hport] at hcase
      cases hcase with
      | waits step held hread =>
          -- the port waits at an empty channel that is open
          have hreads := reads_of_read hread h.sound.queue
          rcases htask watchful (sealing_case a key base size k watchful) hrest with
            ⟨-, -, hfull⟩ | hgone
          · exact hfull hreads.of_waiting.1
          · cases hreads.of_waiting.2.symm.trans (h.sound.closed.mpr (Or.inr hgone))
      | mute step left =>
          obtain ⟨r, hr⟩ := Option.isSome_iff_exists.mp (h.done left)
          cases step.symm.trans (Port.result_eq_some_iff.mp hr)
      | idle step left =>
          rcases htask watchful (sealing_case a key base size k watchful) hrest with
            ⟨-, hheld, -⟩ | hgone
          · cases hheld.symm.trans left
          · rcases hbusy with hheld | hnone
            · change k.phase.isGone = false at hheld
              rw [hgone] at hheld
              cases hheld
            · cases hnone.symm.trans (Port.result_eq_some_iff.mpr step)
    · exact ⟨.port, fun _ => hport⟩

/-- A task that encrypts gives its output up when the port is done. -/
theorem givesUp (p : Port α) :
    (p.sealed a key base size).GivesUp (LiveSealed p size p.IsDone) := by
  intro (k : SealingTask p.State) h hheld
  obtain ⟨r, hr⟩ := Option.isSome_iff_exists.mp h.port
  have hstep := Port.result_eq_some_iff.mp hr
  cases hleft : k.left with
  | false =>
      refine ⟨.port, fun watchful => ?_⟩
      show (portDeed p k).Moves
      rw [portDeed, hstep, hleft]
      trivial
  | true =>
      refine ⟨.stage, fun watchful => ?_⟩
      show (sealingDeed a key base size k watchful).Moves
      have hcase := sealing_case a key base size k watchful
      generalize sealingDeed a key base size k watchful = deed at hcase
      cases hcase with
      | notices | refused | sends | closes | leaves => trivial
      | fills phase other =>
          rw [hleft, if_pos rfl] at other
          rw [other]
          rfl
      | full phase held => cases held.symm.trans hleft
      | idle phase =>
          change k.phase.isGone = false at hheld
          rw [phase] at hheld
          cases hheld

/-- A port that gets on from the start makes a branch that does. -/
theorem getsOn (hp : p.Lively Live rank) (hstart : Live p.start) :
    (p.sealed a key base size).GetsOn := ⟨_, _, lively hp, live_start hstart⟩

theorem settles (p : Port α) : (p.sealed a key base size).Settles := by
  refine ⟨SealingTask.Sound size, _, _, lively p.lively_done, givesUp p, sound_start p.start size,
    ?_, ?_⟩
  · intro k k' t watchful h hleads
    rcases p.sealed_cases a key base size rfl with hcase | hcase
    · exact h.task hcase hleads
    · exact h.ported hcase hleads
  · intro k r h hr
    have hdone : p.IsDone k.port := Option.isSome_iff_exists.mpr ⟨r, hr⟩
    exact ⟨h, hdone, fun _ => hdone⟩

end Sealed

end ContentVault
