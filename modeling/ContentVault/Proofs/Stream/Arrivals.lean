import ContentVault.Proofs.Stream.Books
import Mathlib.Data.List.Induction

/-! # A channel that fills while it is read

    The sender of a channel puts chunks of any length and failures into it, may
    raise the flag that the stream is cut short, and goes away some time or
    never.  The reader reads in between, in portions of any size, even of none.
    A `Channel` is both at work, with what was sent and what was read so far.

    A read takes the messages one by one until one has something to say, and
    looks at the flag last.  What the sender does between two looks might as
    well have been done before the read (`receiveAmid_eq`), so a read is one
    event.

    Every event keeps the books (`Balanced.performed`): what was read and what is
    still to come are the chunks that were sent.  Main statement:
    `delivered_in_any_portions`. -/

namespace ContentVault

open Outlet Reception

theorem OutletState.ended_ne_failed : OutletState.ended ≠ .failed := by decide

/-! ## The sending side -/

/-- What the sending side of a channel does. -/
inductive Sending where
  | send (message : Message)
  /-- The sender goes away. -/
  | close
  /-- The flag is raised that the stream is cut short. -/
  | abort
deriving DecidableEq, Repr

namespace Mailbox

/-- What an act of the sending side changes.  Who is gone sends nothing. -/
def handle (box : Mailbox) : Sending → Mailbox
  | .send m => if box.closed then box else { box with queue := box.queue ++ [m] }
  | .close => { box with closed := true }
  | .abort => { box with aborted := true }

/-- What acts of the sending side change, one after the other. -/
def afterActs (box : Mailbox) (acts : List Sending) : Mailbox := acts.foldl handle box

theorem afterActs_append (box : Mailbox) (acts more : List Sending) :
    box.afterActs (acts ++ more) = (box.afterActs acts).afterActs more := List.foldl_append

/-- A message that waits in front goes on waiting there. -/
theorem afterActs_cons (m : Message) (box : Mailbox) (acts : List Sending) :
    Mailbox.afterActs { box with queue := m :: box.queue } acts
      = { box.afterActs acts with queue := m :: (box.afterActs acts).queue } := by
  induction acts generalizing box with
  | nil => rfl
  | cons act acts ih =>
      have hact : Mailbox.handle { box with queue := m :: box.queue } act
          = { box.handle act with queue := m :: (box.handle act).queue } := by
        cases act with
        | close => rfl
        | abort => rfl
        | send message =>
            rw [handle, handle]
            split
            · rfl
            · rfl
      calc Mailbox.afterActs { box with queue := m :: box.queue } (act :: acts)
          = Mailbox.afterActs (Mailbox.handle { box with queue := m :: box.queue } act) acts := rfl
        _ = _ := by rw [hact, ih]; rfl

end Mailbox

/-! ## A read and the sender beside it -/

namespace Outlet

/-- What a reader with nothing at hand comes to on a mailbox. -/
def receiveFrom (box : Mailbox) (room : Nat) : Option ReadResult × Outlet × Mailbox :=
  let (result, r, queue) := receive box.closed box.aborted room box.queue
  (result, r, { box with queue })

theorem read_waiting (box : Mailbox) (room : Nat) :
    Outlet.read ⟨[], .active⟩ box room = receiveFrom box room := rfl

/-- An empty chunk makes no difference to a read. -/
theorem receiveFrom_cons_empty (box : Mailbox) (room : Nat) :
    receiveFrom { box with queue := .chunk [] :: box.queue } room = receiveFrom box room := rfl

/-- A read during which the sending side goes on: before each look at the
    mailbox it does what comes next in `amid`. -/
def receiveAmid (room : Nat) :
    List (List Sending) → Mailbox → Option ReadResult × Outlet × Mailbox
  | [], box => receiveFrom box room
  | acts :: amid, box =>
    let box := box.afterActs acts
    match box.queue with
    | .chunk [] :: queue => receiveAmid room amid { box with queue }
    -- that the sender is gone is seen first, and the flag only after that
    | [] => receiveFrom (if box.closed then box.afterActs (amid.headD []) else box) room
    | _ => receiveFrom box room

/-- What the sending side does during a read might as well have been done
    before it. -/
theorem receiveAmid_eq (room : Nat) (amid : List (List Sending)) (box : Mailbox) :
    ∃ acts, acts <+: amid.flatten ∧
      receiveAmid room amid box = receiveFrom (box.afterActs acts) room := by
  induction amid generalizing box with
  | nil => exact ⟨[], List.prefix_refl _, rfl⟩
  | cons acts amid ih =>
      rw [receiveAmid, List.flatten_cons]
      generalize hbox : box.afterActs acts = reached
      obtain ⟨queue, closed, aborted⟩ := reached
      match queue with
      | .chunk [] :: queue =>
          obtain ⟨later, hprefix, hread⟩ := ih ⟨queue, closed, aborted⟩
          refine ⟨acts ++ later, (List.prefix_append_right_inj acts).mpr hprefix, hread.trans ?_⟩
          rw [Mailbox.afterActs_append, hbox,
            Mailbox.afterActs_cons (.chunk []) ⟨queue, closed, aborted⟩, receiveFrom_cons_empty]
      | [] =>
          cases closed with
          | false =>
              refine ⟨acts, List.prefix_append _ _, ?_⟩
              rw [hbox]
              rfl
          | true =>
              have hhead : amid.headD [] <+: amid.flatten := by
                cases amid with
                | nil => exact List.nil_prefix
                | cons next amid => exact List.prefix_append _ _
              refine ⟨acts ++ amid.headD [], (List.prefix_append_right_inj acts).mpr hhead, ?_⟩
              rw [Mailbox.afterActs_append, hbox]
              rfl
      | .chunk (b :: bs) :: queue =>
          refine ⟨acts, List.prefix_append _ _, ?_⟩
          rw [hbox]
      | .failure e :: queue =>
          refine ⟨acts, List.prefix_append _ _, ?_⟩
          rw [hbox]

/-! ## What a read comes to -/

/-- Whether these messages are empty chunks, which say nothing. -/
def Idle (messages : List Message) : Prop := ∀ m ∈ messages, m = .chunk []

theorem Idle.chunkBytes_append {messages : List Message} (h : Idle messages) (queue : List Message) :
    chunkBytes (messages ++ queue) = chunkBytes queue := by
  induction messages with
  | nil => rfl
  | cons m messages ih =>
      obtain rfl := h m List.mem_cons_self
      exact ih fun m hm => h m (List.mem_cons_of_mem _ hm)

theorem Idle.failure?_append {messages : List Message} (h : Idle messages)
    (queue : List Message) : failure? (messages ++ queue) = failure? queue := by
  induction messages with
  | nil => rfl
  | cons m messages ih =>
      obtain rfl := h m List.mem_cons_self
      exact ih fun m hm => h m (List.mem_cons_of_mem _ hm)

theorem Idle.failure?_eq {messages : List Message} (h : Idle messages) :
    failure? messages = none := by
  have hnone := h.failure?_append []
  rwa [List.append_nil] at hnone

theorem Idle.chunkBytes_eq {messages : List Message} (h : Idle messages) :
    chunkBytes messages = [] := by
  have hnone := h.chunkBytes_append []
  rwa [List.append_nil] at hnone

/-- All that a read can come to, on any channel. -/
inductive Reading (closed aborted : Bool) (room : Nat) (waiting : List Message) :
    Outlet → Option ReadResult → Outlet → List Message → Prop where
  /-- The rest of the last chunk is there. -/
  | rest {b : UInt8} {bs : Bytes} {state : OutletState} :
      Reading closed aborted room waiting ⟨b :: bs, state⟩ (some (.ok ((b :: bs).take room)))
        ⟨(b :: bs).drop room, state⟩ waiting
  | ended : Reading closed aborted room waiting ⟨[], .ended⟩ (some (.ok [])) ⟨[], .ended⟩ waiting
  | failed : Reading closed aborted room waiting ⟨[], .failed⟩ (some (.error .alreadyFailed))
      ⟨[], .failed⟩ waiting
  | chunk {skipped queue : List Message} {b : UInt8} {bs : Bytes} (idle : Idle skipped)
      (queued : waiting = skipped ++ .chunk (b :: bs) :: queue) :
      Reading closed aborted room waiting ⟨[], .active⟩ (some (.ok ((b :: bs).take room)))
        ⟨(b :: bs).drop room, .active⟩ queue
  | failure {skipped queue : List Message} {e : IoError} (idle : Idle skipped)
      (queued : waiting = skipped ++ .failure e :: queue) :
      Reading closed aborted room waiting ⟨[], .active⟩ (some (.error e)) ⟨[], .failed⟩ queue
  | waits (idle : Idle waiting) (isOpen : closed = false) :
      Reading closed aborted room waiting ⟨[], .active⟩ none ⟨[], .active⟩ []
  | ends (idle : Idle waiting) (isClosed : closed = true) (quiet : aborted = false) :
      Reading closed aborted room waiting ⟨[], .active⟩ (some (.ok [])) ⟨[], .ended⟩ []
  | cut (idle : Idle waiting) (isClosed : closed = true) (raised : aborted = true) :
      Reading closed aborted room waiting ⟨[], .active⟩ (some (.error (.fault .siblingClosed)))
        ⟨[], .failed⟩ []

/-- Empty chunks in front of a queue change nothing about a read. -/
theorem receive_idle {messages : List Message} (h : Idle messages) (closed aborted : Bool)
    (room : Nat) (queue : List Message) :
    receive closed aborted room (messages ++ queue) = receive closed aborted room queue := by
  induction messages with
  | nil => rfl
  | cons m messages ih =>
      obtain rfl := h m List.mem_cons_self
      exact ih fun m hm => h m (List.mem_cons_of_mem _ hm)

/-- A queue is empty chunks, and then nothing or something to say. -/
theorem exists_idle (queue : List Message) :
    ∃ skipped rest, queue = skipped ++ rest ∧ Idle skipped ∧ rest.head? ≠ some (.chunk []) := by
  induction queue with
  | nil => exact ⟨[], [], rfl, nofun, nofun⟩
  | cons m queue ih =>
      by_cases hm : m = .chunk []
      · obtain ⟨skipped, rest, rfl, hidle, hhead⟩ := ih
        refine ⟨m :: skipped, rest, rfl, fun n hn => ?_, hhead⟩
        rcases List.mem_cons.mp hn with rfl | hn
        · exact hm
        · exact hidle n hn
      · exact ⟨[], m :: queue, rfl, nofun, fun hhead => hm (Option.some.inj hhead)⟩

/-- A read comes to what it can. -/
theorem reading_read (r : Outlet) (box : Mailbox) (room : Nat) :
    Reading box.closed box.aborted room box.queue r (r.read box room).1 (r.read box room).2.1
      (r.read box room).2.2.queue := by
  obtain ⟨pending, state⟩ := r
  obtain ⟨queue, closed, aborted⟩ := box
  cases pending with
  | cons b bs => exact .rest
  | nil =>
      cases state with
      | ended => exact .ended
      | failed => exact .failed
      | active =>
          obtain ⟨skipped, rest, rfl, hidle, hhead⟩ := exists_idle queue
          rw [read_waiting, receiveFrom]
          simp only [receive_idle hidle]
          match rest, hhead with
          | [], _ =>
              rw [List.append_nil]
              cases closed with
              | false => exact .waits hidle rfl
              | true =>
                  cases aborted with
                  | false => exact .ends hidle rfl rfl
                  | true => exact .cut hidle rfl rfl
          | .failure e :: queue, _ => exact .failure hidle rfl
          | .chunk [] :: queue, hhead => exact absurd rfl hhead
          | .chunk (b :: bs) :: queue, _ => exact .chunk hidle rfl

end Outlet

/-! ## A channel at work -/

/-- What happens on a channel. -/
inductive ChannelEvent where
  | act (a : Sending)
  | read (room : Nat)
deriving DecidableEq, Repr

/-- A channel at work. -/
structure Channel where
  box : Mailbox := ⟨[], false, false⟩
  reader : Outlet := {}
  /-- The messages that were sent, oldest first. -/
  sent : List Message := []
  /-- The reads that did not have to wait, oldest first: the room that each of
      them had, and what it came to. -/
  reads : List (Nat × ReadResult) := []

namespace Channel

/-- The messages that an act sends. -/
def sends (box : Mailbox) : Sending → List Message
  | .send m => if box.closed then [] else [m]
  | .close => []
  | .abort => []

/-- What the next read with this room comes to; nothing if it has to wait. -/
def answer (c : Channel) (room : Nat) : Option ReadResult := (c.reader.read c.box room).1

/-- What an event changes. -/
def perform (c : Channel) : ChannelEvent → Channel
  | .act a => { c with box := c.box.handle a, sent := c.sent ++ sends c.box a }
  | .read room =>
    let (result, reader, box) := c.reader.read c.box room
    { c with reader, box, reads := c.reads ++ (result.map fun x => (room, x)).toList }

/-- What events change, one after the other. -/
def after (c : Channel) (events : List ChannelEvent) : Channel := events.foldl perform c

theorem after_append (c : Channel) (events more : List ChannelEvent) :
    c.after (events ++ more) = (c.after events).after more := List.foldl_append

theorem after_concat (c : Channel) (events : List ChannelEvent) (e : ChannelEvent) :
    c.after (events ++ [e]) = (c.after events).perform e := after_append c events [e]

/-! ## The books -/

/-- The books of a channel. -/
structure Balanced (c : Channel) : Prop where
  /-- The bytes sent in front of a failure were read or are still to come. -/
  bytes : bytesOf c.reads ++ c.reader.toCome c.box.queue = chunkBytes c.sent
  active : c.reader.state = .active →
    ∃ received, c.sent = received ++ c.box.queue ∧ failure? received = none
  spent : c.reader.state ≠ .active → c.reader.pending = []
  ended : c.reader.state = .ended → c.box.closed = true ∧ failure? c.sent = none
  failed : c.reader.state = .failed → c.box.closed = true ∨ failure? c.sent ≠ none
  /-- A reader that has failed has told so. -/
  told : c.reader.state = .failed → failureOf c.reads ≠ none

theorem balanced_start : Balanced {} where
  bytes := rfl
  active _ := ⟨[], rfl, rfl⟩
  spent h := absurd rfl h
  ended := nofun
  failed := nofun
  told := nofun

/-- Nothing counts that is sent after a failure. -/
theorem chunkBytes_append_of_failure {q : List Message} (h : failure? q ≠ none)
    (r : List Message) : chunkBytes (q ++ r) = chunkBytes q := by
  induction q with
  | nil => exact absurd rfl h
  | cons m q ih =>
      cases m with
      | failure e => rfl
      | chunk bytes => exact congrArg (bytes ++ ·) (ih h)

/-- The bytes at hand of a reader that goes on, and what was read, are those of
    the messages taken out. -/
theorem Balanced.bytes_received {c : Channel} (h : Balanced c) (hactive : c.reader.state = .active)
    {received : List Message} (hsent : c.sent = received ++ c.box.queue)
    (hclear : failure? received = none) :
    bytesOf c.reads ++ c.reader.pending = chunkBytes received := by
  have hbytes := h.bytes
  rw [hsent, chunkBytes_append hclear, toCome, if_pos hactive, ← List.append_assoc] at hbytes
  exact List.append_cancel_right hbytes

/-- A message that is sent. -/
theorem Balanced.sending {c : Channel} (h : Balanced c) (hopen : c.box.closed = false)
    (m : Message) :
    Balanced { c with box := { c.box with queue := c.box.queue ++ [m] }, sent := c.sent ++ [m] } := by
  have hover : c.reader.state ≠ .active → failure? c.sent ≠ none := by
    intro hne
    cases hstate : c.reader.state with
    | active => exact absurd hstate hne
    | ended => cases hopen.symm.trans (h.ended hstate).1
    | failed => exact (h.failed hstate).resolve_left fun hc => nomatch hopen.symm.trans hc
  constructor
  case bytes =>
    show bytesOf c.reads ++ c.reader.toCome (c.box.queue ++ [m]) = chunkBytes (c.sent ++ [m])
    by_cases hactive : c.reader.state = .active
    · obtain ⟨received, hsent, hclear⟩ := h.active hactive
      rw [hsent, List.append_assoc, chunkBytes_append hclear,
        ← h.bytes_received hactive hsent hclear, toCome, if_pos hactive, List.append_assoc]
    · rw [chunkBytes_append_of_failure (hover hactive), ← h.bytes, toCome, toCome,
        if_neg hactive, if_neg hactive]
  case active =>
    intro hactive
    obtain ⟨received, hsent, hclear⟩ := h.active hactive
    refine ⟨received, ?_, hclear⟩
    show c.sent ++ [m] = received ++ (c.box.queue ++ [m])
    rw [hsent, List.append_assoc]
  case spent => exact h.spent
  case ended => exact fun hstate => nomatch hopen.symm.trans (h.ended hstate).1
  case failed =>
    intro hstate
    have hfailure := hover fun hactive =>
      OutletState.failed_ne_active (hstate.symm.trans hactive)
    refine Or.inr fun hnone => hfailure ?_
    rw [failure?_append, Option.or_eq_none_iff] at hnone
    exact hnone.1
  case told => exact h.told

/-- An act of the sending side keeps the books. -/
theorem Balanced.acted {c : Channel} (h : Balanced c) (a : Sending) :
    Balanced (c.perform (.act a)) := by
  cases a with
  | send m =>
      cases hclosed : c.box.closed with
      | false =>
          have hsame : c.perform (.act (.send m))
              = { c with box := { c.box with queue := c.box.queue ++ [m] }
                         sent := c.sent ++ [m] } := by
            simp only [perform, Mailbox.handle, sends, hclosed, Bool.false_eq_true, if_false]
          rw [hsame]
          exact h.sending hclosed m
      | true =>
          have hsame : c.perform (.act (.send m)) = c := by
            simp only [perform, Mailbox.handle, sends, hclosed, if_true, List.append_nil]
          rw [hsame]
          exact h
  | close =>
      have hsame : c.perform (.act .close) = { c with box := { c.box with closed := true } } := by
        simp only [perform, Mailbox.handle, sends, List.append_nil]
      rw [hsame]
      exact { h with
        ended := fun hstate => ⟨rfl, (h.ended hstate).2⟩
        failed := fun _ => Or.inl rfl }
  | abort =>
      have hsame : c.perform (.act .abort) = { c with box := { c.box with aborted := true } } := by
        simp only [perform, Mailbox.handle, sends, List.append_nil]
      rw [hsame]
      exact { h with }

theorem bytesOf_snoc (reads : List (Nat × ReadResult)) (room : Nat) (result : ReadResult) :
    bytesOf (reads ++ [(room, result)]) = bytesOf reads ++ given (some result) := by
  rw [bytesOf_append]
  exact congrArg (bytesOf reads ++ ·) (List.append_nil _)

/-- What a read changes. -/
theorem exists_reading (c : Channel) (room : Nat) :
    ∃ result r queue, Reading c.box.closed c.box.aborted room c.box.queue c.reader result r queue ∧
      c.answer room = result ∧
      c.perform (.read room) = ⟨⟨queue, c.box.closed, c.box.aborted⟩, r, c.sent,
        c.reads ++ (result.map fun x => (room, x)).toList⟩ := by
  have hbox : (c.reader.read c.box room).2.2
      = ⟨(c.reader.read c.box room).2.2.queue, c.box.closed, c.box.aborted⟩ := by
    rw [Outlet.read]
    split
    · rfl
    · split
      · rfl
      · rfl
      · rfl
  refine ⟨_, _, _, reading_read c.reader c.box room, rfl, ?_⟩
  rw [← hbox]
  rfl

section

variable {waiting sent : List Message} {closed aborted : Bool} {reads : List (Nat × ReadResult)}

/-- What is known when a reader goes on that has nothing at hand. -/
theorem Balanced.of_waiting (h : Balanced ⟨⟨waiting, closed, aborted⟩, ⟨[], .active⟩, sent, reads⟩) :
    bytesOf reads ++ chunkBytes waiting = chunkBytes sent ∧ failure? sent = failure? waiting := by
  refine ⟨h.bytes, ?_⟩
  obtain ⟨received, hsent, hclear⟩ := h.active rfl
  change sent = received ++ waiting at hsent
  rw [hsent, failure?_append, hclear, Option.none_or]

/-- A read of bytes that are at hand. -/
theorem bytesOf_take (reads : List (Nat × ReadResult)) (room : Nat) (bytes : Bytes) :
    bytesOf (reads ++ [(room, .ok (bytes.take room))]) ++ bytes.drop room
      = bytesOf reads ++ bytes := by
  rw [bytesOf_snoc, given, List.append_assoc, List.take_append_drop]

/-- A read that gives no bytes, for a reader that goes on no more. -/
theorem balanced_of_over {queue : List Message} {state : OutletState} {room : Nat}
    {result : ReadResult} (hbytes : bytesOf reads = chunkBytes sent) (hover : state ≠ .active)
    (hgiven : given (some result) = [])
    (hended : state = .ended → closed = true ∧ failure? sent = none)
    (hfailed : state = .failed → (closed = true ∨ failure? sent ≠ none) ∧ ∃ e, result = .error e) :
    Balanced ⟨⟨queue, closed, aborted⟩, ⟨[], state⟩, sent, reads ++ [(room, result)]⟩ where
  bytes := by
    show bytesOf (reads ++ [(room, result)]) ++ toCome ⟨[], state⟩ queue = _
    rw [bytesOf_snoc, hgiven, toCome, if_neg hover, List.append_nil, List.append_nil,
      List.append_nil, hbytes]
  active hactive := absurd hactive hover
  spent _ := rfl
  ended := hended
  failed hstate := (hfailed hstate).1
  told hstate := by
    obtain ⟨-, e, rfl⟩ := hfailed hstate
    rw [failureOf_append]
    intro hnone
    cases (Option.or_eq_none_iff.mp hnone).2

/-- A read of bytes, or of none, for a reader that goes on. -/
theorem balanced_of_active (received : List Message) {queue : List Message} {pending : Bytes}
    (hsent : sent = received ++ queue) (hclear : failure? received = none)
    (hbytes : bytesOf reads ++ pending = chunkBytes received) :
    Balanced ⟨⟨queue, closed, aborted⟩, ⟨pending, .active⟩, sent, reads⟩ where
  bytes := by
    show bytesOf reads ++ (pending ++ chunkBytes queue) = chunkBytes sent
    rw [hsent, chunkBytes_append hclear, ← hbytes, List.append_assoc]
  active _ := ⟨received, hsent, hclear⟩
  spent hne := absurd rfl hne
  ended := nofun
  failed := nofun
  told := nofun

/-- A read keeps the books. -/
theorem Balanced.read {c : Channel} (h : Balanced c) (room : Nat) :
    Balanced (c.perform (.read room)) := by
  obtain ⟨result, r, queue, hreading, -, hperform⟩ := c.exists_reading room
  rw [hperform]
  obtain ⟨⟨waiting, closed, aborted⟩, reader, sent, reads⟩ := c
  dsimp only at hreading ⊢
  cases hreading with
  | @rest b bs state =>
      obtain rfl : state = .active := by
        by_contra hne
        exact absurd (h.spent hne) nofun
      obtain ⟨received, hsent, hclear⟩ := h.active rfl
      refine balanced_of_active received hsent hclear ?_
      exact (bytesOf_take reads room (b :: bs)).trans (h.bytes_received rfl hsent hclear)
  | ended =>
      have hbytes := h.bytes
      rw [toCome, if_neg OutletState.ended_ne_active, List.append_nil, List.append_nil] at hbytes
      exact balanced_of_over hbytes OutletState.ended_ne_active rfl h.ended
        OutletState.ended_ne_failed.elim
  | failed =>
      have hbytes := h.bytes
      rw [toCome, if_neg OutletState.failed_ne_active, List.append_nil, List.append_nil] at hbytes
      exact balanced_of_over hbytes OutletState.failed_ne_active rfl
        OutletState.ended_ne_failed.symm.elim
        fun hstate => ⟨h.failed hstate, _, rfl⟩
  | @chunk skipped queue b bs idle queued =>
      obtain ⟨received, hsent, hclear⟩ := h.active rfl
      have hbytes := h.bytes_received rfl hsent hclear
      change sent = received ++ waiting at hsent
      refine balanced_of_active (received ++ (skipped ++ [.chunk (b :: bs)])) ?_ ?_ ?_
      · rw [hsent, queued, List.append_assoc, List.append_assoc]
        rfl
      · rw [failure?_append, hclear, idle.failure?_append]
        rfl
      · refine (bytesOf_take reads room (b :: bs)).trans ?_
        rw [chunkBytes_append hclear, idle.chunkBytes_append, ← hbytes, List.append_nil]
        exact congrArg (bytesOf reads ++ ·) (List.append_nil (b :: bs)).symm
  | @failure skipped queue e idle queued =>
      obtain ⟨hbytes, hfailure⟩ := h.of_waiting
      rw [queued, idle.chunkBytes_append] at hbytes
      rw [queued, idle.failure?_append] at hfailure
      refine balanced_of_over ((List.append_nil _).symm.trans hbytes) OutletState.failed_ne_active
        rfl OutletState.ended_ne_failed.symm.elim fun _ => ⟨Or.inr fun hnone => ?_, e, rfl⟩
      cases hfailure.symm.trans hnone
  | waits idle isOpen =>
      obtain ⟨received, hsent, hclear⟩ := h.active rfl
      have hbytes := h.bytes_received rfl hsent hclear
      refine balanced_of_active (received ++ waiting) ?_ ?_ ?_
      · exact hsent.trans (List.append_nil _).symm
      · rw [failure?_append, hclear, idle.failure?_eq]
        rfl
      · refine (congrArg (bytesOf · ++ []) (List.append_nil reads)).trans (hbytes.trans ?_)
        rw [chunkBytes_append hclear, idle.chunkBytes_eq, List.append_nil]
  | ends idle isClosed quiet =>
      obtain ⟨hbytes, hfailure⟩ := h.of_waiting
      rw [idle.chunkBytes_eq] at hbytes
      exact balanced_of_over ((List.append_nil _).symm.trans hbytes) OutletState.ended_ne_active
        rfl (fun _ => ⟨isClosed, hfailure.trans idle.failure?_eq⟩) OutletState.ended_ne_failed.elim
  | cut idle isClosed raised =>
      obtain ⟨hbytes, -⟩ := h.of_waiting
      rw [idle.chunkBytes_eq] at hbytes
      exact balanced_of_over ((List.append_nil _).symm.trans hbytes) OutletState.failed_ne_active
        rfl OutletState.ended_ne_failed.symm.elim fun _ => ⟨Or.inl isClosed, _, rfl⟩

end

/-- Every event keeps the books. -/
theorem Balanced.performed {c : Channel} (h : Balanced c) (e : ChannelEvent) :
    Balanced (c.perform e) := by
  cases e with
  | act a => exact h.acted a
  | read room => exact h.read room

/-- The books are right after any events. -/
theorem balanced_after (events : List ChannelEvent) : Balanced (Channel.after {} events) := by
  induction events using List.reverseRecOn with
  | nil => exact balanced_start
  | append_singleton events e ih =>
      rw [after_concat]
      exact ih.performed e

/-! ## The flag, and how a channel is left -/

/-- Whether the sender went away, and the flag had not been raised by then. -/
def ClosedQuietly (events : List ChannelEvent) : Prop :=
  ∃ before later, events = before ++ .act .close :: later ∧ .act .abort ∉ before

theorem ClosedQuietly.append {events : List ChannelEvent} (h : ClosedQuietly events)
    (more : List ChannelEvent) : ClosedQuietly (events ++ more) := by
  obtain ⟨before, later, rfl, hquiet⟩ := h
  exact ⟨before, later ++ more, List.append_assoc .., hquiet⟩

/-- What an event can change about what a mailbox shows of its sender. -/
theorem box_perform (c : Channel) (e : ChannelEvent) :
    ((c.perform e).box.closed = true → c.box.closed = true ∨ e = .act .close) ∧
      ((c.perform e).box.aborted = false → c.box.aborted = false ∧ e ≠ .act .abort) := by
  cases e with
  | read room =>
      obtain ⟨result, r, queue, -, -, hperform⟩ := c.exists_reading room
      rw [hperform]
      exact ⟨Or.inl, fun h => ⟨h, nofun⟩⟩
  | act a =>
      show ((c.box.handle a).closed = true → _) ∧ ((c.box.handle a).aborted = false → _)
      cases a with
      | send m =>
          rw [Mailbox.handle]
          split
          · exact ⟨Or.inl, fun h => ⟨h, nofun⟩⟩
          · exact ⟨Or.inl, fun h => ⟨h, nofun⟩⟩
      | close => exact ⟨fun _ => Or.inr rfl, fun h => ⟨h, nofun⟩⟩
      | abort => exact ⟨Or.inl, nofun⟩

/-- A mailbox shows what its sender did. -/
theorem box_after (events : List ChannelEvent) :
    ((Channel.after {} events).box.closed = true → .act .close ∈ events) ∧
      ((Channel.after {} events).box.aborted = false → .act .abort ∉ events) := by
  induction events using List.reverseRecOn with
  | nil => exact ⟨nofun, fun _ => List.not_mem_nil⟩
  | append_singleton events e ih =>
      obtain ⟨hclosed, haborted⟩ := (Channel.after {} events).box_perform e
      rw [after_concat]
      constructor
      · intro h
        rcases hclosed h with h | rfl
        · exact List.mem_append_left _ (ih.1 h)
        · exact List.mem_append_right _ (List.mem_singleton_self _)
      · intro h hmem
        obtain ⟨hquiet, hne⟩ := haborted h
        rcases List.mem_append.mp hmem with hmem | hmem
        · exact ih.2 hquiet hmem
        · exact hne (List.mem_singleton.mp hmem).symm

/-- A channel that is closed while the flag is down was closed quietly. -/
theorem closedQuietly_of_box (events : List ChannelEvent)
    (hclosed : (Channel.after {} events).box.closed = true)
    (hquiet : (Channel.after {} events).box.aborted = false) : ClosedQuietly events := by
  obtain ⟨before, later, rfl⟩ := List.append_of_mem ((box_after events).1 hclosed)
  exact ⟨before, later, rfl, fun h => (box_after _).2 hquiet (List.mem_append_left _ h)⟩

/-- Only a channel that was closed quietly is seen to end. -/
theorem closedQuietly_of_ended (events : List ChannelEvent)
    (h : (Channel.after {} events).reader.state = .ended) : ClosedQuietly events := by
  induction events using List.reverseRecOn with
  | nil => cases h
  | append_singleton events e ih =>
      rw [after_concat] at h
      cases e with
      | act a => exact (ih h).append _
      | read room =>
          have hbox := closedQuietly_of_box events
          obtain ⟨result, r, queue, hreading, -, hperform⟩ :=
            (Channel.after {} events).exists_reading room
          rw [hperform] at h
          generalize (Channel.after {} events).reader = reader at hreading ih
          -- the reader was over before, or it has just looked at the flag
          cases hreading with
          | rest | ended => exact (ih h).append _
          | ends idle isClosed quiet => exact (hbox isClosed quiet).append _
          | failed | chunk | failure | waits | cut => cases h

/-- A reader that reads leave as it is stays so. -/
theorem reader_after {r : Outlet} (result : ReadResult)
    (hrests : ∀ box room, r.read box room = (some result, r, box)) {c : Channel}
    (h : c.reader = r) (events : List ChannelEvent) : (c.after events).reader = r := by
  induction events generalizing c with
  | nil => exact h
  | cons e events ih =>
      refine ih ?_
      cases e with
      | act a => exact h
      | read room =>
          show (c.reader.read c.box room).2.1 = r
          rw [h, hrests]

/-- Whoever has seen the end sees it again, whatever happens. -/
theorem answer_after_end {c : Channel} (h : c.reader = ⟨[], .ended⟩) (events : List ChannelEvent)
    (room : Nat) : (c.after events).answer room = some (.ok []) := by
  rw [answer, reader_after (.ok []) (fun _ _ => rfl) h events]
  rfl

/-- Whoever has seen a failure is told that there was one, whatever happens. -/
theorem answer_after_failure {c : Channel} (h : c.reader = ⟨[], .failed⟩)
    (events : List ChannelEvent) (room : Nat) :
    (c.after events).answer room = some (.error .alreadyFailed) := by
  rw [answer, reader_after (.error .alreadyFailed) (fun _ _ => rfl) h events]
  rfl

/-! ## What the answers mean -/

namespace Balanced

variable {c : Channel} {room : Nat}

/-- A reader that is over has read all. -/
theorem all_of_over (h : Balanced c) (hover : c.reader.state ≠ .active) :
    bytesOf c.reads = chunkBytes c.sent := by
  have hbytes := h.bytes
  rwa [toCome, if_neg hover, h.spent hover, List.append_nil, List.append_nil] at hbytes

/-- What a read gives comes next. -/
theorem of_bytes (h : Balanced c) {bytes : Bytes} (hanswer : c.answer room = some (.ok bytes)) :
    bytesOf c.reads ++ bytes <+: chunkBytes c.sent ∧ bytes.length ≤ room := by
  have hlaw := c.reader.given_read c.box room
  have hfits := c.reader.length_read c.box room
  rw [answer] at hanswer
  rcases hread : c.reader.read c.box room with ⟨result, r, box⟩
  rw [hread] at hanswer hlaw hfits
  obtain rfl : result = some (.ok bytes) := hanswer
  refine ⟨⟨r.toCome box.queue, ?_⟩, hfits⟩
  calc bytesOf c.reads ++ bytes ++ r.toCome box.queue
      = bytesOf c.reads ++ c.reader.toCome c.box.queue := by rw [List.append_assoc, ← hlaw]; rfl
    _ = chunkBytes c.sent := h.bytes

/-- Who waits has read all, and the sender is still there. -/
theorem of_wait (h : Balanced c) (hanswer : c.answer room = none) :
    bytesOf c.reads = chunkBytes c.sent ∧ failure? c.sent = none ∧ c.box.closed = false := by
  obtain ⟨result, r, queue, hreading, hresult, -⟩ := c.exists_reading room
  cases hresult.symm.trans hanswer
  obtain ⟨⟨waiting, closed, aborted⟩, reader, sent, reads⟩ := c
  dsimp only at hreading ⊢
  cases hreading with
  | waits idle isOpen =>
      obtain ⟨hbytes, hfailure⟩ := h.of_waiting
      rw [idle.chunkBytes_eq, List.append_nil] at hbytes
      exact ⟨hbytes, hfailure.trans idle.failure?_eq, isOpen⟩

/-- A read with room that gives nothing has come to the end. -/
theorem of_end (h : Balanced c) (hroom : room ≠ 0) (hanswer : c.answer room = some (.ok [])) :
    bytesOf c.reads = chunkBytes c.sent ∧ failure? c.sent = none ∧
      (c.reader.state = .ended ∨ (c.box.closed = true ∧ c.box.aborted = false)) ∧
      (c.perform (.read room)).reader = ⟨[], .ended⟩ := by
  obtain ⟨result, r, queue, hreading, hresult, hperform⟩ := c.exists_reading room
  rw [hperform]
  have hsome : ∀ {b : UInt8} {bs : Bytes}, result ≠ some (.ok ((b :: bs).take room)) := by
    intro b bs hbytes
    cases room with
    | zero => exact hroom rfl
    | succ room => cases (hbytes.symm.trans hresult.symm).trans hanswer
  obtain ⟨⟨waiting, closed, aborted⟩, reader, sent, reads⟩ := c
  dsimp only at hreading ⊢
  cases hreading with
  | rest | chunk => exact absurd rfl hsome
  | ended =>
      exact ⟨h.all_of_over OutletState.ended_ne_active, (h.ended rfl).2, Or.inl rfl, rfl⟩
  | ends idle isClosed quiet =>
      obtain ⟨hbytes, hfailure⟩ := h.of_waiting
      rw [idle.chunkBytes_eq, List.append_nil] at hbytes
      exact ⟨hbytes, hfailure.trans idle.failure?_eq, Or.inr ⟨isClosed, quiet⟩, rfl⟩
  | failed | failure | waits | cut => cases hresult.symm.trans hanswer

/-- A read that fails has come to a failure, or the stream was cut short. -/
theorem of_failure (h : Balanced c) {e : IoError} (hanswer : c.answer room = some (.error e)) :
    bytesOf c.reads = chunkBytes c.sent ∧
      (failureOf c.reads = none → failure? c.sent = some e ∨
        (e = .fault .siblingClosed ∧ failure? c.sent = none ∧ c.box.closed = true ∧
          c.box.aborted = true)) ∧
      (c.perform (.read room)).reader = ⟨[], .failed⟩ := by
  obtain ⟨result, r, queue, hreading, hresult, hperform⟩ := c.exists_reading room
  rw [hperform]
  obtain ⟨⟨waiting, closed, aborted⟩, reader, sent, reads⟩ := c
  dsimp only at hreading ⊢
  cases hreading with
  | rest | ended | chunk | waits | ends => cases hresult.symm.trans hanswer
  | failed =>
      refine ⟨h.all_of_over OutletState.failed_ne_active, fun hnone => ?_, rfl⟩
      exact absurd hnone (h.told rfl)
  | @failure skipped queue e idle queued =>
      cases hresult.symm.trans hanswer
      obtain ⟨hbytes, hfailure⟩ := h.of_waiting
      rw [queued, idle.chunkBytes_append] at hbytes
      rw [queued, idle.failure?_append] at hfailure
      exact ⟨(List.append_nil _).symm.trans hbytes, fun _ => Or.inl hfailure, rfl⟩
  | cut idle isClosed raised =>
      cases hresult.symm.trans hanswer
      obtain ⟨hbytes, hfailure⟩ := h.of_waiting
      rw [idle.chunkBytes_eq, List.append_nil] at hbytes
      exact ⟨hbytes, fun _ => Or.inr ⟨rfl, hfailure.trans idle.failure?_eq, isClosed, raised⟩, rfl⟩

end Balanced

/-- Whatever happened on a channel so far, the bytes that were read are the first
    ones of the chunks sent in front of a failure.  The next read, of any size,

    * waits only if all of these bytes were read, there is no failure and the
      sender is still there;
    * gives the bytes that come next; and if it gives none though there was room,
      all were read, there is no failure, and the channel was closed with the
      flag down; from then on every read gives none;
    * fails only if all of these bytes were read; the first failure is the one
      that was sent, or the stream was cut short; from then on every read fails
      with a broken pipe. -/
theorem delivered_in_any_portions (events : List ChannelEvent) (room : Nat) :
    let c := Channel.after {} events
    bytesOf c.reads <+: chunkBytes c.sent ∧
    IoError.alreadyFailed.kind = .brokenPipe ∧
    match c.answer room with
    | none =>
      bytesOf c.reads = chunkBytes c.sent ∧ failure? c.sent = none ∧ c.box.closed = false
    | some (.ok bytes) =>
      bytesOf c.reads ++ bytes <+: chunkBytes c.sent ∧ bytes.length ≤ room ∧
      (room ≠ 0 → bytes = [] →
        bytesOf c.reads = chunkBytes c.sent ∧ failure? c.sent = none ∧ ClosedQuietly events ∧
        ∀ later next, ((c.perform (.read room)).after later).answer next = some (.ok []))
    | some (.error e) =>
      bytesOf c.reads = chunkBytes c.sent ∧
      (failureOf c.reads = none →
        failure? c.sent = some e ∨
          (e = .fault .siblingClosed ∧ failure? c.sent = none ∧ c.box.closed = true ∧
            c.box.aborted = true)) ∧
      ∀ later next,
        ((c.perform (.read room)).after later).answer next = some (.error .alreadyFailed) := by
  intro c
  have h : Balanced c := balanced_after events
  refine ⟨⟨_, h.bytes⟩, rfl, ?_⟩
  cases hanswer : c.answer room with
  | none => exact h.of_wait hanswer
  | some result =>
      cases result with
      | ok bytes =>
          obtain ⟨hnext, hfits⟩ := h.of_bytes hanswer
          refine ⟨hnext, hfits, fun hroom hnil => ?_⟩
          rw [hnil] at hanswer
          obtain ⟨hall, hclear, hquiet, hreader⟩ := h.of_end hroom hanswer
          refine ⟨hall, hclear, ?_, fun later next => answer_after_end hreader later next⟩
          rcases hquiet with hended | ⟨hclosed, hdown⟩
          · exact closedQuietly_of_ended events hended
          · exact closedQuietly_of_box events hclosed hdown
      | error e =>
          obtain ⟨hall, hcause, hreader⟩ := h.of_failure hanswer
          exact ⟨hall, hcause, fun later next => answer_after_failure hreader later next⟩

/-- Neither an empty chunk nor a read without room is taken for the end, and a
    flag that goes up after the end was seen changes nothing. -/
example :
    (Channel.after {} [.act (.send (.chunk [])), .act (.send (.chunk [7, 8])), .read 0, .read 1,
      .act .close, .read 9, .read 9, .act .abort, .read 9]).reads
      = [(0, .ok []), (1, .ok [7]), (9, .ok [8]), (9, .ok []), (9, .ok [])] := rfl

end Channel

end ContentVault
