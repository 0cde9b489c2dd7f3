import ContentVault.Proofs.Stream.Crews

/-! # A source behind which a task works

    A stream that is decrypted on its way comes out of a channel that holds one
    message.  A task puts the messages there, one when the last one has been
    taken, and lets go of its end after the last.  For whoever reads, a `Feed`
    is the stream of its messages; it has something to say only while a message
    waits or the task is gone, and its task sees to that (`isEager_upstream`). -/

namespace ContentVault

open ByteReader ReaderView

/-- A stream that a task supplies: all that is still to be taken, how much of it
    is in the channel, and whether the sending end is gone. -/
structure Feed where
  relay : Relay
  sent : Nat := 0
  closed : Bool := false

namespace Feed

/-- Reads once; what is taken leaves the channel. -/
def read (f : Feed) (room : Nat) : ReadResult × Feed :=
  let out := f.relay.read room
  (out.1, { f with
    relay := out.2, sent := f.sent - (f.relay.messages.length - out.2.messages.length) })

/-- Who reads sees the stream of the messages. -/
theorem relay_of_read {f f' : Feed} {room : Nat} {r : ReadResult} (h : f.read room = (r, f')) :
    ByteReader.read f.relay room = (r, f'.relay) := by
  rw [read] at h
  obtain ⟨hr, rfl⟩ := Prod.mk.inj h
  exact Prod.ext hr rfl

instance : ByteReader Feed where
  read := read
  left f := ByteReader.left f.relay
  left_read h := ByteReader.left_read (relay_of_read h)
  length_read h := ByteReader.length_read (relay_of_read h)

instance : ReaderView Feed where
  content f := content f.relay
  ending f := ending f.relay
  read_bytes hroom hne h := ReaderView.read_bytes hroom hne (relay_of_read h)
  read_end hroom h := ReaderView.read_end hroom (relay_of_read h)
  read_failure hroom h := ReaderView.read_failure hroom (relay_of_read h)

/-- Whether a read need not wait. -/
def isReady (f : Feed) : Bool :=
  f.relay.reader.pending ≠ [] || f.relay.reader.state ≠ .active || f.sent ≠ 0 || f.closed

/-- What the task does next, if it can: it lets go of its end when all is sent,
    else it sends a message into an empty channel. -/
def supplied (f : Feed) : Feed :=
  if f.closed then f
  else if f.relay.messages.length ≤ f.sent then { f with closed := true }
  else if f.sent = 0 then { f with sent := 1 }
  else f

/-- What the task has to do until a message is taken. -/
def pendingSteps (f : Feed) : Nat := (if f.sent = 0 then 1 else 0) + if f.closed then 0 else 1

/-- All that the task can do: something that leaves it less to do, unless it is
    gone or has to wait for room. -/
theorem supplied_cases (f : Feed) :
    (f.supplied = f ∧ (f.closed = true ∨ f.sent ≠ 0)) ∨
    (f.supplied.relay = f.relay ∧ f.supplied.pendingSteps < f.pendingSteps) := by
  rw [supplied]
  cases hclosed : f.closed with
  | true => exact Or.inl ⟨rfl, Or.inl rfl⟩
  | false =>
      rw [if_neg Bool.false_ne_true]
      split
      · refine Or.inr ⟨rfl, ?_⟩
        rw [pendingSteps, pendingSteps, hclosed]
        exact Nat.lt_succ_self _
      split
      · rename_i hempty
        refine Or.inr ⟨rfl, ?_⟩
        rw [pendingSteps, pendingSteps, hempty, hclosed]
        exact Nat.lt_succ_self 1
      · rename_i hfull
        exact Or.inl ⟨rfl, Or.inr hfull⟩

theorem relay_supplied (f : Feed) : f.supplied.relay = f.relay := by
  rcases f.supplied_cases with ⟨hsame, -⟩ | ⟨hrelay, -⟩
  · rw [hsame]
  · exact hrelay

/-- The task as what is behind its stream. -/
def upstream : Upstream Feed where
  ready := isReady
  supply := supplied
  rank := pendingSteps
  content_supply f := congrArg (content (σ := Relay)) f.relay_supplied
  ending_supply f := congrArg (ending (σ := Relay)) f.relay_supplied
  left_supply f := congrArg (ByteReader.left (σ := Relay)) f.relay_supplied
  supply_or f := f.supplied_cases.imp And.left And.right

/-- When there is nothing to read, the task has something to do. -/
theorem isEager_upstream : upstream.IsEager := by
  intro f hwaits
  change f.isReady = false at hwaits
  rw [isReady] at hwaits
  simp only [Bool.or_eq_false_iff, decide_eq_false_iff_not, not_not] at hwaits
  obtain ⟨⟨-, hsent⟩, hopen⟩ := hwaits
  rcases f.supplied_cases with ⟨-, hclosed | hfull⟩ | ⟨-, hless⟩
  · cases hopen.symm.trans hclosed
  · exact absurd hsent hfull
  · exact hless

end Feed

end ContentVault
