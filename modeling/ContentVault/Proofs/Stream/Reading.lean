import ContentVault.Proofs.Stream.Outcome

/-! # Reading a stream whose sender is done

    Whoever reads a relay may ask for any number of bytes each time, even for
    none.  The reads give the content of the relay, in its order and without a
    gap, and after that how it ends.  As soon as more of them had room than
    the content has bytes, they have come to the end (`gives`). -/

namespace ContentVault

open ByteReader Outlet Reception

namespace Reception

theorem bytesOf_cons (room : Nat) (bytes : Bytes) (reads : List (Nat × ReadResult)) :
    bytesOf ((room, .ok bytes) :: reads) = bytes ++ bytesOf reads :=
  bytesOf_append [(room, .ok bytes)] reads |>.trans (by rw [bytesOf]; simp [given])

theorem Flows.cons {reads : List (Nat × ReadResult)} (h : Flows reads) {room : Nat} {bytes : Bytes}
    (hne : 0 < room → bytes ≠ []) : Flows ((room, .ok bytes) :: reads) := by
  intro r hr
  rcases List.mem_cons.mp hr with rfl | hr
  · exact ⟨bytes, rfl, fun hroom => hne (Nat.pos_of_ne_zero hroom)⟩
  · exact h r hr

/-- Bytes that a read gives come before what later reads deliver. -/
theorem Delivered.cons {reads : List (Nat × ReadResult)} {d : Bytes} {e : Ending}
    (h : Delivered { reads } d e) {room : Nat} {bytes : Bytes} (hne : 0 < room → bytes ≠ []) :
    Delivered { reads := (room, .ok bytes) :: reads } (bytes ++ d) e := by
  obtain ⟨before, later, hreads, flows, hbytes, hends⟩ := h
  refine ⟨(room, .ok bytes) :: before, later, congrArg ((room, Except.ok bytes) :: ·) hreads,
    flows.cons hne, ?_, hends⟩
  rw [bytesOf_cons, hbytes]

end Reception

namespace Relay

/-- What reads with these rooms come to, one after the other. -/
def reads (r : Relay) : List Nat → List (Nat × ReadResult)
  | [] => []
  | room :: rooms => (room, (r.read room).1) :: (r.read room).2.reads rooms

theorem reads_cons {r r' : Relay} {room : Nat} {result : ReadResult}
    (h : r.read room = (result, r')) (rooms : List Nat) :
    r.reads (room :: rooms) = (room, result) :: r'.reads rooms := by
  rw [reads, h]

/-- Whether reads, whatever their rooms, give the bytes of `d` in order, and
    after the last of them that the stream ends with `e`; and whether they
    come to that when enough of them have room. -/
def Gives (r : Relay) (d : Bytes) (e : Ending) : Prop :=
  ∀ rooms, (Flows (r.reads rooms) ∧ bytesOf (r.reads rooms) <+: d ∨
      Delivered { reads := r.reads rooms } d e) ∧
    (d.length < rooms.countP (0 < ·) → Delivered { reads := r.reads rooms } d e)

/-- Whoever has seen the end sees it again. -/
theorem reads_ended (messages : List Message) (rooms : List Nat) :
    ∀ x ∈ reads ⟨messages, ⟨[], .ended⟩⟩ rooms, x.2 = .ok [] := by
  induction rooms with
  | nil => nofun
  | cons room rooms ih =>
      intro x hx
      rcases List.mem_cons.mp hx with rfl | hx
      · rfl
      · exact ih x hx

/-- Whoever has seen a failure is told that there was one. -/
theorem reads_failed (messages : List Message) (rooms : List Nat) :
    ∀ x ∈ reads ⟨messages, ⟨[], .failed⟩⟩ rooms, x.2 = .error .alreadyFailed := by
  induction rooms with
  | nil => nofun
  | cons room rooms ih =>
      intro x hx
      rcases List.mem_cons.mp hx with rfl | hx
      · rfl
      · exact ih x hx

/-- The content of a relay and its ending are what reads give, of any sizes. -/
theorem gives (r : Relay) : r.Gives (ReaderView.content r) (ReaderView.ending r) := by
  intro rooms
  induction rooms generalizing r with
  | nil => exact ⟨Or.inl ⟨nofun, List.nil_prefix⟩, fun h => absurd h (Nat.not_lt_zero _)⟩
  | cons room rooms ih =>
      -- a read that finds the end or the failure settles all later ones
      have settled : ∀ {result : ReadResult} {later : Relay} {e : Ending},
          r.read room = (result, later) → Ends e ((room, result) :: later.reads rooms) →
            Delivered { reads := r.reads (room :: rooms) } [] e := by
        intro result later e hread hends
        exact ⟨[], _, reads_cons hread rooms, nofun, rfl, hends⟩
      rcases r.read_cases room with ⟨bytes, r', hread, hne, hc, he⟩ | ⟨messages, hread, hc, he⟩
        | ⟨e, messages, hread, hc, he⟩
      · -- the bytes come first, and the rest is for the later reads
        obtain ⟨hany, henough⟩ := ih r'
        rw [reads_cons hread]
        change ReaderView.content r = bytes ++ ReaderView.content r' at hc
        change ReaderView.ending r' = ReaderView.ending r at he
        rw [hc, ← he]
        constructor
        · rcases hany with ⟨flows, hprefix⟩ | hdelivered
          · refine Or.inl ⟨flows.cons hne, ?_⟩
            rw [bytesOf_cons]
            exact (List.prefix_append_right_inj bytes).mpr hprefix
          · exact Or.inr (hdelivered.cons hne)
        · intro hlong
          refine (henough ?_).cons hne
          rw [List.countP_cons, List.length_append] at hlong
          by_cases hroom : 0 < room
          · have := List.length_pos_iff.mpr (hne hroom)
            rw [if_pos (decide_eq_true hroom)] at hlong
            omega
          · rw [if_neg (by simpa using hroom)] at hlong
            omega
      · change ReaderView.content r = _ at hc
        change ReaderView.ending r = _ at he
        rw [hc, he]
        have hdelivered := settled (e := none) hread ⟨List.cons_ne_nil _ _, fun x hx => by
          rcases List.mem_cons.mp hx with rfl | hx
          · rfl
          · exact reads_ended messages rooms x hx⟩
        exact ⟨Or.inr hdelivered, fun _ => hdelivered⟩
      · change ReaderView.content r = _ at hc
        change ReaderView.ending r = _ at he
        rw [hc, he]
        have hdelivered := settled (e := some e) hread ⟨room, _, rfl, reads_failed messages rooms⟩
        exact ⟨Or.inr hdelivered, fun _ => hdelivered⟩

end Relay

end ContentVault
