import ContentVault.Proofs.Stream.Crews

/-! # Where the stream of a branch goes

    A `Port` is what a stream is handed to: it asks for bytes, does other work,
    may let go of the stream, and comes to a result, with which it lets go of
    the stream at the latest.  A port that holds an output of a tee itself is a
    branch (`Port.direct`).

    A `collector` asks for bytes until it has seen how the stream ends; its
    result is what is made of the stream then.  It gets on with what it is given
    (`lively_collector`), and so does every port once it is done
    (`lively_done`). -/

namespace ContentVault

open ByteReader ReaderView Outlet

/-- What a port does next. -/
inductive PortStep (κ α : Type) where
  | ask (room : Nat) (fed : ReadResult → κ)
  | work (next : κ)
  /-- It lets go of the stream. -/
  | leave (next : κ)
  | done (result : α)

/-- What a stream is handed to. -/
structure Port (α : Type) where
  State : Type
  start : State
  step : State → PortStep State α

namespace Port

variable {α : Type}

/-- What a port has come to. -/
def result? (p : Port α) (k : p.State) : Option α :=
  match p.step k with
  | .done r => some r
  | _ => none

theorem result_eq_some_iff {p : Port α} {k : p.State} {r : α} :
    p.result? k = some r ↔ p.step k = .done r := by
  rw [result?]
  split
  · rename_i r' hstep
    rw [hstep]
    exact ⟨fun h => congrArg _ (Option.some.inj h), fun h => by cases h; rfl⟩
  · rename_i hnot
    exact ⟨nofun, fun h => absurd h (hnot r)⟩

/-! ## Ports that hold an output -/

/-- What a port does that holds an output of a tee, or has let go of it. -/
def deed (p : Port α) (k : p.State × Bool) : Deed (p.State × Bool) :=
  match p.step k.1, k.2 with
  | .ask room fed, false => .read room (fun r => (fed r, false)) none
  | .ask _ _, true => .rest
  | .work next, left => .work (next, left)
  | .leave next, false => .leave (next, true)
  | .leave next, true => .work (next, true)
  | .done _, false => .leave (k.1, true)
  | .done _, true => .rest

/-- All that a port can do. -/
inductive DeedCase (p : Port α) : p.State × Bool → Deed (p.State × Bool) → Prop where
  | ask {k : p.State} {room : Nat} {fed : ReadResult → p.State} (hstep : p.step k = .ask room fed) :
      DeedCase p (k, false) (.read room (fun r => (fed r, false)) none)
  | mute {k : p.State} {room : Nat} {fed : ReadResult → p.State}
      (hstep : p.step k = .ask room fed) : DeedCase p (k, true) .rest
  | work {k next : p.State} {left : Bool} (hstep : p.step k = .work next) :
      DeedCase p (k, left) (.work (next, left))
  | leave {k next : p.State} (hstep : p.step k = .leave next) :
      DeedCase p (k, false) (.leave (next, true))
  | again {k next : p.State} (hstep : p.step k = .leave next) :
      DeedCase p (k, true) (.work (next, true))
  | done {k : p.State} {r : α} (hstep : p.step k = .done r) :
      DeedCase p (k, false) (.leave (k, true))
  | idle {k : p.State} {r : α} (hstep : p.step k = .done r) : DeedCase p (k, true) .rest

theorem deed_case (p : Port α) (k : p.State × Bool) : p.DeedCase k (p.deed k) := by
  obtain ⟨k, left⟩ := k
  rw [deed]
  cases hstep : p.step k <;> cases left
  · exact .ask hstep
  · exact .mute hstep
  · exact .work hstep
  · exact .work hstep
  · exact .leave hstep
  · exact .again hstep
  · exact .done hstep
  · exact .idle hstep

/-- The branch that a port is. -/
def direct (p : Port α) : Branch α where
  State := p.State × Bool
  start := (p.start, false)
  next k task _ := match task with
    | .stage => .rest
    | .port => p.deed k
  result? k := p.result? k.1
  left k := k.2
  left_start := rfl
  left_leads {k k' task _} h := by
    cases task with
    | stage => cases h
    | port =>
        have hcase := p.deed_case k
        generalize p.deed k = deed at h hcase
        cases hcase with
        | ask | leave | again | done =>
            cases h
            rfl
        | work =>
            cases h
            exact (Bool.or_false _).symm
        | mute | idle => cases h
  held_of_read {k task _ room fed otherwise} h := by
    cases task with
    | stage => cases h
    | port =>
        have hcase := p.deed_case k
        change p.deed k = _ at h
        rw [h] at hcase
        cases hcase with
        | ask => rfl
  result_leads {k k' task _ r} h hr := by
    cases task with
    | stage => cases h
    | port =>
        have hdone := result_eq_some_iff.mp hr
        have hcase := p.deed_case k
        generalize p.deed k = deed at h hcase
        cases hcase with
        | done hstep =>
            cases h
            exact hr
        | ask hstep | work hstep | leave hstep | again hstep => cases hstep.symm.trans hdone
        | mute | idle => cases h

/-- What a port does as a branch is what it does that holds an output. -/
theorem direct_cases {p : Port α} {k : p.State × Bool} {task : Task} {watchful : Bool}
    {deed : Deed (p.State × Bool)} (h : p.direct.next k task watchful = deed) :
    deed = .rest ∨ p.DeedCase k deed := by
  subst h
  cases task with
  | stage => exact Or.inl rfl
  | port => exact Or.inr (p.deed_case k)

/-! ## Getting on -/

/-- Whether a port gets on, in these states: it lets go of its stream only with
    its result, and what it does lowers a rank, unless it was given bytes. -/
structure Lively (p : Port α) (Live : p.State → Prop) (rank : p.State → Nat) : Prop where
  ask : ∀ {k : p.State} {room : Nat} {fed : ReadResult → p.State}, Live k →
    p.step k = .ask room fed → room ≠ 0 ∧ ∀ r, Live (fed r) ∧ rank (fed r) ≤ rank k ∧
      (given (some r) = [] → rank (fed r) < rank k)
  work : ∀ {k next : p.State}, Live k → p.step k = .work next → Live next ∧ rank next < rank k
  stays : ∀ {k next : p.State}, Live k → p.step k ≠ .leave next

/-- Whether a port has come to its result. -/
def IsDone (p : Port α) (k : p.State) : Prop := (p.result? k).isSome = true

/-- A port that is done has only to let go of its stream. -/
theorem lively_done (p : Port α) : p.Lively p.IsDone fun _ => 0 := by
  have hnot : ∀ {k : p.State}, p.IsDone k → ∃ r, p.step k = .done r := by
    intro k h
    obtain ⟨r, hr⟩ := Option.isSome_iff_exists.mp h
    exact ⟨r, result_eq_some_iff.mp hr⟩
  constructor
  case ask =>
    intro k room fed h hstep
    obtain ⟨r, hr⟩ := hnot h
    cases hstep.symm.trans hr
  case work =>
    intro k next h hstep
    obtain ⟨r, hr⟩ := hnot h
    cases hstep.symm.trans hr
  case stays =>
    intro k next h hstep
    obtain ⟨r, hr⟩ := hnot h
    cases hstep.symm.trans hr

/-- The states in which a port that holds an output gets on. -/
def LiveDirect (p : Port α) (Live : p.State → Prop) (k : p.State × Bool) : Prop :=
  Live k.1 ∧ (k.2 = true → p.IsDone k.1)

/-- What a port that holds an output has still to do. -/
def rankDirect (p : Port α) (rank : p.State → Nat) (k : p.State × Bool) : Nat :=
  rank k.1 + if k.2 then 0 else 1

variable {p : Port α} {Live : p.State → Prop} {rank : p.State → Nat}

/-- A port that gets on is a branch that gets on. -/
theorem Lively.direct (h : p.Lively Live rank) :
    p.direct.Lively (p.LiveDirect Live) (p.rankDirect rank) := by
  constructor
  case live =>
    intro k k' task watchful hk hleads
    generalize hnext : p.direct.next k task watchful = deed at hleads
    rcases direct_cases hnext with rfl | hcase
    · cases hleads
    · cases hcase with
      | ask hstep =>
          cases hleads with
          | fed result => exact ⟨((h.ask hk.1 hstep).2 result).1, nofun⟩
      | work hstep =>
          cases hleads
          refine ⟨(h.work hk.1 hstep).1, fun hleft => ?_⟩
          obtain ⟨r, hr⟩ := Option.isSome_iff_exists.mp (hk.2 hleft)
          cases hstep.symm.trans (result_eq_some_iff.mp hr)
      | leave hstep | again hstep => exact absurd hstep (h.stays hk.1)
      | done hstep =>
          cases hleads
          exact ⟨hk.1, fun _ => Option.isSome_iff_exists.mpr ⟨_, result_eq_some_iff.mpr hstep⟩⟩
      | mute | idle => cases hleads
  case work =>
    intro k k' task watchful hk hnext
    rcases direct_cases hnext with hrest | hcase
    · cases hrest
    · cases hcase with
      | work hstep => exact Nat.add_lt_add_right (h.work hk.1 hstep).2 _
      | again hstep => exact absurd hstep (h.stays hk.1)
  case leave =>
    intro k k' task watchful hk hnext
    rcases direct_cases hnext with hrest | hcase
    · cases hrest
    · cases hcase with
      | leave hstep => exact absurd hstep (h.stays hk.1)
      | done hstep => exact Nat.lt_succ_self _
  case read =>
    intro k task watchful room fed otherwise hk hnext
    rcases direct_cases hnext with hrest | hcase
    · cases hrest
    · cases hcase with
      | ask hstep =>
          obtain ⟨hroom, hfed⟩ := h.ask hk.1 hstep
          exact ⟨hroom, fun r hr => Nat.add_lt_add_right ((hfed r).2.2 hr) _, nofun⟩
  case busy =>
    intro k hk hbusy
    refine ⟨.port, fun watchful => ?_⟩
    show p.deed k ≠ .rest
    have hcase := p.deed_case k
    intro hrest
    rw [hrest] at hcase
    cases hcase with
    | mute hstep =>
        obtain ⟨r, hr⟩ := Option.isSome_iff_exists.mp (hk.2 rfl)
        cases hstep.symm.trans (result_eq_some_iff.mp hr)
    | idle hstep =>
        rcases hbusy with hheld | hnone
        · cases hheld
        · cases hnone.symm.trans (result_eq_some_iff.mpr hstep)

/-- A port that is done gives up its output. -/
theorem givesUp_direct (p : Port α) : p.direct.GivesUp (p.LiveDirect p.IsDone) := by
  rintro ⟨k, left⟩ ⟨hdone, -⟩ hheld
  cases hheld
  refine ⟨.port, fun watchful => ?_⟩
  show (p.deed (k, false)).Moves
  obtain ⟨r, hr⟩ := Option.isSome_iff_exists.mp hdone
  rw [deed, result_eq_some_iff.mp hr]
  trivial

/-- A port that gets on from the start is a branch that does. -/
theorem Lively.getsOn (h : p.Lively Live rank) (hstart : Live p.start) : p.direct.GetsOn :=
  ⟨_, _, h.direct, hstart, nofun⟩

theorem settles_direct (p : Port α) : p.direct.Settles := by
  refine ⟨fun _ => True, _, _, p.lively_done.direct, p.givesUp_direct, trivial,
    fun _ _ => trivial, ?_⟩
  intro k r _ hr
  have hdone : p.IsDone k.1 := Option.isSome_iff_exists.mpr ⟨r, hr⟩
  exact ⟨hdone, fun _ => hdone⟩

end Port

/-! ## Collecting -/

/-- The port that asks for bytes until it has seen how its stream ends. -/
def Port.collector {α : Type} (conclude : Relay → α) : Port α where
  State := Tee.Catch
  start := {}
  step c := match c.ending with
    | none => .ask copyBuffer fun r => c.note (some r)
    | some _ => .done (conclude c.relay)

namespace Port

variable {α : Type} {conclude : Relay → α}

/-- A read tells how a stream ends, unless it gives bytes. -/
def toldBy : ReadResult → Option Ending
  | .ok [] => some none
  | .ok (_ :: _) => none
  | .error e => some (some e)

theorem ending_note {c : Tee.Catch} (h : c.ending = none) (r : ReadResult) :
    (c.note (some r)).ending = toldBy r := by
  match r with
  | .ok [] => rfl
  | .ok (b :: bs) => exact h
  | .error e => rfl

/-- All that a collector can do. -/
theorem collector_cases (conclude : Relay → α) (c : Tee.Catch) :
    (c.ending = none ∧
      (collector conclude).step c = .ask copyBuffer fun r => c.note (some r)) ∨
    ∃ e, c.ending = some e ∧ (collector conclude).step c = .done (conclude c.relay) := by
  cases h : c.ending with
  | none =>
      refine Or.inl ⟨rfl, ?_⟩
      simp only [collector, h]
  | some e =>
      refine Or.inr ⟨e, rfl, ?_⟩
      simp only [collector, h]

/-- A collector has to see the end. -/
theorem lively_collector (conclude : Relay → α) :
    (collector conclude).Lively (fun _ => True)
      fun c : Tee.Catch => if c.ending = none then 1 else 0 := by
  constructor
  case ask =>
    intro c room fed _ hstep
    rcases collector_cases conclude c with ⟨hnone, hask⟩ | ⟨e, -, hdone⟩
    · cases hask.symm.trans hstep
      refine ⟨by decide, fun r => ⟨trivial, ?_, fun hr => ?_⟩⟩
      · rw [if_pos hnone]
        split
        · exact Nat.le_refl 1
        · exact Nat.zero_le 1
      · rw [if_pos hnone, ending_note hnone]
        match r with
        | .ok [] => exact Nat.zero_lt_one
        | .ok (b :: bs) => cases hr
        | .error e => exact Nat.zero_lt_one
    · cases hdone.symm.trans hstep
  case work =>
    intro c next _ hstep
    rcases collector_cases conclude c with ⟨-, hask⟩ | ⟨e, -, hdone⟩
    · cases hask.symm.trans hstep
    · cases hdone.symm.trans hstep
  case stays =>
    intro c next _ hstep
    rcases collector_cases conclude c with ⟨-, hask⟩ | ⟨e, -, hdone⟩
    · cases hask.symm.trans hstep
    · cases hdone.symm.trans hstep

end Port

end ContentVault
