import ContentVault.Proofs.Stream.Outcome

/-! # Those who work on a tee

    The outputs of a tee are held by two branches, each of which is the work of
    one task or two: it reads, does something with what it got, drops its
    output at some point and comes to a result.  Behind the source there may be
    a task as well, which supplies it.  A `Crew` is the tee together with where
    its branches are, and a schedule says who acts at every moment.

    Every action leaves a crew as it is or lowers its rank
    (`Crew.Kept.lowers_or_same`), and until there is an answer someone can lower
    it (`Crew.Kept.helped`).  So a schedule in which everyone acts again and
    again comes to an answer (`Crew.Kept.answers`), if the branches get on with
    what they have (`Branch.Lively`), and either the source does not stall or
    the main branch gives up its output. -/

namespace ContentVault

open ByteReader ReaderView Outlet

/-! ## Turns -/

section Turns

variable {S A P R : Type}

/-- The state after the first actions of a schedule. -/
def takeTurns (step : S → A → S) (s : S) (schedule : Nat → A) : Nat → S
  | 0 => s
  | n + 1 => step (takeTurns step s schedule n) (schedule n)

/-- What every action keeps, a schedule keeps. -/
theorem takeTurns_keeps {step : S → A → S} {I : S → Prop} (hstep : ∀ s a, I s → I (step s a))
    {s : S} (h : I s) (schedule : Nat → A) (n : Nat) : I (takeTurns step s schedule n) := by
  induction n with
  | zero => exact h
  | succ n ih => exact hstep _ _ ih

/-- A schedule from some time on. -/
theorem takeTurns_add (step : S → A → S) (s : S) (schedule : Nat → A) (m n : Nat) :
    takeTurns step s schedule (m + n)
      = takeTurns step (takeTurns step s schedule m) (fun k => schedule (m + k)) n := by
  induction n with
  | zero => rfl
  | succ n ih =>
      rw [takeTurns, ← ih]
      rfl

/-- Whether every party of a machine acts again and again. -/
def IsFair (party : A → P) (schedule : Nat → A) : Prop :=
  ∀ p n, ∃ m, n ≤ m ∧ party (schedule m) = p

/-- A fair schedule is fair from any time on. -/
theorem IsFair.later {party : A → P} {schedule : Nat → A} (h : IsFair party schedule) (m : Nat) :
    IsFair party fun k => schedule (m + k) := by
  intro p n
  obtain ⟨k, hk, hparty⟩ := h p (m + n)
  obtain ⟨j, rfl⟩ := Nat.exists_eq_add_of_le (Nat.le_trans (Nat.le_add_right m n) hk)
  exact ⟨j, Nat.le_of_add_le_add_left hk, hparty⟩

/-- A machine is done at some time if every action leaves its state or lowers a
    rank, and if there is always a party all of whose actions lower it. -/
theorem exists_done {step : S → A → S} {party : A → P} {lower : R → R → Prop}
    (wf : WellFounded lower) (rank : S → R) {I Done : S → Prop}
    (hkeep : ∀ s a, I s → I (step s a))
    (hsteady : ∀ s a, I s → step s a = s ∨ lower (rank (step s a)) (rank s))
    (hhelp : ∀ s, I s → Done s ∨ ∃ p, ∀ a, party a = p → lower (rank (step s a)) (rank s))
    {schedule : Nat → A} (hfair : IsFair party schedule) {s : S} (h : I s) :
    ∃ n, Done (takeTurns step s schedule n) := by
  have hok := takeTurns_keeps hkeep h schedule
  suffices hall : ∀ r n, rank (takeTurns step s schedule n) = r →
      ∃ m, Done (takeTurns step s schedule m) from hall _ 0 rfl
  intro r
  induction r using wf.induction with
  | h r ih =>
      intro n hr
      rcases hhelp _ (hok n) with hdone | ⟨p, hp⟩
      · exact ⟨n, hdone⟩
      obtain ⟨m, hm, hparty⟩ := hfair p n
      -- the state stays as it is until the party's turn, or the rank is lower before
      have hwait : ∀ k, n ≤ k → takeTurns step s schedule k = takeTurns step s schedule n ∨
          ∃ j, lower (rank (takeTurns step s schedule j)) r := by
        intro k hk
        induction hk with
        | refl => exact Or.inl rfl
        | @step k hk ihk =>
            rcases ihk with hsame | hlower
            · rcases hsteady _ (schedule k) (hok k) with hstep | hstep
              · exact Or.inl (hstep.trans hsame)
              · refine Or.inr ⟨k + 1, ?_⟩
                rw [hsame, hr] at hstep
                rw [takeTurns, hsame]
                exact hstep
            · exact Or.inr hlower
      rcases hwait m hm with hsame | ⟨j, hlower⟩
      · refine ih _ ?_ (m + 1) rfl
        rw [takeTurns, hsame, ← hr]
        exact hp _ hparty
      · exact ih _ hlower j rfl

end Turns

/-! ## Branches -/

/-- The tasks of a branch. -/
inductive Task where
  /-- What stands between the output and the port, if there is anything. -/
  | stage
  /-- Where the stream of the branch goes. -/
  | port
deriving DecidableEq, Repr

/-- What a task of a branch does next. -/
inductive Deed (κ : Type) where
  /-- Nothing, until something has changed. -/
  | rest
  | work (next : κ)
  /-- It asks the output for bytes and goes on with what that gives; while there
      is nothing, it may have something else to do. -/
  | read (room : Nat) (fed : ReadResult → κ) (otherwise : Option κ)
  /-- It drops the output. -/
  | leave (next : κ)

namespace Deed

variable {κ : Type}

/-- Whether a deed drops the output. -/
def leaves : Deed κ → Bool
  | leave _ => true
  | _ => false

/-- Where a deed may lead. -/
inductive Leads : Deed κ → κ → Prop where
  | work {next : κ} : Leads (.work next) next
  | leave {next : κ} : Leads (.leave next) next
  | fed {room : Nat} {fed : ReadResult → κ} {otherwise : Option κ} (result : ReadResult) :
      Leads (.read room fed otherwise) (fed result)
  | otherwise {room : Nat} {fed : ReadResult → κ} {next : κ} :
      Leads (.read room fed (some next)) next

/-- Whether a deed gets somewhere even if the output has nothing to give. -/
def Moves : Deed κ → Prop
  | rest => False
  | work _ => True
  | read _ _ otherwise => otherwise.isSome = true
  | leave _ => True

end Deed

/-- What holds an output of a tee: where its tasks may be, what they do next, and
    what comes of it.  A task can do one of several things at times, and
    `watchful` says which. -/
structure Branch (α : Type) where
  State : Type
  start : State
  next : State → Task → (watchful : Bool) → Deed State
  result? : State → Option α
  /-- Whether the output was dropped. -/
  left : State → Bool
  left_start : left start = false
  left_leads : ∀ {k k' : State} {t : Task} {watchful : Bool}, (next k t watchful).Leads k' →
    left k' = (left k || (next k t watchful).leaves)
  held_of_read : ∀ {k : State} {t : Task} {watchful : Bool} {room : Nat}
    {fed : ReadResult → State} {otherwise : Option State},
    next k t watchful = .read room fed otherwise → left k = false
  result_leads : ∀ {k k' : State} {t : Task} {watchful : Bool} {r : α},
    (next k t watchful).Leads k' → result? k = some r → result? k' = some r

namespace Branch

variable {α : Type}

/-- Whether a branch gets on, in these states: what it does lowers a rank, unless
    it was given bytes, and it does something as long as it holds the output or
    has no result. -/
structure Lively (b : Branch α) (Live : b.State → Prop) (rank : b.State → Nat) : Prop where
  live : ∀ {k k' : b.State} {t : Task} {watchful : Bool}, Live k →
    (b.next k t watchful).Leads k' → Live k'
  work : ∀ {k k' : b.State} {t : Task} {watchful : Bool}, Live k →
    b.next k t watchful = .work k' → rank k' < rank k
  leave : ∀ {k k' : b.State} {t : Task} {watchful : Bool}, Live k →
    b.next k t watchful = .leave k' → rank k' < rank k
  read : ∀ {k : b.State} {t : Task} {watchful : Bool} {room : Nat} {fed : ReadResult → b.State}
    {otherwise : Option b.State}, Live k → b.next k t watchful = .read room fed otherwise →
    room ≠ 0 ∧ (∀ r, given (some r) = [] → rank (fed r) < rank k) ∧
      ∀ k', otherwise = some k' → rank k' < rank k
  busy : ∀ {k : b.State}, Live k → (b.left k = false ∨ b.result? k = none) →
    ∃ t, ∀ watchful, b.next k t watchful ≠ .rest

/-- Whether a branch drops its output, in these states, without waiting for more
    to come. -/
def GivesUp (b : Branch α) (Live : b.State → Prop) : Prop :=
  ∀ k, Live k → b.left k = false → ∃ t, ∀ watchful, (b.next k t watchful).Moves

/-- Whether a branch gets on from the start. -/
def GetsOn (b : Branch α) : Prop :=
  ∃ (Live : b.State → Prop) (rank : b.State → Nat), b.Lively Live rank ∧ Live b.start

/-- Whether all that is left to a branch that has a result is to give up its
    output, wherever it can have come to. -/
def Settles (b : Branch α) : Prop :=
  ∃ (Ok Live : b.State → Prop) (rank : b.State → Nat), b.Lively Live rank ∧ b.GivesUp Live ∧
    Ok b.start ∧
    (∀ {k k' : b.State} {t : Task} {watchful : Bool}, Ok k → (b.next k t watchful).Leads k' →
      Ok k') ∧
    ∀ {k : b.State} {r : α}, Ok k → b.result? k = some r → Live k

end Branch

/-- What is behind a source: a task that supplies it from time to time. -/
structure Upstream (σ : Type) [ByteReader σ] [ReaderView σ] where
  /-- Whether the source has something to say. -/
  ready : σ → Bool
  supply : σ → σ
  rank : σ → Nat
  content_supply : ∀ x, content (supply x) = content x
  ending_supply : ∀ x, ending (supply x) = ending x
  left_supply : ∀ x, left (supply x) = left x
  supply_or : ∀ x, supply x = x ∨ rank (supply x) < rank x

namespace Upstream

variable {σ : Type} [ByteReader σ] [ReaderView σ]

/-- A source that is supplied by nobody, and stalls where it is not ready. -/
def outside (ready : σ → Bool) : Upstream σ where
  ready := ready
  supply x := x
  rank _ := 0
  content_supply _ := rfl
  ending_supply _ := rfl
  left_supply _ := rfl
  supply_or _ := Or.inl rfl

/-- Whether a source that has nothing to say is supplied. -/
def IsEager (up : Upstream σ) : Prop :=
  ∀ x, up.ready x = false → up.rank (up.supply x) < up.rank x

end Upstream

/-! ## Crews -/

/-- A tee and where its two branches are.  One of them is the digest. -/
structure Crew (σ : Type) {α γ : Type} (b : Branch α) (c : Branch γ) where
  session : Session σ
  main : b.State
  digest : c.State

/-- Who can act. -/
inductive CrewParty where
  /-- Who supplies the source. -/
  | upstream
  | producer
  /-- The sending end of a channel, once the producer is done. -/
  | sender (side : Side)
  | main (task : Task)
  | digest (task : Task)
deriving DecidableEq, Repr

/-- Whose turn it is, and which of two things they do if they can do either. -/
structure CrewAction where
  party : CrewParty
  watchful : Bool := false
deriving DecidableEq, Repr

namespace Session

variable {σ : Type}

/-- Replaces the source of a tee. -/
def withSource (s : Session σ) (source : σ) : Session σ := { s with tee := { s.tee with source } }

/-- Does what a task of the branch does that holds an output. -/
def carry {κ : Type} (s : Session σ) (side : Side) (k : κ) : Deed κ → κ × Session σ
  | .rest => (k, s)
  | .work next => (next, s)
  | .leave next => (next, { s with tee := s.tee.drop side })
  | .read room fed otherwise =>
    match s.read side room with
    | (some result, s) => (fed result, s)
    | (none, s) => (otherwise.getD k, s)

/-- All that a deed can come to. -/
inductive CarryCase {κ : Type} (s : Session σ) (side : Side) (k : κ) :
    Deed κ → κ → Session σ → Prop where
  | rest : CarryCase s side k .rest k s
  | work {next : κ} : CarryCase s side k (.work next) next s
  | leave {next : κ} : CarryCase s side k (.leave next) next { s with tee := s.tee.drop side }
  | waits {room : Nat} {fed : ReadResult → κ} (starved : ReadCase s side room none s) :
      CarryCase s side k (.read room fed none) k s
  | otherwise {room : Nat} {fed : ReadResult → κ} {next : κ} :
      CarryCase s side k (.read room fed (some next)) next s
  | fed {room : Nat} {fed : ReadResult → κ} {otherwise : Option κ} {result : ReadResult}
      {s' : Session σ} (hread : s.read side room = (some result, s')) :
      CarryCase s side k (.read room fed otherwise) (fed result) s'

variable {κ : Type} {s s' : Session σ} {side : Side} {k k' : κ} {deed : Deed κ}

/-- Where the branch is after a deed: where it was, or where that leads. -/
theorem carry_leads (s : Session σ) (side : Side) (k : κ) (deed : Deed κ) :
    (s.carry side k deed).1 = k ∨ deed.Leads (s.carry side k deed).1 := by
  cases deed with
  | rest => exact Or.inl rfl
  | work next => exact Or.inr .work
  | leave next => exact Or.inr .leave
  | read room fed otherwise =>
      rw [carry]
      obtain ⟨⟨result, s'⟩, hread⟩ : ∃ pair, s.read side room = pair := ⟨_, rfl⟩
      rw [hread]
      cases result with
      | some result => exact Or.inr (.fed result)
      | none =>
          cases otherwise with
          | none => exact Or.inl rfl
          | some next => exact Or.inr .otherwise

theorem CarryCase.leads (h : CarryCase s side k deed k' s') :
    (k' = k ∧ deed.leaves = false) ∨ deed.Leads k' := by
  cases h with
  | rest => exact Or.inl ⟨rfl, rfl⟩
  | waits starved => exact Or.inl ⟨rfl, rfl⟩
  | work => exact Or.inr .work
  | leave => exact Or.inr .leave
  | otherwise => exact Or.inr .otherwise
  | fed hread => exact Or.inr (.fed _)

/-- What a deed leaves alone: what the producer is at. -/
theorem CarryCase.tee (h : CarryCase s side k deed k' s') :
    s'.tee.phase = s.tee.phase ∧ s'.tee.source = s.tee.source := by
  cases h with
  | rest | work | waits | otherwise => exact ⟨rfl, rfl⟩
  | leave => cases side <;> exact ⟨rfl, rfl⟩
  | @fed room _ _ result s' hread =>
      obtain ⟨out, r, hupdate, -, -⟩ := s.read_eq_update side room
      have hs : s' = s.update side out r := (congrArg Prod.snd hread).symm.trans hupdate
      rw [hs, phase_update, source_update]
      exact ⟨rfl, rfl⟩

/-- Who leaves drops the own output, and nobody else does. -/
theorem CarryCase.dropped (h : CarryCase s side k deed k' s') (target : Side) :
    (s'.tee.output target).dropped
      = ((s.tee.output target).dropped || (deed.leaves && decide (target = side))) := by
  cases h with
  | rest | work | waits | otherwise => exact (Bool.or_false _).symm
  | @fed room _ _ result s' hread =>
      obtain ⟨out, r, hupdate, hdropped, -⟩ := s.read_eq_update side room
      have hs : s' = s.update side out r := (congrArg Prod.snd hread).symm.trans hupdate
      rw [hs, s.dropped_update r hdropped]
      exact (Bool.or_false _).symm
  | leave =>
      rw [Tee.drop]
      by_cases htarget : target = side
      · rw [htarget, Tee.output_setOutput, decide_eq_true rfl]
        exact (Bool.or_true _).symm
      · rw [Tee.output_setOutput_of_ne _ _ htarget, decide_eq_false htarget]
        exact (Bool.or_false _).symm

section

variable [ByteReader σ] [ReaderView σ] {ready : σ → Bool} {d : Bytes} {e : Ending}

/-- A deed comes to one of the cases when the books are right. -/
theorem Accounted.carry_case (h : s.Accounted ready d e) (side : Side) (k : κ) (deed : Deed κ) :
    CarryCase s side k deed (s.carry side k deed).1 (s.carry side k deed).2 := by
  cases deed with
  | rest => exact .rest
  | work next => exact .work
  | leave next => exact .leave
  | read room fed otherwise =>
      rw [carry]
      have hcase := h.read_case side room
      obtain ⟨⟨result, s'⟩, hread⟩ : ∃ pair, s.read side room = pair := ⟨_, rfl⟩
      rw [hread] at hcase ⊢
      cases result with
      | some result => exact .fed hread
      | none =>
          cases hcase with
          | waits hout hclosed =>
              cases otherwise with
              | none => exact .waits (.waits hout hclosed)
              | some next => exact .otherwise

/-- A deed keeps the books, if only a held output is read from. -/
theorem Accounted.carried (h : s.Accounted ready d e) (hcase : CarryCase s side k deed k' s')
    (held : ∀ {room : Nat} {fed : ReadResult → κ} {otherwise : Option κ},
      deed = .read room fed otherwise → (s.tee.output side).dropped = false) :
    s'.Accounted ready d e := by
  cases hcase with
  | rest | work | waits | otherwise => exact h
  | leave => exact h.dropped side
  | @fed room _ _ result s' hread =>
      have hkept := h.read room (held rfl)
      rw [hread] at hkept
      exact hkept

/-- Supplying a source does not change what it gives. -/
theorem Accounted.supplied (h : s.Accounted ready d e) {source : σ}
    (hcontent : content source = content s.tee.source)
    (hending : ending source = ending s.tee.source) :
    (s.withSource source).Accounted ready d e where
  buffer_pos := h.buffer_pos
  stands := h.stands.same rfl rfl hcontent hending rfl (fun side => by cases side <;> rfl)
    (fun side hdropped => by cases side <;> exact hdropped)
  books side := by
    cases side with
    | first => exact h.books .first
    | second => exact h.books .second

end

end Session

namespace Crew

variable {σ α γ : Type} [ByteReader σ] [ReaderView σ] {b : Branch α} {c : Branch γ}

/-- What an action does, the main branch holding the output `side`.  A producer
    that cannot read because the source is not ready notices dropped outputs. -/
def perform (up : Upstream σ) (side : Side) (x : Crew σ b c) : CrewAction → Crew σ b c
  | ⟨.upstream, _⟩ => { x with session := x.session.withSource (up.supply x.session.tee.source) }
  | ⟨.producer, watchful⟩ => { x with
      session := x.session.produce up.ready (watchful || !up.ready x.session.tee.source) }
  | ⟨.sender target, _⟩ => { x with session := x.session.close target }
  | ⟨.main task, watchful⟩ =>
    let out := x.session.carry side x.main (b.next x.main task watchful)
    { x with main := out.1, session := out.2 }
  | ⟨.digest task, watchful⟩ =>
    let out := x.session.carry side.other x.digest (c.next x.digest task watchful)
    { x with digest := out.1, session := out.2 }

omit [ByteReader σ] [ReaderView σ] in
/-- A crew that has not started. -/
def begin (b : Branch α) (c : Branch γ) (source : σ) (buffer : Nat) : Crew σ b c :=
  ⟨.start source buffer, b.start, c.start⟩

/-- A crew after the first actions of a schedule. -/
def along (up : Upstream σ) (side : Side) (x : Crew σ b c) :
    (Nat → CrewAction) → Nat → Crew σ b c :=
  takeTurns (perform up side) x

/-- A schedule in which everyone acts again and again. -/
def Fair (schedule : Nat → CrewAction) : Prop := IsFair CrewAction.party schedule

/-- Whether both branches have come to a result and the producer has exited. -/
def IsDone (x : Crew σ b c) : Prop :=
  (b.result? x.main).isSome = true ∧ (c.result? x.digest).isSome = true ∧
    x.session.tee.result?.isSome = true

end Crew

/-! ## What is left to do -/

namespace Session

variable {σ : Type} [ByteReader σ] {s s' : Session σ} {side : Side}

/-- Whether less is left to do, when the producer stays where it is: in the
    channels, or as much there and less for the branch, by its rank. -/
def Eases (s s' : Session σ) (rank rank' : Nat) : Prop :=
  s'.tee.phase = s.tee.phase ∧ s'.tee.source = s.tee.source ∧
    (s'.weight < s.weight ∨ s'.weight = s.weight ∧ rank' < rank)

/-- Whether a reader of an output has to wait. -/
def IsStarved (s : Session σ) (side : Side) : Prop :=
  (s.tee.output side).queue = [] ∧ (s.tee.output side).reader.state = .active ∧
    (s.reception side).closed = false

omit [ByteReader σ] in
theorem ReadCase.isStarved {room : Nat} (h : ReadCase s side room none s') : s.IsStarved side := by
  cases h with
  | waits hout hclosed => exact ⟨by rw [hout], by rw [hout], hclosed⟩

omit [ByteReader σ] in
/-- A read that finds nothing to get gives no bytes. -/
theorem ReadCase.given_of_full {room : Nat} {result : ReadResult}
    (h : ReadCase s side room (some result) s') (hfull : ¬s.Hungry side) :
    given (some result) = [] := by
  cases h with
  | rest hout => exact absurd (Or.inl (by rw [hout]; nofun)) hfull
  | chunk hout => exact absurd (Or.inr ⟨by rw [hout], Or.inl (by rw [hout]; nofun)⟩) hfull
  | ended | failed | cut | ends | failure => rfl

theorem weight_drop (s : Session σ) (side : Side) :
    ({ s with tee := s.tee.drop side } : Session σ).weight = s.weight := by
  cases side <;> rfl

variable [ReaderView σ] {ready : σ → Bool} {d : Bytes} {e : Ending}

omit [ReaderView σ] in
/-- A producer that is awake and can make a step has less to do afterwards. -/
theorem stepsLeft_produce_lt {watchful : Bool} (hawake : isStalled ready watchful s.tee = false)
    (hstep : s.tee.step watchful ≠ none) :
    (s.produce ready watchful).tee.stepsLeft < s.tee.stepsLeft := by
  obtain ⟨u, hu⟩ := Option.ne_none_iff_exists'.mp hstep
  rw [produce, hawake, if_neg Bool.false_ne_true, hu]
  exact Tee.stepsLeft_step hu

end Session

namespace Branch.Lively

variable {σ α : Type} [ByteReader σ] [ReaderView σ] {b : Branch α} {Live : b.State → Prop}
  {rank : b.State → Nat} {s : Session σ} {side : Side} {k k' : b.State} {t : Task}
  {watchful : Bool} {ready : σ → Bool} {d : Bytes} {e : Ending}

/-- What a deed leaves for later is less than before, unless the branch rests or
    waits for bytes with nothing else to do. -/
theorem eases (hb : b.Lively Live rank) (hk : Live k) (h : s.Accounted ready d e)
    {deed : Deed b.State} (hdeed : b.next k t watchful = deed) {s' : Session σ}
    (hcase : s.CarryCase side k deed k' s') :
    s.Eases s' (rank k) (rank k') ∨
      (k' = k ∧ s' = s ∧ (¬deed.Moves ∧ (deed = .rest ∨ s.IsStarved side))) := by
  have htee := hcase.tee
  cases hcase with
  | rest => exact Or.inr ⟨rfl, rfl, id, Or.inl rfl⟩
  | waits starved => exact Or.inr ⟨rfl, rfl, nofun, Or.inr starved.isStarved⟩
  | work => exact Or.inl ⟨htee.1, htee.2, Or.inr ⟨rfl, hb.work hk hdeed⟩⟩
  | leave => exact Or.inl ⟨htee.1, htee.2, Or.inr ⟨s.weight_drop side, hb.leave hk hdeed⟩⟩
  | otherwise =>
      obtain ⟨-, -, hother⟩ := hb.read hk hdeed
      exact Or.inl ⟨htee.1, htee.2, Or.inr ⟨rfl, hother _ rfl⟩⟩
  | @fed room _ _ result s' hread =>
      obtain ⟨hroom, hfed, -⟩ := hb.read hk hdeed
      have hcase := h.read_case side room
      rw [hread] at hcase
      rcases hcase.lightens with hlt | ⟨hcore, hzero | hfull⟩
      · exact Or.inl ⟨htee.1, htee.2, Or.inl hlt⟩
      · exact absurd hzero hroom
      · exact Or.inl ⟨htee.1, htee.2,
          Or.inr ⟨Session.weight_of_core hcore, hfed _ (hcase.given_of_full hfull)⟩⟩

/-- A branch that has still something to do can do some of it, unless it has to
    wait for bytes. -/
theorem helps (hb : b.Lively Live rank) (hk : Live k) (h : s.Accounted ready d e)
    (hbusy : b.left k = false ∨ b.result? k = none) :
    s.IsStarved side ∨ ∃ t, ∀ watchful,
      s.Eases (s.carry side k (b.next k t watchful)).2 (rank k)
        (rank (s.carry side k (b.next k t watchful)).1) := by
  refine Classical.or_iff_not_imp_left.mpr fun hfed => ?_
  obtain ⟨t, ht⟩ := hb.busy hk hbusy
  refine ⟨t, fun watchful => ?_⟩
  rcases hb.eases hk h rfl (h.carry_case side k (b.next k t watchful)) with heases
    | ⟨-, -, -, hrest | hstarved⟩
  · exact heases
  · exact absurd hrest (ht watchful)
  · exact absurd hstarved hfed

/-- A branch that gives its output up need not wait for bytes. -/
theorem helps_of_givesUp (hb : b.Lively Live rank) (hk : Live k) (h : s.Accounted ready d e)
    (hup : b.GivesUp Live) (hheld : b.left k = false) :
    ∃ t, ∀ watchful, s.Eases (s.carry side k (b.next k t watchful)).2 (rank k)
      (rank (s.carry side k (b.next k t watchful)).1) := by
  obtain ⟨t, ht⟩ := hup k hk hheld
  refine ⟨t, fun watchful => ?_⟩
  rcases hb.eases hk h rfl (h.carry_case side k (b.next k t watchful)) with heases
    | ⟨-, -, hnot, -⟩
  · exact heases
  · exact absurd (ht watchful) hnot

end Branch.Lively

/-! ## Every action -/

namespace Crew

variable {σ α γ : Type} [ByteReader σ] [ReaderView σ] {b : Branch α} {c : Branch γ}
  {up : Upstream σ} {side : Side} {d : Bytes} {e : Ending} {x : Crew σ b c}

/-- The books of a crew: those of the tee, and the outputs are dropped that the
    branches have left. -/
structure Kept (up : Upstream σ) (side : Side) (d : Bytes) (e : Ending) (x : Crew σ b c) :
    Prop where
  accounted : x.session.Accounted up.ready d e
  main_left : (x.session.tee.output side).dropped = b.left x.main
  digest_left : (x.session.tee.output side.other).dropped = c.left x.digest

theorem kept_begin (up : Upstream σ) (side : Side) (b : Branch α) (c : Branch γ) (source : σ)
    (buffer : Nat) : (begin b c source buffer).Kept up side (Session.passed source buffer)
      (Session.passedEnd source buffer) where
  accounted := Session.accounted_start up.ready source buffer
  main_left := by
    rw [begin, b.left_start]
    cases side <;> rfl
  digest_left := by
    rw [begin, c.left_start]
    cases side <;> rfl

/-- What a task of a branch does keeps the books, and drops the output if the
    branch leaves it; the other output stays as it is. -/
theorem carried {b : Branch α} {s : Session σ} {ready : σ → Bool} {holder : Side} {k : b.State}
    (h : s.Accounted ready d e) (hleft : (s.tee.output holder).dropped = b.left k) (t : Task)
    (watchful : Bool) :
    (s.carry holder k (b.next k t watchful)).2.Accounted ready d e ∧
      ((s.carry holder k (b.next k t watchful)).2.tee.output holder).dropped
        = b.left (s.carry holder k (b.next k t watchful)).1 ∧
      ∀ other, other ≠ holder →
        ((s.carry holder k (b.next k t watchful)).2.tee.output other).dropped
          = (s.tee.output other).dropped := by
  have hcase := h.carry_case holder k (b.next k t watchful)
  refine ⟨h.carried hcase fun hread => hleft.trans (b.held_of_read hread), ?_, fun other hne => ?_⟩
  · rw [hcase.dropped, hleft, decide_eq_true rfl, Bool.and_true]
    rcases hcase.leads with ⟨hsame, hstays⟩ | hleads
    · rw [hsame, hstays, Bool.or_false]
    · exact (b.left_leads hleads).symm
  · rw [hcase.dropped, decide_eq_false hne, Bool.and_false, Bool.or_false]

theorem Kept.performed (h : x.Kept up side d e) (a : CrewAction) :
    (x.perform up side a).Kept up side d e := by
  have hdropped : ∀ (a : TeeAction) (target : Side), a ≠ .drop target →
      ((x.session.perform up.ready a).tee.output target).dropped
        = (x.session.tee.output target).dropped :=
    fun a target ha => Session.dropped_perform up.ready x.session ha
  obtain ⟨party, watchful⟩ := a
  cases party with
  | upstream =>
      have hsame : ∀ target, (x.session.withSource (up.supply x.session.tee.source)).tee.output
          target = x.session.tee.output target := fun target => by cases target <;> rfl
      exact ⟨h.accounted.supplied (up.content_supply _) (up.ending_supply _),
        (congrArg Output.dropped (hsame side)).trans h.main_left,
        (congrArg Output.dropped (hsame side.other)).trans h.digest_left⟩
  | producer =>
      exact ⟨h.accounted.produced _, (hdropped (.produce _) side nofun).trans h.main_left,
        (hdropped (.produce _) side.other nofun).trans h.digest_left⟩
  | sender target =>
      exact ⟨h.accounted.closed _, (hdropped (.close target) side nofun).trans h.main_left,
        (hdropped (.close target) side.other nofun).trans h.digest_left⟩
  | main task =>
      obtain ⟨haccounted, hown, hother⟩ := carried h.accounted h.main_left task watchful
      exact ⟨haccounted, hown, (hother _ side.other_ne).trans h.digest_left⟩
  | digest task =>
      obtain ⟨haccounted, hown, hother⟩ := carried h.accounted h.digest_left task watchful
      exact ⟨haccounted, (hother _ side.other_ne.symm).trans h.main_left, hown⟩

/-! ## The rank -/

variable {LiveB : b.State → Prop} {LiveC : c.State → Prop} {rb : b.State → Nat}
  {rc : c.State → Nat}

/-- What every deed keeps of where the main branch is, every action keeps. -/
theorem main_performed {I : b.State → Prop}
    (hkeep : ∀ {k k' : b.State} {t : Task} {watchful : Bool}, I k →
      (b.next k t watchful).Leads k' → I k')
    (hmain : I x.main) (a : CrewAction) : I (x.perform up side a).main := by
  obtain ⟨party, watchful⟩ := a
  cases party with
  | main task =>
      rcases x.session.carry_leads side x.main (b.next x.main task watchful) with hsame | hleads
      · exact (congrArg I hsame).mpr hmain
      · exact hkeep hmain hleads
  | upstream | producer | sender | digest => exact hmain

/-- What every deed keeps of where the digest is, every action keeps. -/
theorem digest_performed {I : c.State → Prop}
    (hkeep : ∀ {k k' : c.State} {t : Task} {watchful : Bool}, I k →
      (c.next k t watchful).Leads k' → I k')
    (hdigest : I x.digest) (a : CrewAction) : I (x.perform up side a).digest := by
  obtain ⟨party, watchful⟩ := a
  cases party with
  | digest task =>
      rcases x.session.carry_leads side.other x.digest (c.next x.digest task watchful)
        with hsame | hleads
      · exact (congrArg I hsame).mpr hdigest
      · exact hkeep hdigest hleads
  | upstream | producer | sender | main => exact hdigest

/-- What is left to do: for the producer, for who supplies it, in the channels,
    and for the branches. -/
def rank (up : Upstream σ) (rb : b.State → Nat) (rc : c.State → Nat) (x : Crew σ b c) :
    Nat × Nat × Nat × Nat :=
  (x.session.tee.stepsLeft, up.rank x.session.tee.source, x.session.weight,
    rb x.main + rc x.digest)

/-- Ranks are compared from the left. -/
def Lower : Nat × Nat × Nat × Nat → Nat × Nat × Nat × Nat → Prop :=
  Prod.Lex (· < ·) (Prod.Lex (· < ·) (Prod.Lex (· < ·) (· < ·)))

theorem lower_wf : WellFounded Lower :=
  (Prod.lex Nat.lt_wfRel (Prod.lex Nat.lt_wfRel (Prod.lex Nat.lt_wfRel Nat.lt_wfRel))).wf

theorem lower_of_steps {x' : Crew σ b c}
    (h : x'.session.tee.stepsLeft < x.session.tee.stepsLeft) :
    Lower (x'.rank up rb rc) (x.rank up rb rc) := Prod.Lex.left _ _ h

theorem lower_of_supply {watchful : Bool}
    (h : up.rank (up.supply x.session.tee.source) < up.rank x.session.tee.source) :
    Lower ((x.perform up side ⟨.upstream, watchful⟩).rank up rb rc) (x.rank up rb rc) := by
  have hsteps : (x.perform up side ⟨.upstream, watchful⟩).session.tee.stepsLeft
      = x.session.tee.stepsLeft := by
    show Tee.stepsLeft { x.session.tee with source := up.supply x.session.tee.source } = _
    rw [Tee.stepsLeft, Tee.stepsLeft, up.left_supply]
  rw [rank, hsteps]
  exact Prod.Lex.right _ (Prod.Lex.left _ _ h)

theorem lower_of_eases {x' : Crew σ b c} {r r' : Nat} (h : x.session.Eases x'.session r r')
    (hrank : r' < r → rb x'.main + rc x'.digest < rb x.main + rc x.digest) :
    Lower (x'.rank up rb rc) (x.rank up rb rc) := by
  obtain ⟨hphase, hsource, hless⟩ := h
  have hsteps : x'.session.tee.stepsLeft = x.session.tee.stepsLeft := by
    rw [Tee.stepsLeft, Tee.stepsLeft, hphase, hsource]
  rw [rank, hsteps, hsource]
  refine Prod.Lex.right _ (Prod.Lex.right _ ?_)
  rcases hless with hweight | ⟨hweight, hr⟩
  · exact Prod.Lex.left _ _ hweight
  · rw [hweight]
    exact Prod.Lex.right _ (hrank hr)

theorem lower_of_close {target : Side} {watchful : Bool}
    (hdone : x.session.tee.result?.isSome = true)
    (hopen : (x.session.reception target).closed = false) :
    Lower ((x.perform up side ⟨.sender target, watchful⟩).rank up rb rc) (x.rank up rb rc) := by
  have heases : x.session.Eases (x.perform up side ⟨.sender target, watchful⟩).session 0 0 := by
    refine ⟨?_, ?_, Or.inl (Session.lighter_of_close hdone hopen)⟩
    · show (x.session.close target).tee.phase = _
      rw [Session.close, if_pos hdone, Session.phase_update]
    · show (x.session.close target).tee.source = _
      rw [Session.close, if_pos hdone, Session.source_update]
  exact lower_of_eases heases fun hr => absurd hr (Nat.lt_irrefl 0)

/-- Every action leaves a crew as it is or leaves less to do. -/
theorem Kept.lowers_or_same (h : x.Kept up side d e) (hb : b.Lively LiveB rb)
    (hc : c.Lively LiveC rc) (hmain : LiveB x.main) (hdigest : LiveC x.digest) (a : CrewAction) :
    x.perform up side a = x ∨
      Lower ((x.perform up side a).rank up rb rc) (x.rank up rb rc) := by
  obtain ⟨party, watchful⟩ := a
  cases party with
  | upstream =>
      rcases up.supply_or x.session.tee.source with hsame | hless
      · refine Or.inl ?_
        rw [perform, hsame]
        rfl
      · exact Or.inr (lower_of_supply hless)
  | producer =>
      by_cases hmoves : Session.isStalled up.ready
          (watchful || !up.ready x.session.tee.source) x.session.tee = false ∧
          x.session.tee.step (watchful || !up.ready x.session.tee.source) ≠ none
      · exact Or.inr (lower_of_steps (Session.stepsLeft_produce_lt hmoves.1 hmoves.2))
      · refine Or.inl ?_
        have hsame : x.session.produce up.ready (watchful || !up.ready x.session.tee.source)
            = x.session := by
          rw [Session.produce]
          split
          · rfl
          · rename_i hawake
            have hnone := fun hstep => hmoves ⟨Bool.eq_false_iff.mpr hawake, hstep⟩
            rw [not_not.mp hnone]
        rw [perform, hsame]
  | sender target =>
      by_cases hdone : x.session.tee.result?.isSome = true
      · cases hclosed : (x.session.reception target).closed with
        | false => exact Or.inr (lower_of_close hdone hclosed)
        | true =>
            refine Or.inl ?_
            rw [perform, Session.close, if_pos hdone, ← hclosed, Session.update_self]
      · refine Or.inl ?_
        rw [perform, Session.close, if_neg hdone]
  | main task =>
      have hcase := h.accounted.carry_case side x.main (b.next x.main task watchful)
      rcases hb.eases hmain h.accounted rfl hcase with heases | ⟨hk, hs, -⟩
      · exact Or.inr (lower_of_eases heases fun hr => Nat.add_lt_add_right hr _)
      · refine Or.inl ?_
        rw [perform, hk, hs]
  | digest task =>
      have hcase := h.accounted.carry_case side.other x.digest (c.next x.digest task watchful)
      rcases hc.eases hdigest h.accounted rfl hcase with heases | ⟨hk, hs, -⟩
      · exact Or.inr (lower_of_eases heases fun hr => Nat.add_lt_add_left hr _)
      · refine Or.inl ?_
        rw [perform, hk, hs]

/-! ## Coming to an answer -/

/-- A producer at work can make a step, unless a message has to be taken first,
    or the source has nothing to say and both outputs are held. -/
theorem lower_or_stuck (up : Upstream σ) (side : Side) (rb : b.State → Nat) (rc : c.State → Nat)
    (hrunning : x.session.tee.result? = none) :
    (∀ watchful, Lower ((x.perform up side ⟨.producer, watchful⟩).rank up rb rc)
      (x.rank up rb rc)) ∨
    (∃ target, (x.session.tee.output target).dropped = false ∧
      (x.session.tee.output target).queue ≠ []) ∨
    (up.ready x.session.tee.source = false ∧
      ∀ target, (x.session.tee.output target).dropped = false) := by
  by_cases hstuck : ∃ watchful, x.session.tee.step watchful = none
  · obtain ⟨watchful, hstep⟩ := hstuck
    rcases Tee.stuck_of_step_eq_none hstep with ⟨result, hphase⟩ | ⟨target, m, -, hheld, hqueue⟩
    · rw [Tee.result?, hphase] at hrunning
      cases hrunning
    · exact Or.inr (Or.inl ⟨target, hheld, hqueue⟩)
  have hstep : ∀ watchful, x.session.tee.step watchful ≠ none := fun w hnone => hstuck ⟨w, hnone⟩
  by_cases hidle : up.ready x.session.tee.source = false ∧ x.session.tee.someDropped = false
  · obtain ⟨hstalled, hheld⟩ := hidle
    refine Or.inr (Or.inr ⟨hstalled, fun target => Bool.eq_false_iff.mpr fun hdropped => ?_⟩)
    cases hheld.symm.trans (Tee.someDropped_of hdropped)
  · refine Or.inl fun watchful => lower_of_steps (Session.stepsLeft_produce_lt ?_ (hstep _))
    rw [Session.isStalled]
    split
    · -- a producer that cannot read notices what was dropped
      cases hready : up.ready x.session.tee.source with
      | true => exact Bool.and_false _
      | false =>
          have hsome : x.session.tee.someDropped = true :=
            Bool.not_eq_false _ ▸ fun hheld => hidle ⟨hready, hheld⟩
          rw [hsome, Bool.not_false, Bool.or_true]
          rfl
    · rfl

/-- Whether there is someone all of whose actions leave less to do. -/
def IsHelped (up : Upstream σ) (side : Side) (rb : b.State → Nat) (rc : c.State → Nat)
    (x : Crew σ b c) : Prop :=
  ∃ party, ∀ a : CrewAction, a.party = party →
    Lower ((x.perform up side a).rank up rb rc) (x.rank up rb rc)

theorem isHelped_of_main (h : ∃ t, ∀ watchful,
    x.session.Eases (x.session.carry side x.main (b.next x.main t watchful)).2 (rb x.main)
      (rb (x.session.carry side x.main (b.next x.main t watchful)).1)) :
    x.IsHelped up side rb rc := by
  obtain ⟨t, ht⟩ := h
  refine ⟨.main t, ?_⟩
  rintro ⟨_, watchful⟩ rfl
  exact lower_of_eases (ht watchful) fun hr => Nat.add_lt_add_right hr _

theorem isHelped_of_digest (h : ∃ t, ∀ watchful,
    x.session.Eases (x.session.carry side.other x.digest (c.next x.digest t watchful)).2
      (rc x.digest) (rc (x.session.carry side.other x.digest (c.next x.digest t watchful)).1)) :
    x.IsHelped up side rb rc := by
  obtain ⟨t, ht⟩ := h
  refine ⟨.digest t, ?_⟩
  rintro ⟨_, watchful⟩ rfl
  exact lower_of_eases (ht watchful) fun hr => Nat.add_lt_add_left hr _

/-- Once the producer has exited, a reader that waits has its channel closed. -/
theorem isHelped_of_starved (hdone : x.session.tee.result?.isSome = true) {target : Side}
    (h : x.session.IsStarved target) : x.IsHelped up side rb rc := by
  refine ⟨.sender target, ?_⟩
  rintro ⟨_, watchful⟩ rfl
  exact lower_of_close hdone h.2.2

/-- Once the producer has exited, someone is there to help until there is an
    answer. -/
theorem Kept.helped_of_exited (h : x.Kept up side d e) (hb : b.Lively LiveB rb)
    (hc : c.Lively LiveC rc) (hmain : LiveB x.main) (hdigest : LiveC x.digest)
    (hdone : x.session.tee.result?.isSome = true) : x.IsDone ∨ x.IsHelped up side rb rc := by
  by_cases hbusy : b.left x.main = false ∨ b.result? x.main = none
  · rcases hb.helps hmain h.accounted hbusy with hstarved | heases
    · exact Or.inr (isHelped_of_starved hdone hstarved)
    · exact Or.inr (isHelped_of_main heases)
  by_cases hbusy' : c.left x.digest = false ∨ c.result? x.digest = none
  · rcases hc.helps hdigest h.accounted hbusy' with hstarved | heases
    · exact Or.inr (isHelped_of_starved hdone hstarved)
    · exact Or.inr (isHelped_of_digest heases)
  · refine Or.inl ⟨?_, ?_, hdone⟩
    · exact Option.isSome_iff_ne_none.mpr fun hnone => hbusy (Or.inr hnone)
    · exact Option.isSome_iff_ne_none.mpr fun hnone => hbusy' (Or.inr hnone)

/-- While a channel is full, the branch that holds its output can take from it. -/
theorem Kept.helped_of_full (h : x.Kept up side d e) (hb : b.Lively LiveB rb)
    (hc : c.Lively LiveC rc) (hmain : LiveB x.main) (hdigest : LiveC x.digest) {target : Side}
    (hheld : (x.session.tee.output target).dropped = false)
    (hqueue : (x.session.tee.output target).queue ≠ []) : x.IsHelped up side rb rc := by
  by_cases htarget : target = side
  · subst htarget
    rcases hb.helps hmain h.accounted (Or.inl (h.main_left.symm.trans hheld)) with hstarved | heases
    · exact absurd hstarved.1 hqueue
    · exact isHelped_of_main heases
  · obtain rfl := Side.eq_other htarget
    rcases hc.helps hdigest h.accounted (Or.inl (h.digest_left.symm.trans hheld))
      with hstarved | heases
    · exact absurd hstarved.1 hqueue
    · exact isHelped_of_digest heases

/-- As long as there is no answer, there is someone all of whose actions leave
    less to do, if the source is supplied or the main branch gives it up. -/
theorem Kept.helped (h : x.Kept up side d e) (hb : b.Lively LiveB rb) (hc : c.Lively LiveC rc)
    (hmain : LiveB x.main) (hdigest : LiveC x.digest) (hgo : up.IsEager ∨ b.GivesUp LiveB) :
    x.IsDone ∨ x.IsHelped up side rb rc := by
  cases hresult : x.session.tee.result? with
  | some result =>
      have hdone : x.session.tee.result?.isSome = true := by
        rw [hresult]
        rfl
      exact h.helped_of_exited hb hc hmain hdigest hdone
  | none =>
      refine Or.inr ?_
      rcases lower_or_stuck up side rb rc hresult with hproduce | ⟨target, hheld, hqueue⟩
        | ⟨hstalled, hheld⟩
      · refine ⟨.producer, ?_⟩
        rintro ⟨_, watchful⟩ rfl
        exact hproduce watchful
      · exact h.helped_of_full hb hc hmain hdigest hheld hqueue
      · rcases hgo with heager | hup
        · refine ⟨.upstream, ?_⟩
          rintro ⟨_, watchful⟩ rfl
          exact lower_of_supply (heager _ hstalled)
        · exact isHelped_of_main (hb.helps_of_givesUp hmain h.accounted hup
            (h.main_left.symm.trans (hheld side)))

/-- A fair schedule comes to an answer, whatever else it is, if the branches get
    on, and the source is supplied or the main branch gives it up. -/
theorem Kept.answers (h : x.Kept up side d e) (hb : b.Lively LiveB rb) (hc : c.Lively LiveC rc)
    (hmain : LiveB x.main) (hdigest : LiveC x.digest) (hgo : up.IsEager ∨ b.GivesUp LiveB)
    {schedule : Nat → CrewAction} (hfair : Fair schedule) :
    ∃ n, (x.along up side schedule n).IsDone := by
  refine exists_done lower_wf (rank up rb rc)
    (I := fun x => x.Kept up side d e ∧ LiveB x.main ∧ LiveC x.digest) ?_ ?_ ?_ hfair
    ⟨h, hmain, hdigest⟩
  · rintro x a ⟨h, hmain, hdigest⟩
    exact ⟨h.performed a, main_performed hb.live hmain a, digest_performed hc.live hdigest a⟩
  · rintro x a ⟨h, hmain, hdigest⟩
    exact h.lowers_or_same hb hc hmain hdigest a
  · rintro x ⟨h, hmain, hdigest⟩
    exact h.helped hb hc hmain hdigest hgo

theorem Kept.along (h : x.Kept up side d e) (schedule : Nat → CrewAction) (n : Nat) :
    (x.along up side schedule n).Kept up side d e :=
  takeTurns_keeps (I := Kept up side d e) (fun _ a h => h.performed a) h schedule n

/-- What the main branch has come to it sticks to. -/
theorem result_performed {r : α} (h : b.result? x.main = some r) (a : CrewAction) :
    b.result? (x.perform up side a).main = some r :=
  main_performed (I := fun k => b.result? k = some r) (fun hr hleads => b.result_leads hleads hr)
    h a

/-- Whenever the main branch has a result, it is the same. -/
theorem result_unique {schedule : Nat → CrewAction} {m n : Nat} {r r' : α}
    (h : b.result? (x.along up side schedule m).main = some r)
    (h' : b.result? (x.along up side schedule n).main = some r') : r' = r := by
  have hlater : ∀ {m n : Nat} {r : α}, m ≤ n →
      b.result? (x.along up side schedule m).main = some r →
      b.result? (x.along up side schedule n).main = some r := by
    intro m n r hmn hr
    induction hmn with
    | refl => exact hr
    | step _ ih => exact result_performed ih _
  rcases Nat.le_total m n with hmn | hnm
  · exact Option.some.inj (h'.symm.trans (hlater hmn h))
  · exact Option.some.inj ((hlater hnm h').symm.trans h)

/-- From when the main branch has a result on, a fair schedule comes to an
    answer, whatever the source does. -/
theorem answers_later (hb : b.Settles) (hc : c.GetsOn) (source : σ) (buffer : Nat)
    {schedule : Nat → CrewAction} (hfair : Fair schedule) {m : Nat} {r : α}
    (hr : b.result? ((begin b c source buffer).along up side schedule m).main = some r) :
    ∃ n, ((begin b c source buffer).along up side schedule n).IsDone := by
  obtain ⟨I, Live, rank, hlively, hup, hstart, hkeep, hlive⟩ := hb
  obtain ⟨Live', rank', hlively', hstart'⟩ := hc
  have hmain : I ((begin b c source buffer).along up side schedule m).main :=
    takeTurns_keeps (I := fun x : Crew σ b c => I x.main)
      (fun _ a hmain => main_performed hkeep hmain a) hstart schedule m
  have hdigest : Live' ((begin b c source buffer).along up side schedule m).digest :=
    takeTurns_keeps (I := fun x : Crew σ b c => Live' x.digest)
      (fun _ a hdigest => digest_performed hlively'.live hdigest a) hstart' schedule m
  have hkept := (kept_begin up side b c source buffer).along schedule m
  obtain ⟨n, hn⟩ := hkept.answers hlively hlively' (hlive hmain hr) hdigest (Or.inr hup)
    (hfair.later m)
  refine ⟨m + n, ?_⟩
  rw [Crew.along, takeTurns_add]
  exact hn

end Crew

end ContentVault
