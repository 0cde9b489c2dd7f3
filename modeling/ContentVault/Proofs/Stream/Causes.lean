import ContentVault.Proofs.Stream.Ports

/-! # What a failing source comes to

    A branch is loyal (`Branch.Loyal`) if it reads until it is told how its
    stream ends and leaves only then, and if a failure that it is told of is its
    result.  Where both branches are, one of them is told of the failure of the
    source, whoever acts when, and the other one of the same or that its sibling
    is gone (`Causes`).  In either case the failure of the source explains both
    results (`Crew.explained`). -/

namespace ContentVault

open ByteReader ReaderView Outlet

/-! ## What a holder knows -/

namespace Reception

/-- Whether this is what the holder of an output was told of how the stream
    ends, if anything. -/
def Knows (r : Reception) : Option Ending → Prop
  | none => Flows r.reads
  | some none => r.SawEnd
  | some (some x) => r.failure? = some x

theorem Knows.congr {r r' : Reception} {told : Option Ending} (h : r.Knows told)
    (hreads : r'.reads = r.reads) : r'.Knows told := by
  match told with
  | none =>
      show Flows r'.reads
      rw [hreads]
      exact h
  | some none =>
      obtain ⟨room, hroom, hend⟩ := h
      exact ⟨room, hroom, hreads ▸ hend⟩
  | some (some x) =>
      show failureOf r'.reads = some x
      rw [hreads]
      exact h

/-- A holder knows what the last read told. -/
theorem Flows.knows {r r' : Reception} (h : Flows r.reads) {room : Nat} (hroom : room ≠ 0)
    {result : ReadResult} (hreads : r'.reads = r.reads ++ [(room, result)]) :
    r'.Knows (Port.toldBy result) := by
  match result with
  | .ok [] =>
      refine ⟨room, hroom, ?_⟩
      rw [hreads]
      exact List.mem_append_right _ (List.mem_singleton_self _)
  | .ok (b :: bs) =>
      show Flows r'.reads
      rw [hreads]
      exact h.snoc fun _ => nofun
  | .error x =>
      show failureOf r'.reads = some x
      rw [hreads, failureOf_append, h.failureOf_eq]
      rfl

end Reception

namespace Session

variable {σ : Type} {s s' : Session σ} {side : Side}

theorem reads_of_read {room : Nat} {result : ReadResult}
    (h : s.read side room = (some result, s')) :
    (s'.reception side).reads = (s.reception side).reads ++ [(room, result)] := by
  rw [read] at h
  obtain ⟨hresult, rfl⟩ := Prod.mk.inj h
  rw [reception_update, hresult]
  rfl

theorem reads_close (s : Session σ) (target side : Side) :
    ((s.close target).reception side).reads = (s.reception side).reads := by
  rw [close]
  split
  · exact s.update_elim target _ { s.reception target with closed := true }
      (fun other _ r => r.reads = (s.reception other).reads) rfl (fun _ _ => rfl) side
  · rfl

theorem reads_produce [ByteReader σ] (ready : σ → Bool) (watchful : Bool) (s : Session σ)
    (side : Side) :
    ((s.produce ready watchful).reception side).reads = (s.reception side).reads := by
  rw [produce]
  split
  · rfl
  · split <;> rfl

/-- What a branch does is nothing that the holder of the other output is told. -/
theorem CarryCase.reads_other {κ : Type} {k k' : κ} {deed : Deed κ}
    (h : CarryCase s side k deed k' s') {other : Side} (hne : other ≠ side) :
    (s'.reception other).reads = (s.reception other).reads := by
  cases h with
  | rest | work | leave | waits | otherwise => rfl
  | @fed room _ _ result s' hread =>
      obtain ⟨out, r, hupdate, -, -⟩ := s.read_eq_update side room
      have hs : s' = s.update side out r := (congrArg Prod.snd hread).symm.trans hupdate
      rw [hs, reception_update_of_ne _ _ _ _ hne]

/-- Over a source that fails, a holder is told of that or that its sibling is
    gone. -/
theorem Accounted.told [ByteReader σ] [ReaderView σ] {ready : σ → Bool} {d : Bytes} {x : IoError}
    (h : s.Accounted ready d (some x)) {e : Ending} (hknows : (s.reception side).Knows (some e)) :
    e = some x ∨
      (e = some (.fault .siblingClosed) ∧ (s.tee.output side.other).dropped = true) := by
  match e with
  | none =>
      obtain ⟨room, hroom, hend⟩ := hknows
      obtain ⟨-, hclean, -⟩ := (h.books side).course.of_end hroom hend
      cases hclean
  | some y =>
      rcases (h.books side).course.of_failure hknows with ⟨-, hbroken, -⟩ | ⟨hy, htorn⟩
      · exact Or.inl hbroken.symm
      · exact Or.inr ⟨congrArg some hy, htorn⟩

end Session

/-! ## Loyal branches -/

/-- Whether a port is loyal to its stream: it keeps it until its result, reads
    until it is told how the stream ends, and reports a failure that it is told
    of.  `Inv` relates where it is to what it was told. -/
structure Port.Loyal {α : Type} (p : Port (Attempt α)) (Inv : p.State → Option Ending → Prop) :
    Prop where
  start : Inv p.start none
  ask : ∀ {k : p.State} {told : Option Ending} {room : Nat} {fed : ReadResult → p.State},
    Inv k told → p.step k = .ask room fed →
    told = none ∧ room ≠ 0 ∧ ∀ r, Inv (fed r) (Port.toldBy r)
  work : ∀ {k next : p.State} {told : Option Ending}, Inv k told → p.step k = .work next →
    Inv next told
  stays : ∀ {k next : p.State} {told : Option Ending}, Inv k told → p.step k ≠ .leave next
  done : ∀ {k : p.State} {told : Option Ending} {r : Attempt α}, Inv k told →
    p.step k = .done r → ∃ e, told = some e ∧ ∀ x, e = some x → r = .error (.ofIo x)

/-- Whether a branch is loyal to its output, `Inv` relating where it is to what
    it was told of how the stream ends. -/
structure Branch.Loyal {α : Type} (b : Branch (Attempt α))
    (Inv : b.State → Option Ending → Prop) : Prop where
  start : Inv b.start none
  work : ∀ {k k' : b.State} {told : Option Ending} {t : Task} {watchful : Bool}, Inv k told →
    b.next k t watchful = .work k' → Inv k' told
  leave : ∀ {k k' : b.State} {told : Option Ending} {t : Task} {watchful : Bool}, Inv k told →
    b.next k t watchful = .leave k' → Inv k' told
  read : ∀ {k : b.State} {told : Option Ending} {t : Task} {watchful : Bool} {room : Nat}
    {fed : ReadResult → b.State} {otherwise : Option b.State}, Inv k told →
    b.next k t watchful = .read room fed otherwise →
    told = none ∧ room ≠ 0 ∧ (∀ r, Inv (fed r) (Port.toldBy r)) ∧
      ∀ k', otherwise = some k' → Inv k' none
  left : ∀ {k : b.State} {told : Option Ending}, Inv k told → b.left k = true → told ≠ none
  result : ∀ {k : b.State} {told : Option Ending} {r : Attempt α}, Inv k told →
    b.result? k = some r → ∃ e, told = some e ∧ ∀ x, e = some x → r = .error (.ofIo x)

namespace Port

variable {α : Type}

/-- A collector is loyal, if what it makes of a stream that fails is the failure. -/
theorem loyal_collector {conclude : Relay → Attempt α}
    (h : ∀ r x, ending r = some x → conclude r = .error (.ofIo x)) :
    (collector conclude).Loyal fun c told => c.ending = told := by
  constructor
  case start => rfl
  case ask =>
    intro c told room fed hc hstep
    rcases collector_cases conclude c with ⟨hnone, hask⟩ | ⟨e, -, hdone⟩
    · cases hask.symm.trans hstep
      exact ⟨hc.symm.trans hnone, by decide, fun r => ending_note hnone r⟩
    · cases hdone.symm.trans hstep
  case work =>
    intro c next told _ hstep
    rcases collector_cases conclude c with ⟨-, hask⟩ | ⟨e, -, hdone⟩
    · cases hask.symm.trans hstep
    · cases hdone.symm.trans hstep
  case stays =>
    intro c next told _ hstep
    rcases collector_cases conclude c with ⟨-, hask⟩ | ⟨e, -, hdone⟩
    · cases hask.symm.trans hstep
    · cases hdone.symm.trans hstep
  case done =>
    intro c told r hc hstep
    rcases collector_cases conclude c with ⟨-, hask⟩ | ⟨e, he, hdone⟩
    · cases hask.symm.trans hstep
    · cases hdone.symm.trans hstep
      refine ⟨e, hc.symm.trans he, ?_⟩
      rintro x rfl
      exact h _ x (Tee.Catch.content_relay c he).2

/-- A loyal port that holds an output is a loyal branch. -/
theorem Loyal.direct {p : Port (Attempt α)} {Inv : p.State → Option Ending → Prop}
    (h : p.Loyal Inv) :
    p.direct.Loyal fun k told => Inv k.1 told ∧ (k.2 = true → told ≠ none) := by
  constructor
  case start => exact ⟨h.start, nofun⟩
  case work =>
    rintro k k' told task watchful ⟨hk, hleft⟩ hnext
    rcases direct_cases hnext with hrest | hcase
    · cases hrest
    · cases hcase with
      | work hstep => exact ⟨h.work hk hstep, hleft⟩
      | again hstep => exact absurd hstep (h.stays hk)
  case leave =>
    rintro k k' told task watchful ⟨hk, hleft⟩ hnext
    rcases direct_cases hnext with hrest | hcase
    · cases hrest
    · cases hcase with
      | leave hstep => exact absurd hstep (h.stays hk)
      | done hstep =>
          obtain ⟨e, rfl, -⟩ := h.done hk hstep
          exact ⟨hk, fun _ => nofun⟩
  case read =>
    rintro k told task watchful room fed otherwise ⟨hk, hleft⟩ hnext
    rcases direct_cases hnext with hrest | hcase
    · cases hrest
    · cases hcase with
      | ask hstep =>
          obtain ⟨hnone, hroom, hfed⟩ := h.ask hk hstep
          exact ⟨hnone, hroom, fun r => ⟨hfed r, nofun⟩, nofun⟩
  case left =>
    rintro k told ⟨-, hleft⟩ hk
    exact hleft hk
  case result =>
    rintro k told r ⟨hk, -⟩ hr
    exact h.done hk (result_eq_some_iff.mp hr)

end Port

/-! ## One root -/

/-- Whether what two branches were told, if anything, goes back to one failure:
    one of them was told of it, the other perhaps only that its sibling is gone. -/
structure Causes (x : IoError) (told told' : Option Ending) : Prop where
  first : ∀ e, told = some e → e = some x ∨ e = some (.fault .siblingClosed)
  second : ∀ e, told' = some e → e = some x ∨ e = some (.fault .siblingClosed)
  root : told ≠ none ∨ told' ≠ none → told = some (some x) ∨ told' = some (some x)

namespace Causes

variable {x : IoError} {told told' : Option Ending}

theorem none (x : IoError) : Causes x none none := ⟨nofun, nofun, by rintro (h | h) <;> cases h rfl⟩

theorem symm (h : Causes x told told') : Causes x told' told :=
  ⟨h.second, h.first, fun hsome => (h.root hsome.symm).symm⟩

/-- A branch is told of the failure, or that its sibling is gone that was told
    of it. -/
theorem next (h : Causes x .none told') {e : Ending}
    (he : e = some x ∨ (e = some (.fault .siblingClosed) ∧ told' ≠ .none)) :
    Causes x (some e) told' where
  first := by
    intro e' he'
    cases he'
    exact he.imp_right And.left
  second := h.second
  root _ := by
    rcases he with rfl | ⟨-, hother⟩
    · exact Or.inl rfl
    · rcases h.root (Or.inr hother) with hfirst | hsecond
      · cases hfirst
      · exact Or.inr hsecond

/-- The root explains the results of both. -/
theorem explains {y z : IoError} (h : Causes x (some (some y)) (some (some z))) :
    VaultFailure.explaining (.ofIo y) (.ofIo z) = .ofIo x := by
  have hgone : ∀ {f : VaultFailure}, f.isSiblingClosed = true →
      f = .ofIo (.fault .siblingClosed) := by
    intro f hf
    match f with
    | .io (.fault .siblingClosed) => rfl
  rcases h.first _ rfl with hy | hy <;> cases hy
  · rcases h.second _ rfl with hz | hz <;> cases hz
    · rw [VaultFailure.explaining]
      exact ite_self _
    · rw [VaultFailure.explaining, if_neg]
      exact fun hboth => Bool.false_ne_true (Bool.and_eq_true_iff.mp hboth).2
  · have hz : z = x := by
      rcases h.root (Or.inl nofun) with hroot | hroot <;> cases hroot
      · rcases h.second _ rfl with hz | hz <;> cases hz <;> rfl
      · rfl
    rw [hz, VaultFailure.explaining]
    split
    · rfl
    · -- the failure of the source is itself that a sibling is gone
      rename_i hnot
      refine (hgone (Bool.not_eq_false _ ▸ fun hx => hnot ?_)).symm
      rw [hx]
      rfl

end Causes

section

variable {σ α γ : Type} [ByteReader σ] [ReaderView σ] {d : Bytes} {x : IoError}

/-- What a loyal branch is told goes back to the failure of the source, if what
    the other one was told does, and that was told before it left. -/
theorem Branch.Loyal.caused {b : Branch (Attempt α)} {Inv : b.State → Option Ending → Prop}
    (hb : b.Loyal Inv) {s : Session σ} {ready : σ → Bool} {holder : Side} {k : b.State}
    {told other : Option Ending} (h : s.Accounted ready d (some x))
    (hleft : (s.tee.output holder).dropped = b.left k) (hk : Inv k told)
    (hknows : (s.reception holder).Knows told) (hcauses : Causes x told other)
    (hother : (s.tee.output holder.other).dropped = true → other ≠ none) (t : Task)
    (watchful : Bool) :
    ∃ told', Inv (s.carry holder k (b.next k t watchful)).1 told' ∧
      ((s.carry holder k (b.next k t watchful)).2.reception holder).Knows told' ∧
      Causes x told' other := by
  obtain ⟨haccounted, -, hdropped⟩ := Crew.carried h hleft t watchful
  have hcase := h.carry_case holder k (b.next k t watchful)
  rw [← hdropped _ holder.other_ne] at hother
  generalize s.carry holder k (b.next k t watchful) = out at haccounted hcase hother
  obtain ⟨k', s'⟩ := out
  generalize hdeed : b.next k t watchful = deed at hcase
  cases hcase with
  | rest | waits => exact ⟨told, hk, hknows, hcauses⟩
  | work => exact ⟨told, hb.work hk hdeed, hknows, hcauses⟩
  | leave => exact ⟨told, hb.leave hk hdeed, hknows, hcauses⟩
  | otherwise =>
      obtain ⟨rfl, -, -, hnext⟩ := hb.read hk hdeed
      exact ⟨none, hnext _ rfl, hknows, hcauses⟩
  | @fed room _ _ result s' hread =>
      obtain ⟨rfl, hroom, hfed, -⟩ := hb.read hk hdeed
      have hknows' := Reception.Flows.knows hknows hroom (Session.reads_of_read hread)
      refine ⟨Port.toldBy result, hfed result, hknows', ?_⟩
      cases htold : Port.toldBy result with
      | none => exact hcauses
      | some e =>
          rw [htold] at hknows'
          exact hcauses.next ((haccounted.told hknows').imp_right fun he => ⟨he.1, hother he.2⟩)

namespace Crew

variable {b : Branch (Attempt α)} {c : Branch (Attempt γ)} {up : Upstream σ} {side : Side}
  {Inv : b.State → Option Ending → Prop} {Inv' : c.State → Option Ending → Prop}
  {told told' : Option Ending}

/-- What the branches of a crew were told of how the stream ends, over a source
    that fails. -/
structure Traced (up : Upstream σ) (side : Side) (d : Bytes) (x : IoError)
    (Inv : b.State → Option Ending → Prop) (Inv' : c.State → Option Ending → Prop)
    (told told' : Option Ending) (y : Crew σ b c) : Prop where
  kept : y.Kept up side d (some x)
  main : Inv y.main told
  digest : Inv' y.digest told'
  main_knows : (y.session.reception side).Knows told
  digest_knows : (y.session.reception side.other).Knows told'
  causes : Causes x told told'

theorem traced_begin (hb : b.Loyal Inv) (hc : c.Loyal Inv') {source : σ} {buffer : Nat}
    (hsource : Session.passedEnd source buffer = some x) :
    (begin b c source buffer).Traced up side (Session.passed source buffer) x Inv Inv' none none where
  kept := hsource ▸ kept_begin up side b c source buffer
  main := hb.start
  digest := hc.start
  main_knows := nofun
  digest_knows := nofun
  causes := .none x

/-- Every action keeps what is said of what the branches were told. -/
theorem Traced.performed (hb : b.Loyal Inv) (hc : c.Loyal Inv') {y : Crew σ b c}
    (h : y.Traced up side d x Inv Inv' told told') (a : CrewAction) :
    ∃ told told', (y.perform up side a).Traced up side d x Inv Inv' told told' := by
  have hkept := h.kept.performed a
  obtain ⟨party, watchful⟩ := a
  cases party with
  | upstream =>
      exact ⟨told, told', hkept, h.main, h.digest, h.main_knows, h.digest_knows, h.causes⟩
  | producer =>
      exact ⟨told, told', hkept, h.main, h.digest,
        h.main_knows.congr (Session.reads_produce _ _ _ _),
        h.digest_knows.congr (Session.reads_produce _ _ _ _), h.causes⟩
  | sender target =>
      exact ⟨told, told', hkept, h.main, h.digest,
        h.main_knows.congr (Session.reads_close _ target side),
        h.digest_knows.congr (Session.reads_close _ target side.other), h.causes⟩
  | main task =>
      have hother : (y.session.tee.output side.other).dropped = true → told' ≠ none :=
        fun hdropped => hc.left h.digest (h.kept.digest_left.symm.trans hdropped)
      obtain ⟨told1, hmain, hknows, hcauses⟩ := hb.caused h.kept.accounted h.kept.main_left h.main
        h.main_knows h.causes hother task watchful
      have hcase := h.kept.accounted.carry_case side y.main (b.next y.main task watchful)
      exact ⟨told1, told', hkept, hmain, h.digest, hknows,
        h.digest_knows.congr (hcase.reads_other side.other_ne), hcauses⟩
  | digest task =>
      have hother : (y.session.tee.output side.other.other).dropped = true → told ≠ none := by
        rw [side.other_other]
        exact fun hdropped => hb.left h.main (h.kept.main_left.symm.trans hdropped)
      obtain ⟨told1, hdigest, hknows, hcauses⟩ := hc.caused h.kept.accounted h.kept.digest_left
        h.digest h.digest_knows h.causes.symm hother task watchful
      have hcase := h.kept.accounted.carry_case side.other y.digest (c.next y.digest task watchful)
      exact ⟨told, told1, hkept, h.main, hdigest,
        h.main_knows.congr (hcase.reads_other side.other_ne.symm), hknows, hcauses.symm⟩

/-- Whatever two loyal branches have come to, whoever acted when, the failure of
    the source is what explains it. -/
theorem explained (hb : b.Loyal Inv) (hc : c.Loyal Inv') {source : σ} {buffer : Nat}
    (hsource : Session.passedEnd source buffer = some x) (schedule : Nat → CrewAction) (n : Nat)
    {r : Attempt α} {r' : Attempt γ}
    (hr : b.result? ((begin b c source buffer).along up side schedule n).main = some r)
    (hr' : c.result? ((begin b c source buffer).along up side schedule n).digest = some r') :
    ∃ f g, r = .error f ∧ r' = .error g ∧ VaultFailure.explaining f g = .ofIo x := by
  obtain ⟨told, told', h⟩ := takeTurns_keeps
    (I := fun y => ∃ told told', Traced up side (Session.passed source buffer) x Inv Inv' told
      told' y)
    (fun y a ⟨_, _, h⟩ => h.performed hb hc a)
    ⟨none, none, traced_begin hb hc hsource⟩ schedule n
  obtain ⟨e, rfl, hfailure⟩ := hb.result h.main hr
  obtain ⟨e', rfl, hfailure'⟩ := hc.result h.digest hr'
  obtain ⟨y, rfl⟩ : ∃ y, e = some y := by
    rcases h.causes.first e rfl with rfl | rfl
    · exact ⟨x, rfl⟩
    · exact ⟨_, rfl⟩
  obtain ⟨z, rfl⟩ : ∃ z, e' = some z := by
    rcases h.causes.second e' rfl with rfl | rfl
    · exact ⟨x, rfl⟩
    · exact ⟨_, rfl⟩
  exact ⟨_, _, hfailure y rfl, hfailure' z rfl, h.causes.explains⟩

end Crew

end

end ContentVault
