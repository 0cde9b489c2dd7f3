import ContentVault.Proofs.Stream.Books

/-! # Reading a tee to the end

    A schedule says who acts at every moment, for ever.  It is `Fair` if no one
    is kept from acting for ever: not the producer, not the sending ends that
    have to go away, and not the readers, who ask for at least a byte from time
    to time.  Over a source that never stalls, and as long as no output is
    dropped, every fair schedule brings both readers to where the stream is over
    (`Fair.isOver`).

    The argument is a weight (`Session.weight`): what the producer has still to
    do and what is under way.  No action makes it more; an action that leaves it
    as it is changes nothing that counts (`Session.core`); and as long as a
    reader can go on, someone can make it less (`Accounted.helped`). -/

namespace ContentVault

open ByteReader ReaderView Outlet

namespace Session

variable {σ : Type} [ByteReader σ]

/-! ## Schedules -/

/-- The session after the first actions of a schedule. -/
def along (ready : σ → Bool) (s : Session σ) (schedule : Nat → TeeAction) : Nat → Session σ
  | 0 => s
  | n + 1 => (along ready s schedule n).perform ready (schedule n)

theorem along_eq_after (ready : σ → Bool) (s : Session σ) (schedule : Nat → TeeAction) (n : Nat) :
    s.along ready schedule n = s.after ready ((List.range n).map schedule) := by
  induction n with
  | zero => rfl
  | succ n ih =>
      rw [along, ih, List.range_succ, List.map_append, after_append]
      rfl

/-- A schedule in which the producer, the sending ends and the readers act again
    and again. -/
structure Fair (schedule : Nat → TeeAction) : Prop where
  produce : ∀ n, ∃ m, n ≤ m ∧ ∃ watchful, schedule m = .produce watchful
  close : ∀ side n, ∃ m, n ≤ m ∧ schedule m = .close side
  read : ∀ side n, ∃ m, n ≤ m ∧ ∃ room, room ≠ 0 ∧ schedule m = .read side room

/-- The schedule that goes through some actions again and again. -/
def repeating (first : TeeAction) (more : List TeeAction) (n : Nat) : TeeAction :=
  (first :: more).get ⟨n % (first :: more).length, Nat.mod_lt _ (Nat.zero_lt_succ _)⟩

theorem repeating_mem (first : TeeAction) (more : List TeeAction) (n : Nat) :
    repeating first more n ∈ first :: more :=
  List.get_mem ..

theorem repeating_again {first a : TeeAction} {more : List TeeAction} (ha : a ∈ first :: more)
    (n : Nat) : ∃ m, n ≤ m ∧ repeating first more m = a := by
  obtain ⟨⟨i, hi⟩, hget⟩ := List.get_of_mem ha
  refine ⟨(first :: more).length * n + i, ?_, ?_⟩
  · exact Nat.le_trans (Nat.le_mul_of_pos_left n (Nat.zero_lt_succ _)) (Nat.le_add_right _ _)
  · rw [repeating, ← hget]
    congr 2
    rw [Nat.mul_add_mod, Nat.mod_eq_of_lt hi]

/-! ## What counts -/

omit [ByteReader σ] in
/-- A session without what was given: what the next actions depend on. -/
def core (s : Session σ) : Tee σ × (Side → Bool) :=
  (s.tee, fun side => (s.reception side).closed)

omit [ByteReader σ] in
theorem core_update (s : Session σ) (side : Side) (out : Output) (r : Reception) :
    (s.update side out r).core
      = (s.tee.setOutput side out, Function.update s.core.2 side r.closed) := by
  refine Prod.ext rfl (funext fun other => ?_)
  show ((s.update side out r).reception other).closed
    = Function.update s.core.2 side r.closed other
  by_cases hs : other = side
  · subst hs
    rw [reception_update, Function.update_self]
  · rw [reception_update_of_ne _ _ _ _ hs, Function.update_of_ne hs]
    rfl

/-- What an action does to the core depends on the core. -/
theorem core_perform (ready : σ → Bool) {s s' : Session σ} (h : s.core = s'.core) (a : TeeAction) :
    (s.perform ready a).core = (s'.perform ready a).core := by
  have htee : s.tee = s'.tee := congrArg Prod.fst h
  have hclosed : ∀ side, (s.reception side).closed = (s'.reception side).closed :=
    congrFun (congrArg Prod.snd h)
  have hwith : ∀ t : Tee σ, ({ s with tee := t } : Session σ).core
      = ({ s' with tee := t } : Session σ).core := fun t => congrArg (t, ·) (congrArg Prod.snd h)
  cases a with
  | produce watchful =>
      rw [perform, perform, produce, produce, htee]
      split
      · exact h
      · split
        · exact hwith _
        · exact h
  | close side =>
      rw [perform, perform, close, close, htee]
      split
      · rw [core_update, core_update, h, htee]
      · exact h
  | drop side =>
      rw [perform, perform, htee]
      exact hwith _
  | read side room =>
      rw [perform, perform, htee]
      split
      · exact h
      · rw [read, read, htee, hclosed side, core_update, core_update, h, htee]

/-! ## The weight -/

omit [ByteReader σ] in
/-- What messages weigh: their bytes, and one for each of them. -/
def weigh : List Message → Nat
  | [] => 0
  | .chunk bytes :: messages => bytes.length + 1 + weigh messages
  | .failure _ :: messages => 1 + weigh messages

omit [ByteReader σ] in
theorem weigh_append (queue hand : List Message) :
    weigh (queue ++ hand) = weigh queue + weigh hand := by
  induction queue with
  | nil => exact (Nat.zero_add _).symm
  | cons m queue ih =>
      cases m with
      | chunk bytes => rw [List.cons_append, weigh, weigh, ih, Nat.add_assoc (bytes.length + 1)]
      | failure x => rw [List.cons_append, weigh, weigh, ih, Nat.add_assoc]

omit [ByteReader σ] in
/-- What an output has still to do: the messages on their way to it, the bytes
    at hand, to see the end, and to have the sending end of its channel gone. -/
def load (messages : List Message) (reader : Outlet) (closed : Bool) : Nat :=
  weigh messages + reader.pending.length
    + (if reader.state = .active then 1 else 0) + (if closed = true then 0 else 1)

omit [ByteReader σ] in
theorem load_append (queue hand : List Message) (reader : Outlet) (closed : Bool) :
    load (queue ++ hand) reader closed = weigh queue + weigh hand + reader.pending.length
      + (if reader.state = .active then 1 else 0) + (if closed = true then 0 else 1) := by
  rw [load, weigh_append]

omit [ByteReader σ] in
theorem load_open (messages : List Message) (reader : Outlet) :
    load messages reader false = load messages reader true + 1 := by
  rw [load, load, if_neg Bool.false_ne_true, if_pos rfl]

omit [ByteReader σ] in
/-- What one output of a session has still to do. -/
def loadAt (s : Session σ) (side : Side) : Nat :=
  load (s.tee.onTheWay side) (s.tee.output side).reader (s.reception side).closed

/-- What a session has still to do. -/
def weight (s : Session σ) : Nat := 5 * s.tee.stepsLeft + s.loadAt .first + s.loadAt .second

theorem weight_of_core {s s' : Session σ} (h : s.core = s'.core) : s.weight = s'.weight := by
  have htee : s.tee = s'.tee := congrArg Prod.fst h
  have hclosed : ∀ side, (s.reception side).closed = (s'.reception side).closed :=
    congrFun (congrArg Prod.snd h)
  rw [weight, weight, loadAt, loadAt, loadAt, loadAt, htee, hclosed, hclosed]

/-- An output that is replaced by a lighter one makes the session lighter. -/
theorem weight_update_lt {s : Session σ} {side : Side} {out : Output} {r : Reception}
    (h : load (out.queue ++ s.tee.inHand side) out.reader r.closed < s.loadAt side) :
    (s.update side out r).weight < s.weight := by
  have hsteps : (s.update side out r).tee.stepsLeft = s.tee.stepsLeft := by cases side <;> rfl
  have hself : (s.update side out r).loadAt side < s.loadAt side := by
    rw [loadAt, Tee.onTheWay, output_update, reception_update, update, Tee.inHand_setOutput]
    exact h
  have hother : ∀ other, other ≠ side → (s.update side out r).loadAt other = s.loadAt other := by
    intro other hne
    rw [loadAt, Tee.onTheWay, output_update_of_ne _ _ _ _ hne, reception_update_of_ne _ _ _ _ hne,
      update, Tee.inHand_setOutput]
    rfl
  rw [weight, weight, hsteps]
  cases side with
  | first =>
      rw [hother .second (by decide)]
      omega
  | second =>
      rw [hother .first (by decide)]
      omega

/-! ## Reading -/

/-- Whether a read with room for a byte gets on. -/
def Hungry (s : Session σ) (side : Side) : Prop :=
  (s.tee.output side).reader.pending ≠ [] ∨
    ((s.tee.output side).reader.state = .active ∧
      ((s.tee.output side).queue ≠ [] ∨ (s.reception side).closed = true))

/-- A read makes a session lighter or leaves what counts as it is, and the
    latter only if it has no room or there is nothing to get. -/
theorem ReadCase.lightens {s s' : Session σ} {side : Side} {room : Nat}
    {result : Option ReadResult} (h : ReadCase s side room result s') :
    s'.weight < s.weight ∨ (s'.core = s.core ∧ (room = 0 ∨ ¬s.Hungry side)) := by
  have hself : ∀ {out : Output} {r : Reception}, s.tee.output side = out →
      r.closed = (s.reception side).closed → (s.update side out r).core = s.core := by
    intro out r hout hclosed
    rw [core_update, Tee.setOutput_self hout, hclosed]
    exact Prod.ext rfl (Function.update_eq_self side s.core.2)
  cases h with
  | @rest queue b bs state dropped hout =>
      cases room with
      | zero => exact Or.inr ⟨hself hout rfl, Or.inl rfl⟩
      | succ room =>
          refine Or.inl (weight_update_lt ?_)
          rw [loadAt, Tee.onTheWay, hout, load_append, load_append, List.length_drop,
            List.length_cons]
          dsimp only
          omega
  | @ended queue dropped hout =>
      refine Or.inr ⟨hself hout rfl, Or.inr ?_⟩
      rw [Hungry, hout]
      rintro (hpending | ⟨hactive, -⟩)
      · exact hpending rfl
      · cases hactive
  | @failed queue dropped hout =>
      refine Or.inr ⟨hself hout rfl, Or.inr ?_⟩
      rw [Hungry, hout]
      rintro (hpending | ⟨hactive, -⟩)
      · exact hpending rfl
      · cases hactive
  | waits hout hclosed =>
      refine Or.inr ⟨rfl, Or.inr ?_⟩
      rw [Hungry, hout, hclosed]
      rintro (hpending | ⟨-, hqueue | hc⟩)
      · exact hpending rfl
      · exact hqueue rfl
      · cases hc
  | cut hout hclosed habort =>
      refine Or.inl (weight_update_lt ?_)
      rw [loadAt, Tee.onTheWay, hout, load_append, load_append,
        if_neg OutletState.failed_ne_active, if_pos rfl]
      dsimp only
      omega
  | ends hout hclosed hquiet =>
      refine Or.inl (weight_update_lt ?_)
      rw [loadAt, Tee.onTheWay, hout, load_append, load_append,
        if_neg OutletState.ended_ne_active, if_pos rfl]
      dsimp only
      omega
  | @chunk b bs dropped hout =>
      refine Or.inl (weight_update_lt ?_)
      rw [loadAt, Tee.onTheWay, hout, load_append, load_append, List.length_drop]
      dsimp only [List.length_nil, weigh]
      omega
  | @failure x dropped hout =>
      refine Or.inl (weight_update_lt ?_)
      rw [loadAt, Tee.onTheWay, hout, load_append, load_append,
        if_neg OutletState.failed_ne_active, if_pos rfl]
      dsimp only [List.length_nil, weigh]
      omega

/-! ## Producing and closing -/

section

variable [ReaderView σ] {ready : σ → Bool} {d : Bytes} {e : Ending} {s : Session σ}

omit [ByteReader σ] [ReaderView σ] in
theorem not_someDropped {t : Tee σ} (held : ∀ side, (t.output side).dropped = false) :
    t.someDropped = false :=
  Bool.or_eq_false_iff.mpr ⟨held .first, held .second⟩

omit [ByteReader σ] [ReaderView σ] in
theorem loadAt_onTheWay {t : Tee σ} {side : Side} {more : List Message}
    (hreader : (t.output side).reader = (s.tee.output side).reader)
    (hway : t.onTheWay side = s.tee.onTheWay side ++ more) :
    loadAt { s with tee := t } side = s.loadAt side + weigh more := by
  show load (t.onTheWay side) (t.output side).reader (s.reception side).closed = _
  rw [hway, hreader, load_append, loadAt, load]
  omega

omit [ByteReader σ] [ReaderView σ] in
/-- A message that was read is in hand for both outputs. -/
theorem onTheWay_sending {t : Tee σ} (hphase : t.phase = .reading) (source : σ) (m : Message)
    (side : Side) :
    ({ t with source, phase := .sending .first m } : Tee σ).onTheWay side
      = t.onTheWay side ++ [m] := by
  have hnone : t.inHand side = [] := by rw [Tee.inHand, hphase]
  rw [Tee.onTheWay, Tee.onTheWay, hnone, List.append_nil]
  cases side <;> rfl

omit [ByteReader σ] [ReaderView σ] in
/-- A message that is put into a channel is still on its way. -/
theorem onTheWay_sent {t : Tee σ} {target : Side} {m : Message}
    (hphase : t.phase = .sending target m) (side : Side) :
    ((t.push target m).afterSending target m).onTheWay side = t.onTheWay side := by
  rw [Tee.onTheWay, Tee.onTheWay, Tee.output_afterSending]
  have hother : ∀ other, other ≠ target → ((t.push target m).output other).queue
      = (t.output other).queue := fun other hne => by rw [Tee.output_push_of_ne _ _ hne]
  cases target with
  | first =>
      cases side with
      | first =>
          rw [Tee.output_push, Tee.inHand, Tee.inHand, hphase]
          exact List.append_nil _
      | second =>
          rw [hother .second (by decide), Tee.inHand, Tee.inHand, hphase]
          rfl
  | second =>
      cases side with
      | first =>
          rw [hother .first (by decide), Tee.inHand, Tee.inHand, hphase]
          cases m <;> rfl
      | second =>
          rw [Tee.output_push, Tee.inHand, Tee.inHand, hphase]
          cases m <;> exact List.append_nil _

/-- A step of the producer makes a session lighter. -/
theorem Accounted.lighter_of_step (h : s.Accounted ready d e)
    (held : ∀ side, (s.tee.output side).dropped = false) {watchful : Bool} {u : Tee σ}
    (hstep : s.tee.step watchful = some u) : ({ s with tee := u } : Session σ).weight < s.weight := by
  have hdropped : ∀ {side : Side}, (s.tee.output side).dropped ≠ true :=
    fun {side} => Bool.eq_false_iff.mp (held side)
  cases Tee.step_case hstep with
  | notice phase alert some => cases (not_someDropped held).symm.trans some
  | refused phase dropped => exact absurd dropped hdropped
  | skipped phase dropped => exact absurd dropped hdropped
  | @sent target m phase held empty =>
      have hload : ∀ side, loadAt { s with tee := (s.tee.push target m).afterSending target m } side
          = s.loadAt side := by
        intro side
        refine loadAt_onTheWay ?_ ((onTheWay_sent phase side).trans (List.append_nil _).symm)
        rw [Tee.output_afterSending]
        by_cases hs : side = target
        · rw [hs, Tee.output_push]
        · rw [Tee.output_push_of_ne _ _ hs]
      have hsteps := Tee.stepsLeft_step hstep
      rw [weight, weight, hload, hload]
      show 5 * ((s.tee.push target m).afterSending target m).stepsLeft + _ + _ < _
      omega
  | read phase calm =>
      have hreading : s.tee.stepsLeft = 3 * left s.tee.source + 3 := by rw [Tee.stepsLeft, phase]
      have hload : ∀ (source : σ) (m : Message) (side : Side),
          loadAt { s with tee := { s.tee with source, phase := .sending .first m } } side
            = s.loadAt side + weigh [m] := by
        intro source m side
        exact loadAt_onTheWay (by cases side <;> rfl) (onTheWay_sending phase source m side)
      rcases s.tee.readSource_cases h.buffer_pos with ⟨x, source, hu, -, -⟩ | ⟨source, hu, -, -⟩
        | ⟨bytes, source, hne, hu, -, -, hleft⟩
      · rw [hu, weight, weight, hload, hload, hreading]
        show 5 * 2 + (_ + 1) + (_ + 1) < _
        omega
      · have hsame : ∀ side, loadAt { s with
            tee := { s.tee with source, phase := .exited (.ok s.tee.total) } } side
              = s.loadAt side := by
          intro side
          have hnone : s.tee.inHand side = [] := by rw [Tee.inHand, phase]
          have hway : ({ s.tee with source, phase := .exited (.ok s.tee.total) } : Tee σ).onTheWay
              side = s.tee.onTheWay side ++ [] := by
            rw [Tee.onTheWay, Tee.onTheWay, hnone, List.append_nil]
            cases side <;> rfl
          exact loadAt_onTheWay (by cases side <;> rfl) hway
        rw [hu, weight, weight, hsame, hsame, hreading]
        show 5 * 0 + _ + _ < _
        omega
      · have hlen := List.length_pos_iff.mpr hne
        rw [hu, weight, weight, hload, hload, hreading]
        show 5 * (3 * left source + 5) + (_ + (bytes.length + 1)) + (_ + (bytes.length + 1)) < _
        omega

omit [ReaderView σ] in
/-- A sending end that goes away makes a session lighter, if it was there. -/
theorem lighter_of_close {side : Side} (hdone : s.tee.result?.isSome = true)
    (hopen : (s.reception side).closed = false) : (s.close side).weight < s.weight := by
  rw [close, if_pos hdone]
  refine weight_update_lt ?_
  rw [loadAt, hopen, load_open]
  exact Nat.lt_succ_self _

/-! ## Any action -/

/-- As long as nothing is dropped, an action makes a session lighter or leaves
    what counts as it is. -/
theorem Accounted.lighter_or_same (h : s.Accounted ready d e)
    (held : ∀ side, (s.tee.output side).dropped = false) {a : TeeAction}
    (ha : ∀ side, a ≠ .drop side) :
    (s.perform ready a).weight < s.weight ∨ (s.perform ready a).core = s.core := by
  cases a with
  | drop side => exact absurd rfl (ha side)
  | produce watchful =>
      rw [perform, produce]
      split
      · exact Or.inr rfl
      · cases hstep : s.tee.step watchful with
        | none => exact Or.inr rfl
        | some u => exact Or.inl (h.lighter_of_step held hstep)
  | close side =>
      rw [perform]
      by_cases hdone : s.tee.result?.isSome = true
      · cases hclosed : (s.reception side).closed with
        | false => exact Or.inl (lighter_of_close hdone hclosed)
        | true =>
            refine Or.inr ?_
            rw [close, if_pos hdone, ← hclosed, update_self]
      · rw [close, if_neg hdone]
        exact Or.inr rfl
  | read side room =>
      rw [perform, if_neg (Bool.eq_false_iff.mp (held side))]
      exact (h.read_case side room).lightens.imp_right And.left

/-- A reader in whose channel a message waits while the producer is at work is
    one that goes on. -/
theorem Accounted.active_of_queue (h : s.Accounted ready d e) {side : Side}
    (hqueue : (s.tee.output side).queue ≠ []) (hrunning : s.tee.result? = none) :
    (s.tee.output side).reader.state = .active := by
  by_contra hover
  rcases (h.books side).halted hover with hdone | ⟨x, hx⟩
  · rw [hrunning] at hdone
    cases hdone
  · obtain ⟨chunks, hsent, -⟩ := h.stands.of_failure (List.mem_append_left _ hx)
    obtain ⟨m, hm⟩ : ∃ m, (s.tee.output side).queue = [m] :=
      List.length_eq_one_iff.mp
        (Nat.le_antisymm (h.books side).short (List.length_pos_iff.mpr hqueue))
    rw [sent, hm] at hsent
    rw [(List.append_inj' hsent rfl).1] at hx
    exact failure_not_mem_map chunks x hx

/-- Whether the producer waits for room in a channel. -/
def StuckAt (s : Session σ) (target : Side) : Prop :=
  (∃ m, s.tee.phase = .sending target m) ∧ (s.tee.output target).queue ≠ []

/-- As long as nothing is dropped and a channel is open, the producer or the
    sending end can make the session lighter, unless a message has to be read
    first. -/
theorem Accounted.lighter_or_stuck (h : s.Accounted (fun _ => true) d e)
    (held : ∀ side, (s.tee.output side).dropped = false) {side : Side}
    (hopen : (s.reception side).closed = false) :
    (∀ watchful, (s.perform (fun _ => true) (.produce watchful)).weight < s.weight) ∨
    (s.perform (fun _ => true) (.close side)).weight < s.weight ∨
    (∃ target, s.StuckAt target) := by
  by_cases hstuck : ∃ watchful, s.tee.step watchful = none
  · obtain ⟨watchful, hstep⟩ := hstuck
    rcases Tee.stuck_of_step_eq_none hstep with ⟨result, hphase⟩ | ⟨target, m, hphase, -, hqueue⟩
    · refine Or.inr (Or.inl (lighter_of_close ?_ hopen))
      rw [Tee.result?, hphase]
      rfl
    · exact Or.inr (Or.inr ⟨target, ⟨m, hphase⟩, hqueue⟩)
  · refine Or.inl fun watchful => ?_
    obtain ⟨u, hu⟩ := Option.ne_none_iff_exists'.mp fun hnone => hstuck ⟨watchful, hnone⟩
    have hawake : isStalled (fun _ => true) watchful s.tee = false := by
      rw [isStalled]
      split
      · exact Bool.and_false _
      · rfl
    rw [perform, produce, hawake, if_neg Bool.false_ne_true, hu]
    exact h.lighter_of_step held hu

/-- A hungry reader makes the session lighter. -/
theorem Accounted.lighter_of_hungry (h : s.Accounted ready d e) {side : Side}
    (held : (s.tee.output side).dropped = false) (hhungry : s.Hungry side) {room : Nat}
    (hroom : room ≠ 0) : (s.perform ready (.read side room)).weight < s.weight := by
  rw [perform, if_neg (Bool.eq_false_iff.mp held)]
  rcases (h.read_case side room).lightens with hlt | ⟨-, hzero | hfull⟩
  · exact hlt
  · exact absurd hzero hroom
  · exact absurd hhungry hfull

/-- As long as nothing is dropped and a reader can go on, someone can make the
    session lighter: the producer, a sending end or a reader. -/
theorem Accounted.helped (h : s.Accounted (fun _ => true) d e)
    (held : ∀ side, (s.tee.output side).dropped = false) {side : Side}
    (hactive : (s.tee.output side).reader.state = .active) :
    (∀ watchful, (s.perform (fun _ => true) (.produce watchful)).weight < s.weight) ∨
    (s.perform (fun _ => true) (.close side)).weight < s.weight ∨
    (∃ target, ∀ room, room ≠ 0 →
      (s.perform (fun _ => true) (.read target room)).weight < s.weight) := by
  by_cases hhungry : s.Hungry side
  · exact Or.inr (Or.inr ⟨side, fun _ => h.lighter_of_hungry (held side) hhungry⟩)
  have hopen : (s.reception side).closed = false :=
    Bool.eq_false_iff.mpr fun hc => hhungry (Or.inr ⟨hactive, Or.inr hc⟩)
  refine (h.lighter_or_stuck held hopen).imp_right fun hrest => hrest.imp_right ?_
  rintro ⟨target, ⟨m, hphase⟩, hqueue⟩
  have htarget := h.active_of_queue hqueue (by rw [Tee.result?, hphase])
  exact ⟨target, fun _ => h.lighter_of_hungry (held target) (Or.inr ⟨htarget, Or.inl hqueue⟩)⟩

/-- A reader that was told that the stream is over does not go on again. -/
theorem Accounted.over_perform (h : s.Accounted ready d e) {side : Side}
    (hover : (s.tee.output side).reader.state ≠ .active) (a : TeeAction) :
    ((s.perform ready a).tee.output side).reader.state ≠ .active := by
  by_cases hread : ∃ room, a = .read side room
  · obtain ⟨room, rfl⟩ := hread
    rw [perform]
    split
    · exact hover
    · have hcase := h.read_case side room
      generalize s.read side room = pair at hcase
      obtain ⟨result, s'⟩ := pair
      have hself : ∀ {out : Output} {r : Reception}, out.reader.state ≠ .active →
          ((s.update side out r).tee.output side).reader.state ≠ .active := by
        intro out r hstate
        rw [output_update]
        exact hstate
      cases hcase with
      | rest hout =>
          rw [hout] at hover
          exact hself hover
      | ended hout | ends hout => exact hself OutletState.ended_ne_active
      | failed hout | cut hout | failure hout => exact hself OutletState.failed_ne_active
      | waits hout => exact hover
      | chunk hout =>
          rw [hout] at hover
          exact absurd rfl hover
  · rw [(unread_perform ready s fun room ha => hread ⟨room, ha⟩).1]
    exact hover

/-- A reader that the stream is over for says so when it is asked for bytes. -/
theorem Accounted.isOver_of_read (h : s.Accounted ready d e) {side : Side}
    (held : (s.tee.output side).dropped = false)
    (hover : (s.tee.output side).reader.state ≠ .active) {room : Nat} (hroom : room ≠ 0) :
    ((s.perform ready (.read side room)).reception side).IsOver := by
  rw [perform, if_neg (Bool.eq_false_iff.mp held)]
  have hspent := (h.books side).spent hover
  have hcase := h.read_case side room
  generalize s.read side room = pair at hcase
  obtain ⟨result, s'⟩ := pair
  have hself : ∀ {out : Output} {r : Reception}, r.IsOver →
      ((s.update side out r).reception side).IsOver := by
    intro out r h
    rw [reception_update]
    exact h
  cases hcase with
  | rest hout =>
      rw [hout] at hspent
      cases hspent
  | ended hout =>
      exact hself (Or.inl ⟨room, hroom, List.mem_append_right _ (List.mem_singleton_self _)⟩)
  | failed hout =>
      refine hself (Or.inr fun hnone => ?_)
      rw [Reception.failure?, Reception.failureOf_append, Option.or_eq_none_iff] at hnone
      cases hnone.2
  | waits hout | cut hout | ends hout | chunk hout | failure hout =>
      rw [hout] at hover
      exact absurd rfl hover

end

/-! ## Along a schedule -/

section

variable [ReaderView σ] {ready : σ → Bool} {d : Bytes} {e : Ending} {s : Session σ}
  {schedule : Nat → TeeAction}

theorem Accounted.along (h : s.Accounted ready d e) (schedule : Nat → TeeAction) (n : Nat) :
    (s.along ready schedule n).Accounted ready d e := by
  induction n with
  | zero => exact h
  | succ n ih => exact ih.performed _

omit [ReaderView σ] in
theorem held_along (ready : σ → Bool) (held : ∀ side, (s.tee.output side).dropped = false)
    (hfree : ∀ n side, schedule n ≠ .drop side) (n : Nat) :
    ∀ side, ((s.along ready schedule n).tee.output side).dropped = false := by
  intro side
  induction n with
  | zero => exact held side
  | succ n ih => exact (dropped_perform _ _ (hfree n side)).trans ih

/-- Who can make a session lighter now does so when it is their turn, unless
    the session has become lighter before. -/
theorem Accounted.lighter_along (h : s.Accounted ready d e)
    (held : ∀ side, (s.tee.output side).dropped = false)
    (hfree : ∀ n side, schedule n ≠ .drop side) {n m : Nat} (hm : n ≤ m)
    (hlt : ((s.along ready schedule n).perform ready (schedule m)).weight
      < (s.along ready schedule n).weight) :
    ∃ k, (s.along ready schedule k).weight < (s.along ready schedule n).weight := by
  have hsteady : ∀ k, n ≤ k →
      (s.along ready schedule k).weight < (s.along ready schedule n).weight ∨
      (s.along ready schedule k).core = (s.along ready schedule n).core := by
    intro k hk
    induction hk with
    | refl => exact Or.inr rfl
    | @step k hk ih =>
        rcases (h.along schedule k).lighter_or_same (held_along ready held hfree k) (hfree k)
          with hstep | hsame
        · rcases ih with ih | ih
          · exact Or.inl (Nat.lt_trans hstep ih)
          · exact Or.inl (weight_of_core ih ▸ hstep)
        · rcases ih with ih | ih
          · exact Or.inl ((weight_of_core hsame).symm ▸ ih)
          · exact Or.inr (hsame.trans ih)
  rcases hsteady m hm with hlighter | hsame
  · exact ⟨m, hlighter⟩
  · refine ⟨m + 1, ?_⟩
    rw [Session.along, weight_of_core (core_perform _ hsame _)]
    exact hlt

omit [ReaderView σ] in
/-- No session becomes lighter for ever. -/
theorem exists_of_lighter {S : Nat → Session σ} {P : Nat → Prop}
    (hstep : ∀ n, P n ∨ ∃ m, (S m).weight < (S n).weight) : ∃ n, P n := by
  have hall : ∀ w n, (S n).weight = w → ∃ n, P n := by
    intro w
    induction w using Nat.strongRecOn with
    | ind w ih =>
        intro n hw
        rcases hstep n with hn | ⟨m, hm⟩
        · exact ⟨n, hn⟩
        · exact ih _ (hw ▸ hm) m rfl
  exact hall _ 0 rfl

/-- Over a source that never stalls, and as long as nothing is dropped, a fair
    schedule comes to where both holders know that the stream is over. -/
theorem Fair.isOver (hfair : Fair schedule) (hfree : ∀ n side, schedule n ≠ .drop side)
    (h : s.Accounted (fun _ => true) d e)
    (held : ∀ side, (s.tee.output side).dropped = false) :
    ∃ n, ∀ side, ((s.along (fun _ => true) schedule n).reception side).IsOver := by
  have hacc := h.along schedule
  have hheld := fun n => held_along (fun _ => true) held hfree n
  have hlighter : ∀ n, (∀ side,
        ((s.along (fun _ => true) schedule n).tee.output side).reader.state ≠ .active) ∨
      ∃ m, (s.along (fun _ => true) schedule m).weight
        < (s.along (fun _ => true) schedule n).weight := by
    intro n
    by_cases hactive : ∃ side,
        ((s.along (fun _ => true) schedule n).tee.output side).reader.state = .active
    · obtain ⟨side, hactive⟩ := hactive
      refine Or.inr ?_
      rcases (hacc n).helped (hheld n) hactive with hproduce | hclose | ⟨target, hread⟩
      · obtain ⟨m, hm, watchful, hact⟩ := hfair.produce n
        exact h.lighter_along held hfree hm (hact ▸ hproduce watchful)
      · obtain ⟨m, hm, hact⟩ := hfair.close side n
        exact h.lighter_along held hfree hm (hact ▸ hclose)
      · obtain ⟨m, hm, room, hroom, hact⟩ := hfair.read target n
        exact h.lighter_along held hfree hm (hact ▸ hread room hroom)
    · exact Or.inl fun side hside => hactive ⟨side, hside⟩
  obtain ⟨n, hn⟩ := exists_of_lighter hlighter
  have hstay : ∀ k, n ≤ k → ∀ side,
      ((s.along (fun _ => true) schedule k).tee.output side).reader.state ≠ .active := by
    intro k hk
    induction hk with
    | refl => exact hn
    | @step k hk ih => exact fun side => (hacc k).over_perform (ih side) _
  have htold : ∀ side, ∃ m, ((s.along (fun _ => true) schedule m).reception side).IsOver := by
    intro side
    obtain ⟨m, hm, room, hroom, hact⟩ := hfair.read side n
    refine ⟨m + 1, ?_⟩
    rw [Session.along, hact]
    exact (hacc m).isOver_of_read (hheld m side) (hstay m hm side) hroom
  have hkept : ∀ side m k, m ≤ k →
      ((s.along (fun _ => true) schedule m).reception side).IsOver →
      ((s.along (fun _ => true) schedule k).reception side).IsOver := by
    intro side m k hk hm
    induction hk with
    | refl => exact hm
    | @step k hk ih => exact ih.mono (reads_perform ..)
  obtain ⟨m, hm⟩ := htold .first
  obtain ⟨m', hm'⟩ := htold .second
  refine ⟨max m m', fun side => ?_⟩
  cases side with
  | first => exact hkept .first m _ (Nat.le_max_left _ _) hm
  | second => exact hkept .second m' _ (Nat.le_max_right _ _) hm'

end

end Session

end ContentVault
