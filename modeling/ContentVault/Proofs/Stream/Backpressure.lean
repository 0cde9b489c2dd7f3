import ContentVault.Proofs.Stream.Progress

/-! # How far apart the outputs of a tee get

    A chunk goes to the first output before the second, and each channel holds
    one message.  So the first output can be two messages ahead of the second,
    and the second one ahead of the first, but no more (`Accounted.lag`); and a
    reader that is as far ahead as it can be waits until the other one reads
    (`Accounted.starves_first`, `Accounted.starves_second`).  Nobody waits for
    ever for any other reason than that or the source
    (`Accounted.deadlock_free`). -/

namespace ContentVault

open ByteReader ReaderView Outlet

/-- Whether an action is one of the tee itself, not of those who hold its
    outputs. -/
def TeeAction.IsInternal (a : TeeAction) : Prop :=
  (∃ watchful, a = .produce watchful) ∨ (∃ side, a = .close side)

theorem TeeAction.IsInternal.ne_read {a : TeeAction} (h : a.IsInternal) (side : Side)
    (room : Nat) : a ≠ .read side room := by
  rintro rfl
  rcases h with ⟨watchful, ha⟩ | ⟨target, ha⟩ <;> cases ha

theorem TeeAction.IsInternal.ne_drop {a : TeeAction} (h : a.IsInternal) (side : Side) :
    a ≠ .drop side := by
  rintro rfl
  rcases h with ⟨watchful, ha⟩ | ⟨target, ha⟩ <;> cases ha

namespace Session

variable {σ : Type} [ByteReader σ] [ReaderView σ] {ready : σ → Bool} {d : Bytes} {e : Ending}
  {s : Session σ}

/-! ## How far apart -/

/-- The producer has put one message more into the first channel than into the
    second while it sends to the second, and else as many. -/
theorem Stands.length_sent {phase : TeePhase} (h : s.Stands ready d e phase)
    (held : ∀ side, (s.tee.output side).dropped = false) :
    ((∃ m, phase = .sending .second m) ∧
      (s.sent .first).length = (s.sent .second).length + 1) ∨
    ((∀ m, phase ≠ .sending .second m) ∧ (s.sent .first).length = (s.sent .second).length) := by
  have htold : ∀ {side : Side} {chunks : List Bytes} {x : IoError}, s.Told side chunks x →
      s.sent side = chunks.map .chunk ++ [.failure x] := by
    rintro side chunks x (hsent | ⟨hdropped, -⟩)
    · exact hsent
    · cases (held side).symm.trans hdropped
  cases h with
  | reading chunks quiet sent => exact Or.inr ⟨nofun, by rw [sent, sent]⟩
  | toFirst chunks m more quiet sent => exact Or.inr ⟨nofun, by rw [sent, sent]⟩
  | toSecond chunks m more quiet sent_first sent_second =>
      have hfirst : s.sent .first = chunks.map .chunk ++ [m] := by
        rcases sent_first with hsent | ⟨x, rfl, hsent⟩
        · exact hsent
        · exact htold hsent
      refine Or.inl ⟨⟨m, rfl⟩, ?_⟩
      rw [hfirst, sent_second, List.length_append, List.length_singleton]
  | finished chunks quiet sent => exact Or.inr ⟨nofun, by rw [sent, sent]⟩
  | crashed quiet sent => exact Or.inr ⟨nofun, by rw [sent, sent]⟩
  | failed chunks x quiet told => exact Or.inr ⟨nofun, by rw [htold (told _), htold (told _)]⟩
  | torn aborted some sent => cases (not_someDropped held).symm.trans some

omit [ByteReader σ] [ReaderView σ] in
theorem length_sent (s : Session σ) (side : Side) :
    (s.sent side).length = (s.reception side).taken + (s.tee.output side).queue.length := by
  rw [sent, List.length_append, Reception.taken]

/-- How many messages an output can be ahead of the other. -/
theorem Accounted.lag (h : s.Accounted ready d e)
    (held : ∀ side, (s.tee.output side).dropped = false) :
    (s.reception .first).taken ≤ (s.reception .second).taken + 2 ∧
      (s.reception .second).taken ≤ (s.reception .first).taken + 1 := by
  have hfirst := (h.books .first).short
  have hsecond := (h.books .second).short
  have hlength := h.stands.length_sent held
  rw [length_sent, length_sent] at hlength
  omega

/-! ## Waiting -/

/-- A read waits if there is nothing to read and nothing to be told. -/
theorem Accounted.waits_iff (h : s.Accounted ready d e) (side : Side) (room : Nat) :
    (s.read side room).1 = none ↔ (s.tee.output side).queue = [] ∧
      (s.tee.output side).reader = ⟨[], .active⟩ ∧ (s.reception side).closed = false := by
  constructor
  · have hcase := h.read_case side room
    generalize s.read side room = pair at hcase
    obtain ⟨result, s'⟩ := pair
    rintro ⟨⟩
    cases hcase with
    | waits hout hclosed =>
        rw [hout]
        exact ⟨rfl, rfl, hclosed⟩
  · rintro ⟨hqueue, hreader, hclosed⟩
    rw [Session.read, hqueue, hreader, hclosed]
    rfl

/-- A schedule in which only the producer and the sending ends act, both again
    and again. -/
structure Unattended (schedule : Nat → TeeAction) : Prop where
  alone : ∀ n, (schedule n).IsInternal
  produce : ∀ n, ∃ m, n ≤ m ∧ ∃ watchful, schedule m = .produce watchful
  close : ∀ side n, ∃ m, n ≤ m ∧ schedule m = .close side

theorem Unattended.free {schedule : Nat → TeeAction} (h : Unattended schedule) (n : Nat)
    (side : Side) : schedule n ≠ .drop side := (h.alone n).ne_drop side

omit [ReaderView σ] in
/-- What the tee does by itself leaves the readers and what was taken out of the
    channels as they are. -/
theorem left_alone_along (ready : σ → Bool) (s : Session σ) {schedule : Nat → TeeAction}
    (hun : Unattended schedule) (n : Nat) (side : Side) :
    ((s.along ready schedule n).tee.output side).reader = (s.tee.output side).reader ∧
      ((s.along ready schedule n).reception side).received = (s.reception side).received := by
  induction n with
  | zero => exact ⟨rfl, rfl⟩
  | succ n ih =>
      have hstep := unread_perform ready (s.along ready schedule n) ((hun.alone n).ne_read side)
      exact ⟨hstep.1.trans ih.1, hstep.2.trans ih.2⟩

/-- If a read waits for ever, then the producer comes to wait for room in a
    channel. -/
theorem Accounted.stuck_of_starved (h : s.Accounted (fun _ => true) d e)
    (held : ∀ side, (s.tee.output side).dropped = false) {schedule : Nat → TeeAction}
    (hun : Unattended schedule) {side : Side} {room : Nat}
    (hstarved : ∀ n, ((s.along (fun _ => true) schedule n).read side room).1 = none) :
    ∃ n target, (s.along (fun _ => true) schedule n).StuckAt target := by
  refine exists_of_lighter (S := s.along (fun _ => true) schedule) fun n => ?_
  have hopen := (((h.along schedule n).waits_iff side room).mp (hstarved n)).2.2
  rcases (h.along schedule n).lighter_or_stuck (held_along _ held hun.free n) hopen
    with hproduce | hclose | hstuck
  · obtain ⟨m, hm, watchful, hact⟩ := hun.produce n
    exact Or.inr (h.lighter_along held hun.free hm (hact ▸ hproduce watchful))
  · obtain ⟨m, hm, hact⟩ := hun.close side n
    exact Or.inr (h.lighter_along held hun.free hm (hact ▸ hclose))
  · exact Or.inl hstuck

/-- A reader without anything at hand that was not told that the stream is over
    goes on, or it has seen the end without having asked for a byte. -/
theorem Accounted.reader_of_open (h : s.Accounted ready d e) {side : Side}
    (hrest : (s.tee.output side).reader.pending = [])
    (hopen : ¬(s.reception side).IsOver) :
    (s.tee.output side).reader = ⟨[], .active⟩ ∨ (s.tee.output side).reader = ⟨[], .ended⟩ := by
  have hcourse := (h.books side).course
  obtain ⟨⟨pending, state⟩, hreader⟩ : ∃ r, (s.tee.output side).reader = r := ⟨_, rfl⟩
  rw [hreader] at hrest hcourse ⊢
  cases hrest
  cases state with
  | active => exact Or.inl rfl
  | ended => exact Or.inr rfl
  | failed =>
      refine absurd (Or.inr fun hnone => ?_) hopen
      rw [Reception.failure?] at hnone
      revert hnone
      generalize (s.reception side).reads = reads at hcourse
      cases hcourse with
      | failed flows | cut flows =>
          rw [Reception.failureOf_append, flows.failureOf_eq]
          intro hnone
          cases hnone

/-- When one output has seen the end, both were sent the whole source. -/
theorem Accounted.of_ended (h : s.Accounted ready d e)
    (held : ∀ side, (s.tee.output side).dropped = false) {side : Side}
    (hended : (s.tee.output side).reader = ⟨[], .ended⟩) :
    (s.sent .first).length = (s.sent .second).length ∧ (s.reception side).bytes = d ∧ e = none := by
  have hcourse := (h.books side).course
  have hover := (h.books side).halted
  rw [hended] at hcourse hover
  obtain ⟨hall, hclean⟩ : (s.reception side).bytes = d ∧ e = none := by
    rw [Reception.bytes]
    generalize (s.reception side).reads = reads at hcourse
    cases hcourse with
    | @complete before tail flows after all clean ended =>
        have hnone : Reception.bytesOf tail = [] :=
          Reception.bytesOf_of_empty fun r hr => by rw [after r hr]; rfl
        exact ⟨by rw [Reception.bytesOf_append, hnone, List.append_nil, all], clean⟩
  refine ⟨?_, hall, hclean⟩
  have hdone : s.tee.result?.isSome = true := by
    rcases hover (by decide) with hdone | ⟨x, hx⟩
    · exact hdone
    · obtain ⟨-, -, -, hbroken, -⟩ := h.stands.of_failure (List.mem_append_left _ hx)
      cases hclean.symm.trans hbroken
  rcases h.stands.length_sent held with ⟨⟨m, hphase⟩, -⟩ | ⟨-, hlength⟩
  · rw [Tee.result?, hphase] at hdone
    cases hdone
  · exact hlength

/-- A read on the first output, while the second is left alone, waits for ever
    exactly if the first is two messages ahead. -/
theorem Accounted.starves_first (h : s.Accounted (fun _ => true) d e)
    (held : ∀ side, (s.tee.output side).dropped = false) {schedule : Nat → TeeAction}
    (hun : Unattended schedule) (room : Nat)
    (hrest : (s.tee.output .first).reader.pending = [])
    (hopen : ¬(s.reception .first).IsOver) :
    (∀ n, ((s.along (fun _ => true) schedule n).read .first room).1 = none) ↔
      (s.reception .first).taken = (s.reception .second).taken + 2 := by
  have hlater := left_alone_along (fun _ => true) s hun
  have htaken : ∀ n side, ((s.along (fun _ => true) schedule n).reception side).taken
      = (s.reception side).taken := fun n side => congrArg List.length (hlater n side).2
  constructor
  · intro hstarved
    obtain ⟨n, target, ⟨m, hphase⟩, hqueue⟩ := h.stuck_of_starved held hun hstarved
    have hacc := h.along schedule n
    have hnone := ((hacc.waits_iff .first room).mp (hstarved n)).1
    have hsecond := (hacc.books .second).short
    have hlength := hacc.stands.length_sent (held_along _ held hun.free n)
    cases target with
    | first => exact absurd hnone hqueue
    | second =>
        have hpos := List.length_pos_iff.mpr hqueue
        rw [length_sent, length_sent, htaken, htaken, hnone] at hlength
        rcases hlength with ⟨-, hlength⟩ | ⟨hnot, -⟩
        · rw [List.length_nil] at hlength
          omega
        · exact absurd hphase (hnot m)
  · intro hahead n
    have hacc := h.along schedule n
    have hsecond := (hacc.books .second).short
    have hlength := hacc.stands.length_sent (held_along _ held hun.free n)
    rw [length_sent, length_sent, htaken, htaken] at hlength
    rcases h.reader_of_open hrest hopen with hactive | hended
    · rcases hlength with ⟨⟨m, hphase⟩, hlength⟩ | ⟨-, hlength⟩
      · refine (hacc.waits_iff .first room).mpr ⟨?_, (hlater n .first).1.trans hactive, ?_⟩
        · refine List.length_eq_zero_iff.mp ?_
          omega
        · refine Bool.eq_false_iff.mpr fun hclosed => ?_
          have hdone := (hacc.books .first).closed hclosed
          rw [Tee.result?, hphase] at hdone
          cases hdone
      · omega
    · -- the end is seen only when both outputs were sent everything
      have hended' := (hlater n .first).1.trans hended
      obtain ⟨hsame, -⟩ := hacc.of_ended (held_along _ held hun.free n) hended'
      rw [length_sent, length_sent, htaken, htaken] at hsame
      omega

/-- A producer that waits to put a message into the first channel has more to
    come than what the second output took, if nothing waits for that one. -/
theorem Accounted.more_to_come (h : s.Accounted ready d e) {m : Message}
    (hphase : s.tee.phase = .sending .first m) (hnone : (s.tee.output .second).queue = []) :
    chunkBytes (s.reception .second).received ≠ d ∨ e ≠ none := by
  have hstands := h.stands
  rw [hphase] at hstands
  cases hstands with
  | toFirst chunks _ more quiet sent total data promises =>
      have hreceived : (s.reception .second).received = chunks.map .chunk := by
        rw [← sent .second, Session.sent, hnone, List.append_nil]
      cases m with
      | failure x =>
          obtain ⟨-, hbroken, -⟩ := promises
          refine Or.inr fun hclean => ?_
          cases hclean.symm.trans hbroken
      | chunk bytes =>
          obtain ⟨hne, hmore, -⟩ := promises
          refine Or.inl fun hall => hne ?_
          rw [hreceived, chunkBytes_map] at hall
          rw [← hall, hmore] at data
          exact (List.append_eq_nil_iff.mp (List.self_eq_append_right.mp data)).1

/-- An output that took all there is in its closed channel took the whole
    source, as long as nothing is dropped. -/
theorem Accounted.all_of_closed (h : s.Accounted ready d e)
    (held : ∀ side, (s.tee.output side).dropped = false) {side : Side}
    (hclosed : (s.reception side).closed = true) (hnone : (s.tee.output side).queue = [])
    (hactive : (s.tee.output side).reader.state = .active) :
    chunkBytes (s.reception side).received = d ∧ e = none := by
  have hquiet : s.tee.aborted = false := by
    refine Bool.eq_false_iff.mpr fun haborted => ?_
    cases (not_someDropped held).symm.trans (h.stands.someDropped haborted)
  obtain ⟨hall, hclean, -⟩ :=
    h.all_of_done ((h.books side).closed hclosed) hquiet (held side) hnone hactive
  exact ⟨hall, hclean⟩

/-- A read on the second output, while the first is left alone, waits for ever
    exactly if the second is one message ahead and there is more to come. -/
theorem Accounted.starves_second (h : s.Accounted (fun _ => true) d e)
    (held : ∀ side, (s.tee.output side).dropped = false) {schedule : Nat → TeeAction}
    (hun : Unattended schedule) (room : Nat)
    (hrest : (s.tee.output .second).reader.pending = [])
    (hopen : ¬(s.reception .second).IsOver) :
    (∀ n, ((s.along (fun _ => true) schedule n).read .second room).1 = none) ↔
      (s.reception .second).taken = (s.reception .first).taken + 1 ∧
        ((s.reception .second).bytes ≠ d ∨ e ≠ none) := by
  have hlater := left_alone_along (fun _ => true) s hun
  have htaken : ∀ n side, ((s.along (fun _ => true) schedule n).reception side).taken
      = (s.reception side).taken := fun n side => congrArg List.length (hlater n side).2
  have hbytes : ∀ n, chunkBytes ((s.along (fun _ => true) schedule n).reception .second).received
      = (s.reception .second).bytes := by
    intro n
    have hgiven := (h.books .second).given
    rw [hrest, List.append_nil] at hgiven
    rw [(hlater n .second).2]
    exact hgiven.symm
  constructor
  · intro hstarved
    obtain ⟨n, target, ⟨m, hphase⟩, hqueue⟩ := h.stuck_of_starved held hun hstarved
    have hacc := h.along schedule n
    have hnone := ((hacc.waits_iff .second room).mp (hstarved n)).1
    have hfirst := (hacc.books .first).short
    have hlength := hacc.stands.length_sent (held_along _ held hun.free n)
    cases target with
    | second => exact absurd hnone hqueue
    | first =>
        have hpos := List.length_pos_iff.mpr hqueue
        have hmore := hacc.more_to_come hphase hnone
        rw [hbytes] at hmore
        refine ⟨?_, hmore⟩
        rw [length_sent, length_sent, htaken, htaken, hnone, hphase] at hlength
        rcases hlength with ⟨⟨m', hphase'⟩, -⟩ | ⟨-, hlength⟩
        · cases hphase'
        · rw [List.length_nil] at hlength
          omega
  · rintro ⟨hahead, hmore⟩ n
    have hacc := h.along schedule n
    have hheld := held_along (fun _ => true) held hun.free n
    have hfirst := (hacc.books .first).short
    have hlength := hacc.stands.length_sent hheld
    rw [length_sent, length_sent, htaken, htaken] at hlength
    have hnotAll : ¬((s.reception .second).bytes = d ∧ e = none) := fun hall =>
      hmore.elim (fun hbytes' => hbytes' hall.1) (fun hbroken => hbroken hall.2)
    rcases h.reader_of_open hrest hopen with hactive | hended
    · have hreader := (hlater n .second).1.trans hactive
      have hnone : ((s.along (fun _ => true) schedule n).tee.output .second).queue = [] := by
        refine List.length_eq_zero_iff.mp ?_
        omega
      refine (hacc.waits_iff .second room).mpr ⟨hnone, hreader, ?_⟩
      refine Bool.eq_false_iff.mpr fun hclosed => hnotAll ?_
      rw [← hbytes n]
      exact hacc.all_of_closed hheld hclosed hnone (by rw [hreader])
    · exact absurd (h.of_ended held hended).2 hnotAll

/-! ## No deadlock -/

omit [ReaderView σ] in
/-- A step of the producer changes what counts. -/
theorem core_ne_of_step {watchful : Bool} {u : Tee σ} (hawake : isStalled ready watchful s.tee = false)
    (hstep : s.tee.step watchful = some u) :
    (s.perform ready (.produce watchful)).core ≠ s.core := by
  rw [perform, produce, hawake, if_neg Bool.false_ne_true, hstep]
  intro hsame
  have htee : u = s.tee := congrArg Prod.fst hsame
  have hfewer := Tee.stepsLeft_step hstep
  rw [htee] at hfewer
  exact Nat.lt_irrefl _ hfewer

omit [ReaderView σ] in
/-- A producer that can make no step is done, or waits for room in a channel, or
    for the source; and it does not wait for the source when an output was
    dropped. -/
theorem idle_cases (hidle : (s.perform ready (.produce true)).core = s.core) :
    (∃ result, s.tee.phase = .exited result) ∨ (∃ target, s.StuckAt target) ∨
    (s.tee.phase = .reading ∧ s.tee.someDropped = false ∧ ready s.tee.source = false) := by
  cases hstalled : isStalled ready true s.tee with
  | false =>
      cases hstep : s.tee.step true with
      | some u => exact absurd hidle (core_ne_of_step hstalled hstep)
      | none =>
          rcases Tee.stuck_of_step_eq_none hstep with hdone | ⟨target, m, hphase, -, hqueue⟩
          · exact Or.inl hdone
          · exact Or.inr (Or.inl ⟨target, ⟨m, hphase⟩, hqueue⟩)
  | true =>
      rw [isStalled] at hstalled
      split at hstalled
      · rename_i hphase
        rw [Bool.true_and, Bool.and_eq_true_iff, Bool.not_eq_true', Bool.not_eq_true'] at hstalled
        exact Or.inr (Or.inr ⟨hphase, hstalled⟩)
      · cases hstalled

/-- If every output that was not dropped and is not over is waited for, then
    either everything is over, or the producer or a sending end can act, or the
    producer waits for the source. -/
theorem Accounted.deadlock_free (h : s.Accounted ready d e)
    (hwaiting : ∀ side, (s.tee.output side).dropped = true ∨ (s.reception side).IsOver ∨
      ∃ room, (s.read side room).1 = none) :
    (s.tee.result?.isSome = true ∧
      ∀ side, (s.tee.output side).dropped = true ∨ (s.reception side).IsOver) ∨
    (∃ a, TeeAction.IsInternal a ∧ (s.perform ready a).core ≠ s.core) ∨
    (s.tee.phase = .reading ∧ s.tee.someDropped = false ∧ ready s.tee.source = false) := by
  by_cases hactive : ∃ a, TeeAction.IsInternal a ∧ (s.perform ready a).core ≠ s.core
  · exact Or.inr (Or.inl hactive)
  have hidle : ∀ a, TeeAction.IsInternal a → (s.perform ready a).core = s.core :=
    fun a ha => Classical.byContradiction fun hne => hactive ⟨a, ha, hne⟩
  rcases idle_cases (hidle _ (Or.inl ⟨true, rfl⟩)) with ⟨result, hphase⟩
    | ⟨target, ⟨m, hphase⟩, hqueue⟩ | hsource
  · have hdone : s.tee.result?.isSome = true := by
      rw [Tee.result?, hphase]
      rfl
    refine Or.inl ⟨hdone, fun side => ?_⟩
    rcases hwaiting side with hdropped | hover | ⟨room, hwaits⟩
    · exact Or.inl hdropped
    · exact Or.inr hover
    · -- the sending end of its channel could go away
      have hopen := ((h.waits_iff side room).mp hwaits).2.2
      have hsame := hidle (.close side) (Or.inr ⟨side, rfl⟩)
      rw [perform, close, if_pos hdone, core_update] at hsame
      have hclosed : Function.update s.core.2 side true side = (s.reception side).closed :=
        congrFun (congrArg Prod.snd hsame) side
      rw [Function.update_self] at hclosed
      cases hclosed.trans hopen
  · have hrunning : s.tee.result? = none := by rw [Tee.result?, hphase]
    rcases hwaiting target with hdropped | hover | ⟨room, hwaits⟩
    · -- the producer gives up or skips the output
      obtain ⟨u, hstep⟩ : ∃ u, s.tee.step true = some u := by
        rw [Tee.step, hphase]
        show ∃ u, s.tee.send target m = some u
        rw [Tee.send.eq_def, if_pos hdropped]
        cases m with
        | chunk bytes => exact ⟨_, rfl⟩
        | failure x => exact ⟨_, rfl⟩
      have hawake : isStalled ready true s.tee = false := by rw [isStalled, hphase]
      exact absurd (hidle _ (Or.inl ⟨true, rfl⟩)) (core_ne_of_step hawake hstep)
    · have hcourse := (h.books target).course
      rw [h.active_of_queue hqueue hrunning] at hcourse
      exact absurd hover hcourse.flows.not_isOver
    · exact absurd ((h.waits_iff target room).mp hwaits).1 hqueue
  · exact Or.inr (Or.inr hsource)

/-! ## The tee as a whole -/

/-- For every source and buffer:

    * As long as no output is dropped, the first output is at most two messages
      ahead, and the second at most one; and an output holds two chunks at most,
      the rest of the one it took last and the one in its channel.
    * Over a source that never stalls, a read that finds nothing at hand waits
      for ever, while the other output is left alone, exactly if its output is as
      far ahead as it can be and, on the second output, there is more to come.
    * Whatever is dropped, if every output that was not dropped and is not over is
      waited for, then everything is over, or the producer or a sending end can
      act, or the producer waits for the source. -/
theorem backpressure_bounded (source : σ) (buffer : Nat) :
    (∀ (ready : σ → Bool) (actions : List TeeAction), (∀ side, .drop side ∉ actions) →
      let s := (start source buffer).after ready actions
      (-1 ≤ ((s.reception .first).taken : Int) - (s.reception .second).taken ∧
        ((s.reception .first).taken : Int) - (s.reception .second).taken ≤ 2) ∧
      ∀ side, (s.tee.output side).queue.length ≤ 1 ∧
        ((s.tee.output side).reader.pending ≠ [] → ∃ earlier chunk,
          (s.reception side).received = earlier ++ [.chunk chunk] ∧
            (s.tee.output side).reader.pending <:+ chunk)) ∧
    (∀ (actions : List TeeAction) (schedule : Nat → TeeAction) (room : Nat),
      (∀ side, .drop side ∉ actions) → Unattended schedule →
      let s := (start source buffer).after (fun _ => true) actions
      let waitsForEver := fun side =>
        ∀ n, ((s.along (fun _ => true) schedule n).read side room).1 = none
      ((s.tee.output .first).reader.pending = [] → ¬(s.reception .first).IsOver →
        (waitsForEver .first ↔ (s.reception .first).taken = (s.reception .second).taken + 2)) ∧
      ((s.tee.output .second).reader.pending = [] → ¬(s.reception .second).IsOver →
        (waitsForEver .second ↔ (s.reception .second).taken = (s.reception .first).taken + 1 ∧
          ((s.reception .second).bytes ≠ content source ∨ ending source ≠ none)))) ∧
    (∀ (ready : σ → Bool) (actions : List TeeAction),
      let s := (start source buffer).after ready actions
      (∀ side, (s.tee.output side).dropped = true ∨ (s.reception side).IsOver ∨
        ∃ room, (s.read side room).1 = none) →
      (s.tee.result?.isSome = true ∧
        ∀ side, (s.tee.output side).dropped = true ∨ (s.reception side).IsOver) ∨
      (∃ a, TeeAction.IsInternal a ∧ (s.perform ready a).core ≠ s.core) ∨
      (s.tee.phase = .reading ∧ s.tee.someDropped = false ∧ ready s.tee.source = false)) := by
  refine ⟨fun ready actions hfree => ?_, fun actions schedule room hfree hun => ?_,
    fun ready actions => ?_⟩
  · intro s
    have h : s.Accounted ready (passed source buffer) (passedEnd source buffer) :=
      accounted_after ready source buffer actions
    have hlag := h.lag fun side => held_after ready source buffer (hfree side)
    exact ⟨by omega, fun side => ⟨(h.books side).short, (h.books side).rest⟩⟩
  · intro s waitsForEver
    have h : s.Accounted (fun _ => true) (passed source buffer) (passedEnd source buffer) :=
      accounted_after _ source buffer actions
    have held : ∀ side, (s.tee.output side).dropped = false :=
      fun side => held_after _ source buffer (hfree side)
    refine ⟨h.starves_first held hun room, fun hrest hopen => ?_⟩
    refine (h.starves_second held hun room hrest hopen).trans (and_congr_right fun hahead => ?_)
    by_cases hbuffer : Tee.Bufferable buffer
    · rw [passed, passedEnd, if_pos hbuffer, if_pos hbuffer]
    · -- without a buffer nothing is taken, so nobody is ahead
      have hnone := h.unsent_of_crashed (crashed_after _ source hbuffer actions) .second
      have hlength := congrArg List.length hnone
      rw [length_sent, List.length_nil] at hlength
      omega
  · exact (accounted_after ready source buffer actions).deadlock_free

/-- The schedule in which the producer and the sending ends act in turn. -/
def untended : Nat → TeeAction := repeating (.produce true) [.close .first, .close .second]

theorem untended_unattended : Unattended untended := by
  have again : ∀ a ∈ [TeeAction.produce true, .close .first, .close .second],
      ∀ n, ∃ m, n ≤ m ∧ untended m = a := fun a ha => repeating_again ha
  constructor
  case alone =>
    intro n
    have hmem : untended n ∈ [TeeAction.produce true, .close .first, .close .second] :=
      repeating_mem ..
    simp only [List.mem_cons, List.not_mem_nil, or_false] at hmem
    rcases hmem with hact | hact | hact
    · exact Or.inl ⟨true, hact⟩
    · exact Or.inr ⟨.first, hact⟩
    · exact Or.inr ⟨.second, hact⟩
  case produce =>
    intro n
    obtain ⟨m, hm, hact⟩ := again (.produce true) (by decide) n
    exact ⟨m, hm, true, hact⟩
  case close => exact fun side => again (.close side) (by cases side <;> decide)

/-- Two chunks are read from the first output, and none from the second. -/
def twoAhead : Session Source :=
  (start { data := [1, 2], sizes := [1] } 8).after (fun _ => true)
    [.produce true, .produce true, .produce true, .read .first 4, .produce true, .produce true,
      .read .first 4]

theorem backpressure_of_two_ahead :
    ((twoAhead.reception .first).taken = (twoAhead.reception .second).taken + 2 ∧
      ∀ n, ((twoAhead.along (fun _ => true) untended n).read .first 4).1 = none) ∧
    (∃ a, TeeAction.IsInternal a ∧ ((start ({ data := [1] } : Source) 8).perform (fun _ => true)
      a).core ≠ (start { data := [1] } 8).core) := by
  have htaken : (twoAhead.reception .first).taken = (twoAhead.reception .second).taken + 2 := rfl
  have hrest : (twoAhead.tee.output .first).reader.pending = [] := rfl
  have hreads : (twoAhead.reception .first).reads = [(4, .ok [1]), (4, .ok [2])] := rfl
  have hopen : ¬(twoAhead.reception .first).IsOver := by
    refine Reception.Flows.not_isOver fun r hr => ?_
    rw [hreads, List.mem_cons, List.mem_singleton] at hr
    rcases hr with rfl | rfl
    · exact ⟨[1], rfl, fun _ => by decide⟩
    · exact ⟨[2], rfl, fun _ => by decide⟩
  refine ⟨⟨htaken, ?_⟩, ?_⟩
  · exact (((backpressure_bounded ({ data := [1, 2], sizes := [1] } : Source) 8).2.1 _ untended 4
      (fun side => by cases side <;> decide) untended_unattended).1 hrest hopen).mpr htaken
  · rcases (backpressure_bounded ({ data := [1] } : Source) 8).2.2 (fun _ => true) []
      (fun side => Or.inr (Or.inr ⟨4, by cases side <;> rfl⟩)) with ⟨hdone, -⟩ | hactive | ⟨-, -, hstall⟩
    · cases hdone
    · exact hactive
    · cases hstall

end Session

end ContentVault
