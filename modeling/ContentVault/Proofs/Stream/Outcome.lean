import ContentVault.Proofs.Stream.Progress

/-! # What a tee delivers

    Who acts when makes no difference to what comes out of a tee whose outputs
    are both read until the stream is over.  Each of them has delivered the
    bytes of the source, no more and no less and in their order, and reports how
    the source ended; and the producer has the same to say
    (`outcome_of_any_order`). -/

namespace ContentVault

open ByteReader ReaderView Outlet

namespace Reception

/-- What reads come to that are made when there are no more bytes: they find
    the end, every time; or the first is told of the failure, and the others
    that there was one. -/
def Ends : Ending → List (Nat × ReadResult) → Prop
  | none, reads => reads ≠ [] ∧ ∀ r ∈ reads, r.2 = .ok []
  | some x, reads => ∃ room more, reads = (room, .error x) :: more ∧
      ∀ r ∈ more, r.2 = .error .alreadyFailed

/-- Whether an output gave `d`, as bytes whenever it was asked for some, and
    then nothing but how the source ended. -/
def Delivered (r : Reception) (d : Bytes) (e : Ending) : Prop :=
  ∃ before later, r.reads = before ++ later ∧ Flows before ∧ bytesOf before = d ∧ Ends e later

/-- An output that is over and was not cut short has delivered the source. -/
theorem Course.delivered {d : Bytes} {e : Ending} {ends torn : Prop} {state : OutletState}
    {r : Reception} (h : Course d e ends torn state r.reads) (hover : r.IsOver) (hwhole : ¬torn) :
    r.Delivered d e ∧ state ≠ .active := by
  have hnot : ∀ {reads : List (Nat × ReadResult)}, r.reads = reads → ¬Flows reads :=
    fun hreads flows => Flows.not_isOver (hreads ▸ flows) hover
  obtain ⟨reads, hreads⟩ : ∃ reads, r.reads = reads := ⟨_, rfl⟩
  rw [hreads] at h
  cases h with
  | going flows => exact absurd flows (hnot hreads)
  | @complete before later flows after all clean ended =>
      refine ⟨⟨before, later, hreads, flows, all, ?_⟩, nofun⟩
      rw [clean]
      refine ⟨fun hnil => hnot hreads ?_, after⟩
      rw [hnil, List.append_nil]
      exact flows
  | @failed before more room x flows after all broken ended =>
      refine ⟨⟨before, _, hreads, flows, all, ?_⟩, nofun⟩
      rw [broken]
      exact ⟨room, more, rfl, after⟩
  | cut flows after short => exact absurd short hwhole

end Reception

namespace Tee

/-- What waiting for the producer gives: how many bytes it passed on, or why it
    failed. -/
def join? {σ : Type} (t : Tee σ) : Option (Attempt Nat) :=
  t.result?.map (Except.mapError VaultFailure.ofProducer)

end Tee

namespace Session

variable {σ : Type} [ByteReader σ] [ReaderView σ] {ready : σ → Bool} {d : Bytes} {e : Ending}
  {s : Session σ}

/-- The producer is done, with a result that says how the source ended, when it
    has put a failure into the second channel. -/
theorem Stands.result {phase : TeePhase} (h : s.Stands ready d e phase)
    (hbuffer : Tee.Bufferable s.tee.buffer) (hwhole : s.tee.someDropped = false)
    (hdone : (∃ result, phase = .exited result) ∨ ∃ x, Message.failure x ∈ s.sent .second) :
    phase = .exited (Tee.resultOf d.length e) := by
  have hnot : ∀ {target : TeePhase} {chunks : List Bytes}, (∀ result, target ≠ .exited result) →
      s.sent .second = chunks.map .chunk →
      ¬((∃ result, target = .exited result) ∨ ∃ x, Message.failure x ∈ s.sent .second) := by
    rintro target chunks hrunning hsent (⟨result, hphase⟩ | ⟨x, hx⟩)
    · exact hrunning result hphase
    · exact failure_not_mem_map chunks x (hsent ▸ hx)
  cases h with
  | reading chunks quiet sent => exact absurd hdone (hnot nofun (sent .second))
  | toFirst chunks m more quiet sent => exact absurd hdone (hnot nofun (sent .second))
  | toSecond chunks m more quiet sent_first sent_second =>
      exact absurd hdone (hnot nofun sent_second)
  | finished chunks quiet sent data clean ended => rw [clean, Tee.resultOf]
  | failed chunks x quiet told data broken ended => rw [broken, Tee.resultOf]
  | crashed quiet sent data clean unbuffered => exact absurd hbuffer unbuffered
  | torn aborted some sent => cases hwhole.symm.trans some

/-- The result of the producer when the second output is over. -/
theorem Accounted.result_of_over (h : s.Accounted ready d e)
    (hbuffer : Tee.Bufferable s.tee.buffer) (held : ∀ side, (s.tee.output side).dropped = false)
    (hover : (s.tee.output .second).reader.state ≠ .active) :
    s.tee.result? = some (Tee.resultOf d.length e) := by
  have hphase : s.tee.phase = .exited (Tee.resultOf d.length e) := by
    refine h.stands.result hbuffer (not_someDropped held) ?_
    rcases (h.books .second).halted hover with hdone | ⟨x, hx⟩
    · obtain ⟨result, hresult⟩ := Option.isSome_iff_exists.mp hdone
      exact Or.inl ⟨result, Tee.phase_of_result? hresult⟩
    · exact Or.inr ⟨x, List.mem_append_left _ hx⟩
  rw [Tee.result?, hphase]

/-- For every source and buffer, as long as no output is dropped:

    * When both holders know that the stream is over, whoever acted when, and if
      the producer could have its buffer, each output has delivered the source
      and how it ended; and the producer's result is the number of bytes, or what
      the source's failure counts as, which is what the failure that an output
      reported counts as.
    * If the producer could not, each output has delivered nothing, as if that
      were the whole stream, and only the producer's result tells that something
      went wrong.
    * If the source does not stall, the holders come to know it under every
      fair schedule. -/
theorem outcome_of_any_order (source : σ) (buffer : Nat) :
    (∀ (ready : σ → Bool) (actions : List TeeAction), (∀ side, .drop side ∉ actions) →
      let s := (start source buffer).after ready actions
      (∀ side, (s.reception side).IsOver) →
        (Tee.Bufferable buffer →
          (∀ side, (s.reception side).Delivered (content source) (ending source)) ∧
          (ending source = none → s.tee.join? = some (.ok (content source).length)) ∧
          (∀ x, ending source = some x → s.tee.join? = some (.error (.ofIo x))) ∧
          ∀ side x, (s.reception side).failure? = some x →
            s.tee.join? = some (.error (.ofIo x))) ∧
        (¬Tee.Bufferable buffer →
          (∀ side, (s.reception side).Delivered [] none) ∧
          s.tee.join?
            = some (.error (.internal "Background task failed: capacity overflow")))) ∧
    (∀ schedule, Fair schedule → (∀ n side, schedule n ≠ .drop side) →
      ∃ n, ∀ side,
        (((start source buffer).after (fun _ => true)
          ((List.range n).map schedule)).reception side).IsOver) := by
  refine ⟨fun ready actions hfree => ?_, fun schedule hfair hfree => ?_⟩
  · intro s hover
    have h : s.Accounted ready (passed source buffer) (passedEnd source buffer) :=
      accounted_after ready source buffer actions
    have held : ∀ side, (s.tee.output side).dropped = false :=
      fun side => held_after ready source buffer (hfree side)
    have hdelivered := fun side =>
      (h.books side).course.delivered (hover side) (Bool.eq_false_iff.mp (held side.other))
    by_cases hbuffer : Tee.Bufferable buffer
    case neg =>
      refine ⟨fun hfits => absurd hfits hbuffer, fun _ => ⟨fun side => ?_, ?_⟩⟩
      · have hside := (hdelivered side).1
        rwa [passed, passedEnd, if_neg hbuffer, if_neg hbuffer] at hside
      · rw [Tee.join?, Tee.result?, crashed_after ready source hbuffer actions]
        rfl
    have hresult := h.result_of_over ((bufferable_after ..).mpr hbuffer) held (hdelivered .second).2
    simp only [passed, passedEnd, if_pos hbuffer] at h hdelivered hresult
    refine ⟨fun _ => ?_, fun hnone => absurd hbuffer hnone⟩
    have hjoin : ∀ x, ending source = some x → s.tee.join? = some (.error (.ofIo x)) := by
      intro x hx
      rw [Tee.join?, hresult, hx]
      rfl
    refine ⟨fun side => (hdelivered side).1, fun hclean => ?_, hjoin, fun side x hx => ?_⟩
    · rw [Tee.join?, hresult, hclean]
      rfl
    · rcases (h.books side).course.of_failure hx with ⟨-, hbroken, -⟩ | ⟨-, hdropped⟩
      · exact hjoin x hbroken
      · cases (held side.other).symm.trans hdropped
  · obtain ⟨n, hn⟩ := hfair.isOver hfree (accounted_start _ source buffer)
      fun side => by cases side <;> rfl
    rw [along_eq_after] at hn
    exact ⟨n, hn⟩

/-- The schedule in which everyone acts in turn. -/
def inTurn : Nat → TeeAction :=
  repeating (.produce true) [.close .first, .close .second, .read .first 4, .read .second 4]

theorem inTurn_fair : Fair inTurn := by
  have again : ∀ a ∈ [TeeAction.produce true, .close .first, .close .second, .read .first 4,
      .read .second 4], ∀ n, ∃ m, n ≤ m ∧ inTurn m = a := fun a ha => repeating_again ha
  constructor
  case produce =>
    intro n
    obtain ⟨m, hm, hact⟩ := again (.produce true) (by decide) n
    exact ⟨m, hm, true, hact⟩
  case close => exact fun side => again (.close side) (by cases side <;> decide)
  case read =>
    intro side n
    obtain ⟨m, hm, hact⟩ := again (.read side 4) (by cases side <;> decide) n
    exact ⟨m, hm, 4, nofun, hact⟩

theorem inTurn_free (n : Nat) (side : Side) : inTurn n ≠ .drop side := by
  have hmem : inTurn n ∈ [TeeAction.produce true, .close .first, .close .second, .read .first 4,
      .read .second 4] := repeating_mem ..
  intro hdrop
  rw [hdrop] at hmem
  cases side <;> revert hmem <;> decide

/-- A byte and then a failure, read to the end on both sides. -/
def failedAfterOne : Session Source :=
  (start { data := [1], failure := some (.fault (.integrity "bad tag")) } 0).after (fun _ => true)
    [.produce true, .produce true, .read .first 4, .produce false, .read .second 1, .produce true,
      .produce true, .read .first 2, .produce true, .read .second 3]

/-- A byte that is not passed on, because there is no room for the buffer. -/
def unbuffered : Session Source :=
  (start { data := [1] } 18446744073709551615).after (fun _ => true)
    [.produce true, .read .first 4, .close .first, .close .second, .read .first 4, .read .second 4]

theorem outcome_of_failure_after_one :
    ((∀ side, (failedAfterOne.reception side).IsOver) ∧
      (∀ side, (failedAfterOne.reception side).Delivered [1]
        (some (.fault (.integrity "bad tag")))) ∧
      failedAfterOne.tee.join? = some (.error (.integrity "bad tag"))) ∧
    ((∀ side, (unbuffered.reception side).IsOver) ∧
      (∀ side, (unbuffered.reception side).Delivered [] none) ∧
      unbuffered.tee.join?
        = some (.error (.internal "Background task failed: capacity overflow"))) ∧
    (Fair inTurn ∧ (∀ n side, inTurn n ≠ .drop side) ∧ ∃ n, ∀ side,
      (((start { data := [1] : Source } 0).after (fun _ => true)
        ((List.range n).map inTurn)).reception side).IsOver) := by
  have hfirst : (failedAfterOne.reception .first).failure?
      = some (.fault (.integrity "bad tag")) := rfl
  have hsecond : (failedAfterOne.reception .second).failure?
      = some (.fault (.integrity "bad tag")) := rfl
  have hover : ∀ side, (failedAfterOne.reception side).IsOver := by
    intro side
    refine Or.inr ?_
    cases side with
    | first => rw [hfirst]; decide
    | second => rw [hsecond]; decide
  obtain ⟨hdelivered, -, hjoin, -⟩ := ((outcome_of_any_order
    ({ data := [1], failure := some (.fault (.integrity "bad tag")) } : Source) 0).1
    (fun _ => true) _ (fun side => by cases side <;> decide) hover).1 (by decide)
  have hreads : ∀ side, (unbuffered.reception side).reads = [(4, .ok [])] :=
    fun side => by cases side <;> rfl
  have hends : ∀ side, (unbuffered.reception side).IsOver :=
    fun side => Or.inl ⟨4, by decide, by rw [hreads]; exact List.mem_singleton_self _⟩
  obtain ⟨hnothing, hcrashed⟩ := ((outcome_of_any_order ({ data := [1] } : Source)
    18446744073709551615).1 (fun _ => true) _ (fun side => by cases side <;> decide) hends).2
    (by decide)
  refine ⟨⟨hover, hdelivered, hjoin _ rfl⟩, ⟨hends, hnothing, hcrashed⟩, inTurn_fair,
    inTurn_free, ?_⟩
  exact (outcome_of_any_order ({ data := [1] } : Source) 0).2 inTurn inTurn_fair inTurn_free

end Session

end ContentVault
