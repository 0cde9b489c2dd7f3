import ContentVault.Proofs.Stream.Books

/-! # Dropping an output of a tee

    The holder of an output may drop it at any moment.  The producer then gives
    up, at once or after some more chunks, and the stream at the other output
    may stop short.  It does not look complete: a reader sees the end only if it
    was given the whole source, and a reader that sees a failure was either
    given the whole source as well, and told how that failed, or it is told
    that its sibling is gone.

    A producer that crashes raises no alarm, though.  Its channels close like
    those of one that is done, and a reader takes that for the end. -/

namespace ContentVault

open ByteReader ReaderView Outlet

namespace Session

variable {σ : Type} [ByteReader σ] [ReaderView σ] {ready : σ → Bool} {d : Bytes} {e : Ending}
  {s : Session σ}

/-- A producer that succeeds has come to the end of the source, and has put all
    of it into both channels. -/
theorem Accounted.of_result (h : s.Accounted ready d e) {n : Nat}
    (hresult : s.tee.result? = some (.ok n)) :
    e = none ∧ CanEnd ready ∧ n = d.length ∧
      ∃ chunks : List Bytes, chunks.flatten = d ∧ ∀ side, s.sent side = chunks.map .chunk := by
  have hstands := h.stands
  rw [Tee.phase_of_result? hresult] at hstands
  cases hstands with
  | finished chunks quiet sent data clean ended =>
      exact ⟨clean, ended, rfl, chunks, data.symm, sent⟩

/-- What an output that saw the end was given: all of a source that ended
    cleanly, or nothing, because the producer had no buffer. -/
theorem complete_or_unbuffered (ready : σ → Bool) (source : σ) (buffer : Nat)
    (actions : List TeeAction) (side : Side) :
    let s := (start source buffer).after ready actions
    (s.reception side).SawEnd →
      (Tee.Bufferable buffer ∧ (s.reception side).bytes = content source ∧
        ending source = none ∧ CanEnd ready) ∨
      (¬Tee.Bufferable buffer ∧ (s.reception side).bytes = []) := by
  rintro s ⟨room, hroom, hend⟩
  have h : s.Accounted ready (passed source buffer) (passedEnd source buffer) :=
    accounted_after ready source buffer actions
  obtain ⟨hbytes, hclean, hfinish⟩ := (h.books side).course.of_end hroom hend
  by_cases hbuffer : Tee.Bufferable buffer
  · rw [passed, if_pos hbuffer] at hbytes
    rw [passedEnd, if_pos hbuffer] at hclean
    refine Or.inl ⟨hbuffer, hbytes, hclean, hfinish.resolve_right ?_⟩
    exact not_not.mpr ((bufferable_after ready source buffer actions).mpr hbuffer)
  · rw [passed, if_neg hbuffer] at hbytes
    exact Or.inr ⟨hbuffer, hbytes⟩

/-- What an output that saw a failure was given and told: all of a source, and
    how that failed, or that its sibling is gone. -/
theorem broken_or_torn (ready : σ → Bool) (source : σ) (buffer : Nat) (actions : List TeeAction)
    (side : Side) :
    let s := (start source buffer).after ready actions
    ∀ x, (s.reception side).failure? = some x →
      ((s.reception side).bytes = content source ∧ ending source = some x ∧ CanEnd ready) ∨
      (x = .fault .siblingClosed ∧ (s.tee.output side.other).dropped = true) := by
  intro s x hx
  have h : s.Accounted ready (passed source buffer) (passedEnd source buffer) :=
    accounted_after ready source buffer actions
  refine ((h.books side).course.of_failure hx).imp_left fun ⟨hbytes, hbroken, hfinish⟩ => ?_
  by_cases hbuffer : Tee.Bufferable buffer
  · rw [passed, if_pos hbuffer] at hbytes
    rw [passedEnd, if_pos hbuffer] at hbroken
    refine ⟨hbytes, hbroken, hfinish.resolve_right ?_⟩
    exact not_not.mpr ((bufferable_after ready source buffer actions).mpr hbuffer)
  · rw [passedEnd, if_neg hbuffer] at hbroken
    cases hbroken

/-- Whatever the producer, the readers and those who drop outputs do, and in
    whatever order: what an output has delivered is the beginning of the source;
    it reports the end only after all of a source that ended cleanly, or after
    nothing, if the producer could not have its buffer; and the failure that it
    reports is the one of the source, after all of its bytes, or the one of a
    dropped sibling.  The producer succeeds only if it had its buffer, the source
    ended cleanly and all of it was put into both channels.  And whatever the
    source, without a buffer both outputs may well see the end, though nothing
    was dropped and nothing delivered.

    A source that never ends is one that is not `ready` when it has no more
    bytes. -/
theorem torn_never_complete_if_buffered (ready : σ → Bool) (source : σ) (buffer : Nat) :
    (∀ actions : List TeeAction,
      let s := (start source buffer).after ready actions
      (∀ side,
        (s.reception side).bytes <+: content source ∧
        ((s.reception side).SawEnd →
          (Tee.Bufferable buffer ∧ (s.reception side).bytes = content source ∧
            ending source = none ∧ CanEnd ready) ∨
          (¬Tee.Bufferable buffer ∧ (s.reception side).bytes = [])) ∧
        (∀ x, (s.reception side).failure? = some x →
          ((s.reception side).bytes = content source ∧ ending source = some x ∧ CanEnd ready) ∨
          (x = .fault .siblingClosed ∧ (s.tee.output side.other).dropped = true))) ∧
      (∀ n, s.tee.result? = some (.ok n) →
        Tee.Bufferable buffer ∧ ending source = none ∧ CanEnd ready ∧
          n = (content source).length ∧
          ∃ chunks : List Bytes, chunks.flatten = content source ∧
            ∀ side, s.sent side = chunks.map .chunk)) ∧
    (¬Tee.Bufferable buffer → ∃ actions : List TeeAction, (∀ side, .drop side ∉ actions) ∧
      ∀ side, (((start source buffer).after ready actions).reception side).SawEnd ∧
        (((start source buffer).after ready actions).reception side).bytes = []) := by
  refine ⟨fun actions => ?_, fun hbuffer => ?_⟩
  · intro s
    have h : s.Accounted ready (passed source buffer) (passedEnd source buffer) :=
      accounted_after ready source buffer actions
    have hpassed : passed source buffer <+: content source := by
      rw [passed]
      split
      · exact List.prefix_refl _
      · exact List.nil_prefix
    refine ⟨fun side => ⟨(h.prefix_bytes side).trans hpassed,
      complete_or_unbuffered ready source buffer actions side,
      broken_or_torn ready source buffer actions side⟩, fun n hn => ?_⟩
    by_cases hbuffer : Tee.Bufferable buffer
    · rw [passed, passedEnd, if_pos hbuffer, if_pos hbuffer] at h
      exact ⟨hbuffer, h.of_result hn⟩
    · have hphase := (Tee.phase_of_result? hn).symm.trans
        (crashed_after ready source hbuffer actions)
      cases hphase
  · -- the channels close, and whoever reads finds them so
    refine ⟨[.close .first, .close .second, .read .first 1, .read .second 1],
      fun side => by cases side <;> decide, fun side => ?_⟩
    have hreads : (((start source buffer).after ready [.close .first, .close .second,
        .read .first 1, .read .second 1]).reception side).reads = [(1, .ok [])] := by
      rw [start, Tee.ofSource, if_neg hbuffer]
      cases side <;> rfl
    refine ⟨⟨1, by decide, ?_⟩, ?_⟩
    · rw [hreads]
      exact List.mem_singleton_self _
    · rw [Reception.bytes, hreads]
      rfl

/-- The first output gets one of two bytes before the second is dropped. -/
def tornAfterOne : Session Source :=
  (start { data := [1, 2], sizes := [1] } 8).after (fun _ => true)
    [.produce true, .produce true, .read .first 4, .drop .second, .produce true, .close .first,
      .read .first 4]

/-- The first output gets a byte and then sees the end. -/
def completeWithOne : Session Source :=
  (start { data := [1] } 8).after (fun _ => true)
    [.produce true, .produce true, .produce true, .read .first 4, .produce true, .close .first,
      .read .first 4]

theorem torn_after_one_complete_with_one :
    ((tornAfterOne.reception .first).failure? = some (.fault .siblingClosed) ∧
      (tornAfterOne.tee.output .second).dropped = true) ∧
    ((completeWithOne.reception .first).SawEnd ∧
      (completeWithOne.reception .first).bytes = [1]) ∧
    (completeWithOne.tee.result? = some (.ok 1) ∧ ∃ chunks : List Bytes, chunks.flatten = [1] ∧
      ∀ side, completeWithOne.sent side = chunks.map .chunk) ∧
    ∃ actions : List TeeAction, (∀ side, .drop side ∉ actions) ∧
      ∀ side, (((start { data := [1] : Source } 18446744073709551615).after (fun _ => true)
          actions).reception side).SawEnd ∧
        (((start { data := [1] : Source } 18446744073709551615).after (fun _ => true)
          actions).reception side).bytes = [] := by
  have hfailure : (tornAfterOne.reception .first).failure? = some (.fault .siblingClosed) :=
    rfl
  have hreads : (completeWithOne.reception .first).reads = [(4, .ok [1]), (4, .ok [])] := rfl
  have hend : (completeWithOne.reception .first).SawEnd := ⟨4, by decide, by simp [hreads]⟩
  have hresult : completeWithOne.tee.result? = some (.ok 1) := rfl
  obtain ⟨htorn, -⟩ := (torn_never_complete_if_buffered (fun _ => true)
    ({ data := [1, 2], sizes := [1] } : Source) 8).1 _
  obtain ⟨hfull, hdone⟩ :=
    (torn_never_complete_if_buffered (fun _ => true) ({ data := [1] } : Source) 8).1 _
  have hnothing := (torn_never_complete_if_buffered (fun _ => true) ({ data := [1] } : Source)
    18446744073709551615).2 (by decide)
  refine ⟨⟨hfailure, ?_⟩, ⟨hend, ?_⟩, ⟨hresult, ?_⟩, hnothing⟩
  · rcases (htorn .first).2.2 _ hfailure with ⟨-, hbroken, -⟩ | ⟨-, hdropped⟩
    · cases hbroken
    · exact hdropped
  · rcases (hfull .first).2.1 hend with ⟨-, hbytes, -⟩ | ⟨hbuffer, -⟩
    · exact hbytes
    · exact absurd (by decide) hbuffer
  · exact (hdone 1 hresult).2.2.2.2

end Session

end ContentVault
