import ContentVault.Proofs.Configuration.Validation
import ContentVault.Proofs.Jobs.Collecting
import ContentVault.Proofs.Repeats.Refusals

/-! # Spans of time that lead beyond the clocks

    A window ends a span after now, and a blob is too young for a sweep if it is
    from after a span before now.  There need not be such a place in time, and the
    settings allow for every span: only a window of no length is refused.  A call
    that finds no such place is cut short.

    Of a guard, the call that is cut short holds the lock, so there is no more than
    one of them (`poisoned_after_iff`), and all calls after it are refused.  Of the
    sweeps, any number can be cut short, each before it has touched anything
    (`run_orphans_cutShort_iff`).

    Main statement: `cut_short_beyond_the_clocks`. -/

namespace ContentVault

/-! ## Windows -/

/-- How long an id is suppressed after it was let through. -/
def Configuration.window (c : Configuration) : Nat := Instant.seconds c.dedupThresholdSecs.toNat

/-! ## Grace periods -/

namespace Caretaker

/-- All that the cutoff can come to. -/
theorem cutoff_cases (k : Caretaker) (time : Timestamp) :
    (longestGrace < k.rules.orphanGraceSecs.toNat ∧
      ∃ text, k.cutoff time = .error (.failed (.config text))) ∨
    (k.rules.orphanGraceSecs.toNat ≤ longestGrace ∧
      Timestamp.earliest ≤ time.nanoseconds - k.rules.orphanGraceSecs.toNat * 1000000000 ∧
      ∃ place, k.cutoff time = .ok place) ∨
    (k.rules.orphanGraceSecs.toNat ≤ longestGrace ∧
      time.nanoseconds - k.rules.orphanGraceSecs.toNat * 1000000000 < Timestamp.earliest ∧
      k.cutoff time = .error .cutShort) := by
  rw [cutoff]
  by_cases hlong : longestGrace < k.rules.orphanGraceSecs.toNat
  · rw [if_pos hlong]
    exact Or.inl ⟨hlong, _, rfl⟩
  · rw [if_neg hlong, Timestamp.secondsBefore?]
    refine Or.inr ?_
    by_cases hthere : Timestamp.earliest
        ≤ time.nanoseconds - k.rules.orphanGraceSecs.toNat * 1000000000
    · rw [if_pos hthere]
      exact Or.inl ⟨Nat.le_of_not_lt hlong, hthere, _, rfl⟩
    · rw [if_neg hthere]
      exact Or.inr ⟨Nat.le_of_not_lt hlong, Int.lt_of_not_ge hthere, rfl⟩

variable {σ β ν : Type} [ContentOrigin σ] [BlobStorage β] [NotaryService ν]

/-- A sweep that finds no cutoff gives its lock back and leaves all else alone. -/
theorem run_orphans_of_error (k : Caretaker) (now : Instant) (time : Timestamp)
    {w : JobState σ β ν} (hfree : w.locks.orphans.held = false) {outcome : RunOutcome}
    (h : k.cutoff time = .error outcome) : k.run now time .orphans w = (outcome, w) := by
  obtain ⟨origin, stores, notary, guard, ⟨archive, notarize, ⟨job, held⟩⟩, drawn⟩ := w
  cases hfree
  simp only [run, begin, survey, h]
  rfl

/-- A sweep that finds its cutoff comes to an end. -/
theorem run_orphans_of_ok (k : Caretaker) (now : Instant) (time : Timestamp)
    {w : JobState σ β ν} (hfree : w.locks.orphans.held = false) {place : Int}
    (h : k.cutoff time = .ok place) : (k.run now time .orphans w).1 ≠ .cutShort := by
  have hacquire : (w.locks.get .orphans).acquire
      = some { w.locks.get .orphans with held := true } := if_neg (Bool.eq_false_iff.mp hfree)
  rw [run, begin, hacquire]
  cases hknown : w.stores.records.references with
  | error e => simp [survey, h, hknown]
  | ok known =>
      simp only [survey, h, hknown, finish, work, collect]
      cases unreferenced known w.stores.blobs with
      | error e => exact RunOutcome.noConfusion
      | ok found => exact RunOutcome.noConfusion

/-- A sweep is cut short if the grace period, not longer than the longest, leads
    back beyond the first moment there is. -/
theorem run_orphans_cutShort_iff (k : Caretaker) (now : Instant) (time : Timestamp)
    {w : JobState σ β ν} (hfree : w.locks.orphans.held = false) :
    (k.run now time .orphans w).1 = .cutShort ↔
      k.rules.orphanGraceSecs.toNat ≤ longestGrace ∧
      time.nanoseconds - k.rules.orphanGraceSecs.toNat * 1000000000 < Timestamp.earliest := by
  rcases k.cutoff_cases time with ⟨hlong, text, h⟩ | ⟨-, hthere, place, h⟩ | ⟨hshort, hgone, h⟩
  · rw [k.run_orphans_of_error now time hfree h]
    exact iff_of_false (fun h => nomatch h) fun h => Nat.not_lt.mpr h.1 hlong
  · exact iff_of_false (k.run_orphans_of_ok now time hfree h) fun h => Int.not_lt.mpr hthere h.2
  · rw [k.run_orphans_of_error now time hfree h]
    exact iff_of_true rfl ⟨hshort, hgone⟩

end Caretaker

/-- The longest grace period, in seconds, that leads to a moment from every moment
    since 1970. -/
def safeGrace : Nat := 8334601228800

theorem earliest_eq : Timestamp.earliest = -(safeGrace * 1000000000 : Int) := by decide

/-! ## Configurations -/

namespace Configuration

/-- The settings with other spans of time. -/
def withSpans (c : Configuration) (threshold grace : UInt64) : Configuration :=
  { c with dedupThresholdSecs := threshold, orphanGraceSecs := grace }

/-- No window and no grace period is too long for the settings. -/
theorem validate_withSpans {c : Configuration} (h : c.validate = .ok ()) {threshold : UInt64}
    (hthreshold : threshold ≠ 0) (grace : UInt64) :
    (c.withSpans threshold grace).validate = .ok () := by
  have hsound := c.validate_eq_ok_iff.mp h
  have hintervals := hsound.intervals
  rw [intervals, List.forall_mem_cons] at hintervals
  refine (validate_eq_ok_iff _).mpr { hsound with intervals := ?_ }
  rw [intervals, List.forall_mem_cons]
  exact ⟨hthreshold, hintervals.2⟩

/-- Where the spans that a configuration asks for cut calls short. -/
structure CutsShortBeyondClocks (c : Configuration) : Prop where
  /-- All spans are accepted but a window of no length. -/
  accepted : ∀ threshold grace, threshold ≠ 0 →
    (c.withSpans threshold grace).validate = .ok ()
  /-- A test is cut short if none was before, the id is in no window, and a new
  one would end after the last instant. -/
  tests : ∀ calls now id,
    (((RepeatGuard.fresh c.window).after calls).test now id).1 = .cutShort ↔
      ¬ RepeatGuard.HasCutShort ((RepeatGuard.fresh c.window).transcript calls) ∧
      ((RepeatGuard.fresh c.window).after calls).isClosed now id = false ∧
      Instant.last < now + c.window
  /-- After that, all calls are refused. -/
  refused : ∀ calls call,
    RepeatGuard.HasCutShort ((RepeatGuard.fresh c.window).transcript calls) →
    ((RepeatGuard.fresh c.window).after calls).handle call
      = (call.refusal, (RepeatGuard.fresh c.window).after calls)
  /-- None is cut short while there is room for every window. -/
  room : ∀ calls, (∀ now id, .test now id ∈ calls → now + c.window ≤ Instant.last) →
    ¬ RepeatGuard.HasCutShort ((RepeatGuard.fresh c.window).transcript calls)
  /-- A sweep is cut short if its grace period is not refused and leads back beyond
  the first moment.  It leaves everything as it is then. -/
  sweeps : ∀ {σ β ν : Type} [ContentOrigin σ] [BlobStorage β] [NotaryService ν] (k : Caretaker)
    (now : Instant) (time : Timestamp) (w : JobState σ β ν), k.rules = .ofConfig c →
    w.locks.orphans.held = false →
    ((k.run now time .orphans w).1 = .cutShort ↔
      c.orphanGraceSecs.toNat ≤ Caretaker.longestGrace ∧
      time.nanoseconds - c.orphanGraceSecs.toNat * 1000000000 < Timestamp.earliest) ∧
    ((k.run now time .orphans w).1 = .cutShort → (k.run now time .orphans w).2 = w) ∧
    (Caretaker.longestGrace < c.orphanGraceSecs.toNat →
      ∃ text, k.run now time .orphans w = (.failed (.config text), w)) ∧
    (0 ≤ time.nanoseconds → c.orphanGraceSecs.toNat ≤ safeGrace →
      (k.run now time .orphans w).1 ≠ .cutShort)

theorem tests_cut_short_iff (c : Configuration) (calls : List GuardCall) (now : Instant)
    (id : String) :
    (((RepeatGuard.fresh c.window).after calls).test now id).1 = .cutShort ↔
      ¬ RepeatGuard.HasCutShort ((RepeatGuard.fresh c.window).transcript calls) ∧
      ((RepeatGuard.fresh c.window).after calls).isClosed now id = false ∧
      Instant.last < now + c.window := by
  rw [RepeatGuard.test_eq_cutShort_iff, RepeatGuard.threshold_after,
    ← RepeatGuard.poisoned_fresh_after_iff, Bool.not_eq_true]
  exact Iff.rfl

/-- A grace period that is not too long leads to a moment. -/
theorem earliest_le_of_safe {grace : Nat} (h : grace ≤ safeGrace) {time : Timestamp}
    (htime : 0 ≤ time.nanoseconds) :
    Timestamp.earliest ≤ time.nanoseconds - grace * 1000000000 := by
  rw [earliest_eq]
  omega

/-- Calls are cut short exactly where a span of time leads beyond the clock. -/
theorem cut_short_beyond_the_clocks (c : Configuration) (h : c.validate = .ok ()) :
    c.CutsShortBeyondClocks where
  accepted := fun _ grace hthreshold => validate_withSpans h hthreshold grace
  tests := c.tests_cut_short_iff
  refused := fun calls call hcut =>
    RepeatGuard.handle_of_poisoned ((RepeatGuard.poisoned_fresh_after_iff _ calls).mpr hcut) call
  room := fun _ hroom => RepeatGuard.not_hasCutShort_of_room hroom
  sweeps := by
    intro σ β ν _ _ _ k now time w hrules hfree
    have hgrace : k.rules.orphanGraceSecs = c.orphanGraceSecs := by
      rw [hrules]
      rfl
    have hiff := k.run_orphans_cutShort_iff now time hfree
    rw [hgrace] at hiff
    refine ⟨hiff, fun hcut => ?_, fun hlong => ?_, fun htime hsafe hcut => ?_⟩
    · rcases k.cutoff_cases time with ⟨-, text, hk⟩ | ⟨-, -, place, hk⟩ | ⟨-, -, hk⟩
      · rw [k.run_orphans_of_error now time hfree hk]
      · exact absurd hcut (k.run_orphans_of_ok now time hfree hk)
      · rw [k.run_orphans_of_error now time hfree hk]
    · rcases k.cutoff_cases time with ⟨-, text, hk⟩ | ⟨hshort, -⟩ | ⟨hshort, -⟩
      · exact ⟨text, k.run_orphans_of_error now time hfree hk⟩
      · exact absurd hlong (Nat.not_lt.mpr (hgrace ▸ hshort))
      · exact absurd hlong (Nat.not_lt.mpr (hgrace ▸ hshort))
    · have hthere := earliest_le_of_safe hsafe htime
      exact Int.not_lt.mpr hthere (hiff.mp hcut).2

end Configuration

namespace Sample

/-- The settings there are without others, but for spans of time that lead beyond
    the clocks. -/
def boundless : Configuration := Configuration.withSpans {} 18446744073709551615 9000000000000

/-- A caretaker with these settings. -/
def boundlessCaretaker : Caretaker := { hasty with rules := .ofConfig boundless }

end Sample

/-- The first test and the first sweep are cut short under settings that are
    accepted. -/
theorem Configuration.cut_short_of_boundless :
    Sample.boundless.validate = .ok () ∧ Sample.boundless.CutsShortBeyondClocks ∧
    ((RepeatGuard.fresh Sample.boundless.window).test 0 "report").1 = .cutShort ∧
    (Sample.boundlessCaretaker.run 0 Sample.draws.now .orphans Sample.capitalVault).1
      = .cutShort := by
  have hvalid : Sample.boundless.validate = .ok () := rfl
  have hcuts := cut_short_beyond_the_clocks Sample.boundless hvalid
  have hsweeps := hcuts.sweeps Sample.boundlessCaretaker 0 Sample.draws.now Sample.capitalVault
    rfl rfl
  refine ⟨hvalid, hcuts, (hcuts.tests [] 0 "report").mpr ⟨?_, rfl, by decide⟩,
    hsweeps.1.mpr ⟨by decide, by decide⟩⟩
  exact fun ⟨_, he, _⟩ => nomatch he

end ContentVault
