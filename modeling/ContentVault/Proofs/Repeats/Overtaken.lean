import ContentVault.Proofs.Repeats.Refusals

/-! # Calls that are overtaken

    A call reads the clock before it gets the lock, so that calls get the lock in
    an order that need not be that of their readings.  Tests alone do no harm: the
    window on hand for an id ends no earlier than those before it.  A sweep that
    overtakes a test does.  It forgets a window that is over by its own reading,
    and then the test, whose reading still falls into that window, is let through
    a second time (`overtaken_test_passes_again`).  Nothing else brings two passes
    of an id closer together than a window.

    What carries this is that a window once opened is covered by the one on hand
    until a sweep reads an instant at or beyond its end (`Recalls`).

    Main statement: `passes_apart_unless_overtaken`. -/

namespace ContentVault

/-! ## What came since a pass -/

/-- A call for an id that was let through. -/
def passOf (id : String) (s : Instant) : GuardCall × GuardAnswer := (.test s id, .verdict .accepted)

/-- The reading of a sweep that was made. -/
def sweptAt? : GuardCall × GuardAnswer → Option Instant
  | (.sweep now, .removed (.ok _)) => some now
  | _ => none

/-- The readings of the sweeps that were made. -/
def sweepsOf (history : GuardHistory) : List Instant := history.filterMap sweptAt?

theorem passedAt?_eq_some_iff {id : String} {s : Instant} {entry : GuardCall × GuardAnswer} :
    passedAt? id entry = some s ↔ entry = passOf id s := by
  obtain ⟨c, a⟩ := entry
  constructor
  · intro h
    rw [passedAt?.eq_def] at h
    split at h
    · next now i heq =>
        split at h
        · next hid =>
            rw [heq, hid, Option.some.inj h]
            rfl
        · cases h
    · cases h
  · intro h
    rw [h]
    exact if_pos rfl

/-- What came since a pass grows with the history. -/
theorem passOf_suffix_concat {id : String} {s : Instant} {since history : GuardHistory}
    {entry : GuardCall × GuardAnswer} :
    passOf id s :: since <:+ history ++ [entry] ↔
      (since = [] ∧ entry = passOf id s) ∨
      ∃ before, since = before ++ [entry] ∧ passOf id s :: before <:+ history := by
  rw [List.suffix_concat_iff]
  constructor
  · rintro (h | ⟨before, hsince, hsuffix⟩)
    · cases h
    · cases before with
      | nil =>
          obtain ⟨hentry, hnil⟩ := List.cons_eq_cons.mp hsince
          exact Or.inl ⟨hnil, hentry.symm⟩
      | cons first before =>
          obtain ⟨rfl, hmore⟩ := List.cons_eq_cons.mp hsince
          exact Or.inr ⟨before, hmore, hsuffix⟩
  · rintro (⟨rfl, rfl⟩ | ⟨before, rfl, hsuffix⟩)
    · exact Or.inr ⟨[], rfl, List.nil_suffix⟩
    · exact Or.inr ⟨passOf id s :: before, rfl, hsuffix⟩

theorem mem_passes_iff {id : String} {s : Instant} {history : GuardHistory} :
    s ∈ passes id history ↔ ∃ since, passOf id s :: since <:+ history := by
  rw [passes, List.mem_filterMap]
  constructor
  · rintro ⟨entry, hmem, hpass⟩
    rw [passedAt?_eq_some_iff.mp hpass] at hmem
    obtain ⟨before, since, hsplit⟩ := List.append_of_mem hmem
    exact ⟨since, before, hsplit.symm⟩
  · rintro ⟨since, hsuffix⟩
    exact ⟨passOf id s, hsuffix.subset List.mem_cons_self, passedAt?_eq_some_iff.mpr rfl⟩

theorem mem_sweepsOf_concat {r : Instant} {history : GuardHistory}
    {entry : GuardCall × GuardAnswer} :
    r ∈ sweepsOf (history ++ [entry]) ↔ r ∈ sweepsOf history ∨ sweptAt? entry = some r := by
  rw [sweepsOf, List.filterMap_append, List.mem_append, ← sweepsOf, List.mem_filterMap]
  refine or_congr_right ⟨?_, fun h => ⟨entry, List.mem_singleton_self _, h⟩⟩
  rintro ⟨e, he, hswept⟩
  rwa [List.mem_singleton.mp he] at hswept

namespace RepeatGuard

/-! ## One call -/

/-- Whether a guard is what a history makes of it, whatever the readings in it:
    the window of an id is one that a pass opened and no sweep has found over, and
    every other window that a pass opened is over no later or was found over. -/
structure Recalls (threshold : Nat) (history : GuardHistory) (g : RepeatGuard) : Prop where
  wide : g.threshold = threshold
  apart : g.tracked.Nodup
  opened : ∀ id reopens, g.windows.lookup id = some reopens →
    ∃ s since, passOf id s :: since <:+ history ∧ reopens = s + threshold ∧
      ∀ r ∈ sweepsOf since, r < reopens
  covered : ∀ id s since, passOf id s :: since <:+ history →
    (∃ reopens, g.windows.lookup id = some reopens ∧ s + threshold ≤ reopens) ∨
    ∃ r ∈ sweepsOf since, s + threshold ≤ r

variable {threshold : Nat} {history : GuardHistory} {g : RepeatGuard} {calls : List GuardCall}

theorem recalls_fresh (threshold : Nat) : Recalls threshold [] (fresh threshold) where
  wide := rfl
  apart := List.nodup_nil
  opened := fun _ _ h => nomatch h
  covered := fun _ _ _ h => nomatch List.suffix_nil.mp h

/-- A window that was opened still is after one more call that is no sweep which finds it
    over. -/
theorem Recalls.opened_concat (h : Recalls threshold history g) {id : String} {reopens : Instant}
    {entry : GuardCall × GuardAnswer} (hfound : g.windows.lookup id = some reopens)
    (hopen : ∀ r, sweptAt? entry = some r → r < reopens) :
    ∃ s since, passOf id s :: since <:+ history ++ [entry] ∧ reopens = s + threshold ∧
      ∀ r ∈ sweepsOf since, r < reopens := by
  obtain ⟨s, since, hsuffix, hends, hsince⟩ := h.opened id reopens hfound
  refine ⟨s, since ++ [entry], passOf_suffix_concat.mpr (Or.inr ⟨since, rfl, hsuffix⟩), hends, ?_⟩
  intro r hr
  rcases mem_sweepsOf_concat.mp hr with hr | hr
  · exact hsince r hr
  · exact hopen r hr

/-- A window is covered as it was before one more call, unless that call opened it; if the
    call is a sweep, it has come since. -/
theorem Recalls.covered_concat (h : Recalls threshold history g) {id : String} {s : Instant}
    {since : GuardHistory} {entry : GuardCall × GuardAnswer}
    (hsuffix : passOf id s :: since <:+ history ++ [entry]) (hpass : entry ≠ passOf id s) :
    (∃ reopens, g.windows.lookup id = some reopens ∧ s + threshold ≤ reopens ∧
      ∀ r, sweptAt? entry = some r → r ∈ sweepsOf since) ∨
    ∃ r ∈ sweepsOf since, s + threshold ≤ r := by
  rcases passOf_suffix_concat.mp hsuffix with ⟨-, hentry⟩ | ⟨before, rfl, hbefore⟩
  · exact absurd hentry hpass
  · rcases h.covered id s before hbefore with ⟨reopens, hfound, hends⟩ | ⟨r, hr, hends⟩
    · exact Or.inl ⟨reopens, hfound, hends, fun r hr => mem_sweepsOf_concat.mpr (Or.inr hr)⟩
    · exact Or.inr ⟨r, mem_sweepsOf_concat.mpr (Or.inl hr), hends⟩

/-- A call that is no pass and no sweep that was made changes nothing. -/
theorem Recalls.same (h : Recalls threshold history g) {g' : RepeatGuard}
    {entry : GuardCall × GuardAnswer} (hwide : g'.threshold = g.threshold)
    (hwindows : g'.windows = g.windows) (hpass : ∀ id s, entry ≠ passOf id s)
    (hswept : sweptAt? entry = none) : Recalls threshold (history ++ [entry]) g' := by
  constructor
  case wide => exact hwide.trans h.wide
  case apart =>
    rw [tracked, hwindows]
    exact h.apart
  case opened =>
    intro id reopens hfound
    rw [hwindows] at hfound
    refine h.opened_concat hfound fun r hr => ?_
    cases hswept.symm.trans hr
  case covered =>
    intro id s since hsuffix
    rw [hwindows]
    refine (h.covered_concat hsuffix (hpass id s)).imp_left ?_
    rintro ⟨reopens, hfound, hends, -⟩
    exact ⟨reopens, hfound, hends⟩

/-- A pass opens a window that ends no earlier than the one in whose place it
    stands. -/
theorem Recalls.passed (h : Recalls threshold history g) {id : String} {now : Instant}
    (hover : ∀ reopens, g.windows.lookup id = some reopens → reopens ≤ now) :
    Recalls threshold (history ++ [passOf id now])
      { g with windows := setWindow id (now + threshold) g.windows } := by
  constructor
  case wide => exact h.wide
  case apart => exact nodup_setWindow id (now + threshold) h.apart
  case opened =>
    intro other reopens hfound
    by_cases hid : other = id
    · subst hid
      rw [lookup_setWindow_self] at hfound
      exact ⟨now, [], passOf_suffix_concat.mpr (Or.inl ⟨rfl, rfl⟩), (Option.some.inj hfound).symm,
        fun r hr => nomatch hr⟩
    · rw [lookup_setWindow_of_ne hid] at hfound
      exact h.opened_concat hfound fun r hr => nomatch hr
  case covered =>
    intro other s since hsuffix
    by_cases hpass : passOf id now = passOf other s
    · obtain ⟨rfl, rfl⟩ := GuardCall.test.inj (Prod.mk.inj hpass).1
      exact Or.inl ⟨now + threshold, lookup_setWindow_self id _ _, Nat.le_refl _⟩
    · refine (h.covered_concat hsuffix hpass).imp_left ?_
      rintro ⟨reopens, hfound, hends, -⟩
      by_cases hid : other = id
      · subst hid
        have hnow := Nat.le_trans hends (hover reopens hfound)
        exact ⟨now + threshold, lookup_setWindow_self other _ _,
          Nat.le_trans hnow (Nat.le_add_right now threshold)⟩
      · rw [lookup_setWindow_of_ne hid]
        exact ⟨reopens, hfound, hends⟩

/-- A sweep forgets the windows that are over by its own reading. -/
theorem Recalls.swept (h : Recalls threshold history g) {now : Instant} {count : Nat} :
    Recalls threshold (history ++ [(.sweep now, .removed (.ok count))])
      { g with windows := g.windows.filter fun w => now < w.2 } := by
  constructor
  case wide => exact h.wide
  case apart => exact h.apart.sublist (List.filter_sublist.map Prod.fst)
  case opened =>
    intro id reopens hfound
    rw [lookup_filter h.apart, Option.filter_eq_some_iff] at hfound
    refine h.opened_concat hfound.1 fun r hr => ?_
    rw [← Option.some.inj hr]
    exact of_decide_eq_true hfound.2
  case covered =>
    intro id s since hsuffix
    rcases h.covered_concat hsuffix (fun hpass => nomatch hpass)
      with ⟨reopens, hfound, hends, hsince⟩ | hswept
    · by_cases hlate : now < reopens
      · refine Or.inl ⟨reopens, ?_, hends⟩
        rw [lookup_filter h.apart, hfound]
        exact Option.filter_eq_some_iff.mpr ⟨rfl, decide_eq_true hlate⟩
      · exact Or.inr ⟨now, hsince now rfl, Nat.le_trans hends (Nat.le_of_not_lt hlate)⟩
    · exact Or.inr hswept

theorem isClosed_eq_false_iff {now : Instant} {id : String} :
    g.isClosed now id = false ↔ ∀ reopens, g.windows.lookup id = some reopens → reopens ≤ now := by
  rw [isClosed]
  cases g.windows.lookup id with
  | none =>
      refine iff_of_true rfl ?_
      intro reopens h
      cases h
  | some reopens =>
      rw [decide_eq_false_iff_not, Nat.not_lt]
      refine ⟨?_, fun h => h reopens rfl⟩
      intro h u hu
      rwa [← Option.some.inj hu]

/-- The guard recalls one more call, whatever its reading. -/
theorem Recalls.handled (h : Recalls threshold history g) (c : GuardCall) :
    Recalls threshold (history ++ [(c, (g.handle c).1)]) (g.handle c).2 := by
  cases c with
  | test now id =>
      rw [handle]
      rcases g.test_cases now id with ⟨-, htest⟩ | ⟨-, -, htest⟩ | ⟨-, hopen, -, htest⟩ |
        ⟨-, -, -, htest⟩
      · rw [htest]
        exact h.same rfl rfl (fun _ _ => by simp [passOf]) rfl
      · rw [htest]
        exact h.same rfl rfl (fun _ _ => by simp [passOf]) rfl
      · rw [htest]
        have hpassed := h.passed (isClosed_eq_false_iff.mp hopen)
        rwa [← h.wide] at hpassed ⊢
      · rw [htest]
        exact h.same rfl rfl (fun _ _ => by simp [passOf]) rfl
  | sweep now =>
      rw [handle]
      cases hsound : g.poisoned with
      | true =>
          rw [sweep, if_pos hsound]
          exact h.same rfl rfl (fun _ _ => by simp [passOf]) rfl
      | false =>
          rw [sweep_eq hsound]
          exact h.swept

theorem recalls_after (threshold : Nat) (calls : List GuardCall) :
    Recalls threshold ((fresh threshold).transcript calls) ((fresh threshold).after calls) := by
  induction calls using List.reverseRecOn with
  | nil => exact recalls_fresh threshold
  | append_singleton calls c ih =>
      rw [transcript_append, after_append]
      exact ih.handled c

/-- No window is open for an id exactly if each that a pass opened is over by now or was
    found over by a sweep since. -/
theorem Recalls.isClosed_eq_false_iff (h : Recalls threshold history g) {now : Instant}
    {id : String} :
    g.isClosed now id = false ↔
      ∀ s since, passOf id s :: since <:+ history →
        s + threshold ≤ now ∨ ∃ r ∈ sweepsOf since, s + threshold ≤ r := by
  rw [RepeatGuard.isClosed_eq_false_iff]
  constructor
  · intro hover s since hsuffix
    rcases h.covered id s since hsuffix with ⟨reopens, hfound, hends⟩ | hswept
    · exact Or.inl (Nat.le_trans hends (hover reopens hfound))
    · exact Or.inr hswept
  · intro hlapsed reopens hfound
    obtain ⟨s, since, hsuffix, rfl, hopen⟩ := h.opened id reopens hfound
    rcases hlapsed s since hsuffix with hnow | ⟨r, hr, hover⟩
    · exact hnow
    · exact absurd (hopen r hr) (Nat.not_lt.mpr hover)

/-! ## Any sequence of calls -/

/-- What stands in a transcript is a call with its answer, after the calls before it. -/
theorem transcript_eq_append_cons {g : RepeatGuard} {first last : GuardHistory}
    {entry : GuardCall × GuardAnswer} (h : g.transcript calls = first ++ entry :: last) :
    ∃ before rest, calls = before ++ entry.1 :: rest ∧ g.transcript before = first ∧
      ((g.after before).handle entry.1).1 = entry.2 := by
  induction calls generalizing g first with
  | nil => cases first <;> cases h
  | cons c calls ih =>
      rw [transcript] at h
      cases first with
      | nil =>
          obtain ⟨rfl, -⟩ := List.cons_eq_cons.mp h
          exact ⟨[], calls, rfl, rfl, rfl⟩
      | cons e first =>
          obtain ⟨rfl, hmore⟩ := List.cons_eq_cons.mp h
          obtain ⟨before, rest, rfl, rfl, hanswer⟩ := ih hmore
          exact ⟨c :: before, rest, rfl, rfl, hanswer⟩

/-- A sweep that was made is one of the calls. -/
theorem mem_of_mem_sweepsOf {g : RepeatGuard} {r : Instant}
    (h : r ∈ sweepsOf (g.transcript calls)) : .sweep r ∈ calls := by
  obtain ⟨⟨c, a⟩, hmem, hswept⟩ := List.mem_filterMap.mp h
  obtain ⟨first, last, hsplit⟩ := List.append_of_mem hmem
  obtain ⟨before, rest, rfl, -, -⟩ := transcript_eq_append_cons hsplit
  rw [sweptAt?.eq_def] at hswept
  split at hswept
  · next heq =>
      rw [← Option.some.inj hswept, ← (Prod.mk.inj heq).1]
      exact List.mem_append_right _ List.mem_cons_self
  · cases hswept

/-- Passes are related as all those are of which one comes after the other. -/
theorem pairwise_passes {id : String} {R : Instant → Instant → Prop}
    (h : ∀ s t since rest, passOf id s :: since ++ passOf id t :: rest <:+ history → R s t) :
    (passes id history).Pairwise R := by
  induction history with
  | nil => exact List.Pairwise.nil
  | cons entry history ih =>
      have hrest := ih fun s t since rest hsuffix =>
        h s t since rest (hsuffix.trans (List.suffix_cons entry history))
      cases hpass : passedAt? id entry with
      | none => rwa [passes, List.filterMap_cons_none hpass]
      | some s =>
          rw [passes, List.filterMap_cons_some hpass]
          refine List.Pairwise.cons ?_ hrest
          intro t ht
          obtain ⟨rest, since, rfl⟩ := mem_passes_iff.mp ht
          rw [passedAt?_eq_some_iff.mp hpass] at h
          exact h s t since rest (List.suffix_refl _)

/-- Whether no sweep gets the lock before a test that has read the clock before it. -/
def NoneOvertaken (calls : List GuardCall) : Prop :=
  ∀ before now id rest, calls = before ++ .test now id :: rest → ∀ r, .sweep r ∈ before → r ≤ now

/-- What a guard makes of a sequence of calls that get the lock in this order, in
    whatever order they have read the clock. -/
structure KeepsApart (threshold : Nat) (calls : List GuardCall) : Prop where
  /-- A test is let through exactly if the lock is to be had, there is room for its
  window, and each earlier window of its id is over by its own reading or was found
  over by a sweep. -/
  tests : ∀ before now id rest, calls = before ++ .test now id :: rest →
    ((((fresh threshold).after before).test now id).1 = .accepted ↔
      ¬ HasCutShort ((fresh threshold).transcript before) ∧ now + threshold ≤ Instant.last ∧
      ∀ s since, passOf id s :: since <:+ (fresh threshold).transcript before →
        s + threshold ≤ now ∨ ∃ r ∈ sweepsOf since, s + threshold ≤ r)
  /-- Of two passes of an id that are closer together than a window, the later one was
  overtaken by a sweep that came after the earlier one. -/
  overtaken : ∀ id s t since rest,
    passOf id s :: since ++ passOf id t :: rest <:+ (fresh threshold).transcript calls →
    t < s + threshold → ∃ r ∈ sweepsOf since, t < r ∧ s + threshold ≤ r
  /-- Where no test is overtaken by a sweep, the passes of an id are at least a
  window apart. -/
  apart : NoneOvertaken calls → ∀ id,
    (passes id ((fresh threshold).transcript calls)).Pairwise fun s t => s + threshold ≤ t

theorem test_eq_accepted_iff (threshold : Nat) (before : List GuardCall) (now : Instant)
    (id : String) :
    (((fresh threshold).after before).test now id).1 = .accepted ↔
      ¬ HasCutShort ((fresh threshold).transcript before) ∧ now + threshold ≤ Instant.last ∧
      ∀ s since, passOf id s :: since <:+ (fresh threshold).transcript before →
        s + threshold ≤ now ∨ ∃ r ∈ sweepsOf since, s + threshold ≤ r := by
  have hrecalls := recalls_after threshold before
  have hcases := ((fresh threshold).after before).test_cases now id
  rw [hrecalls.wide] at hcases
  rw [← poisoned_fresh_after_iff, ← hrecalls.isClosed_eq_false_iff]
  rcases hcases with ⟨hpoisoned, htest⟩ | ⟨-, hclosed, htest⟩ | ⟨hsound, hopen, hroom, htest⟩ |
    ⟨-, -, hlate, htest⟩
  · rw [htest]
    exact iff_of_false (fun h => nomatch h) fun h => h.1 hpoisoned
  · rw [htest, hclosed]
    exact iff_of_false (fun h => nomatch h) fun h => nomatch h.2.2
  · rw [htest, hsound]
    exact iff_of_true rfl ⟨Bool.false_ne_true, hroom, hopen⟩
  · rw [htest]
    exact iff_of_false (fun h => nomatch h) fun h => Nat.not_lt.mpr h.2.1 hlate

/-- A pass has all earlier windows of its id behind it. -/
theorem lapsed_of_pass {id : String} {s t : Instant} {since rest : GuardHistory}
    (h : passOf id s :: since ++ passOf id t :: rest <:+ (fresh threshold).transcript calls) :
    s + threshold ≤ t ∨ ∃ r ∈ sweepsOf since, s + threshold ≤ r := by
  obtain ⟨first, hsplit⟩ := h
  rw [← List.append_assoc] at hsplit
  obtain ⟨before, more, -, hbefore, hanswer⟩ := transcript_eq_append_cons hsplit.symm
  have haccepted : (((fresh threshold).after before).test t id).1 = .accepted :=
    GuardAnswer.verdict.inj hanswer
  refine ((test_eq_accepted_iff threshold before t id).mp haccepted).2.2 s since ?_
  exact ⟨first, hbefore.symm⟩

/-- Tests get the lock in any order, and still the passes of an id are a window apart unless
    a sweep overtakes one of them. -/
theorem passes_apart_unless_overtaken (threshold : Nat) (calls : List GuardCall) :
    KeepsApart threshold calls where
  tests := fun before now id _ _ => test_eq_accepted_iff threshold before now id
  overtaken := by
    intro id s t since rest hsuffix hclose
    obtain ⟨r, hr, hover⟩ :=
      (lapsed_of_pass hsuffix).resolve_left (Nat.not_le.mpr hclose)
    exact ⟨r, hr, Nat.lt_of_lt_of_le hclose hover, hover⟩
  apart := by
    intro hnone id
    refine pairwise_passes fun s t since rest hsuffix => ?_
    rcases lapsed_of_pass hsuffix with hnow | ⟨r, hr, hover⟩
    · exact hnow
    · -- the sweep in between has read no later than the pass
      obtain ⟨first, hsplit⟩ := hsuffix
      rw [← List.append_assoc] at hsplit
      obtain ⟨before, more, hcalls, hbefore, -⟩ := transcript_eq_append_cons hsplit.symm
      have hmem : .sweep r ∈ before := by
        refine mem_of_mem_sweepsOf (g := fresh threshold) ?_
        rw [hbefore, sweepsOf, List.filterMap_append, List.filterMap_cons]
        exact List.mem_append_right _ hr
      exact Nat.le_trans hover (hnone before t id more hcalls r hmem)

/-- A test reads the clock at 10, a sweep at 20, the end of the window that was opened at 0, and
    the sweep gets the lock first: both tests are let through. -/
theorem overtaken_test_passes_again :
    passes "report" ((fresh 20).transcript [.test 0 "report", .sweep 20, .test 10 "report"])
      = [0, 10] ∧
    ¬ ∀ threshold calls id, (passes id ((fresh threshold).transcript calls)).Pairwise fun s t =>
      s + threshold ≤ t ∨ t + threshold ≤ s := by
  have hpasses :
      passes "report" ((fresh 20).transcript [.test 0 "report", .sweep 20, .test 10 "report"])
        = [0, 10] := by decide
  refine ⟨hpasses, fun h => ?_⟩
  have hapart := h 20 [.test 0 "report", .sweep 20, .test 10 "report"] "report"
  rw [hpasses] at hapart
  revert hapart
  decide

end RepeatGuard

end ContentVault
