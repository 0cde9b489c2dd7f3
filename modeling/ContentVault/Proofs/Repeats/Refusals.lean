import ContentVault.Proofs.Repeats.Windows

/-! # Calls that are refused

    A test that would have to open a window beyond the last instant is cut short
    while it holds the lock (`test_eq_cutShort_iff`).  The lock is lost with it
    (`poisoned_after_iff`), and every later call is refused
    (`handle_of_poisoned`). -/

namespace ContentVault

/-- What a call is answered when the lock is not to be had. -/
def GuardCall.refusal : GuardCall → GuardAnswer
  | test _ _ => .verdict .unavailable
  | sweep _ => .removed (.error .lock)

namespace RepeatGuard

/-- Whether some call in a history was cut short. -/
def HasCutShort (history : GuardHistory) : Prop := ∃ e ∈ history, e.2 = .verdict .cutShort

theorem hasCutShort_append {history more : GuardHistory} :
    HasCutShort (history ++ more) ↔ HasCutShort history ∨ HasCutShort more := by
  constructor
  · rintro ⟨e, he, hcut⟩
    exact (List.mem_append.mp he).imp (fun he => ⟨e, he, hcut⟩) fun he => ⟨e, he, hcut⟩
  · rintro (⟨e, he, hcut⟩ | ⟨e, he, hcut⟩)
    · exact ⟨e, List.mem_append_left _ he, hcut⟩
    · exact ⟨e, List.mem_append_right _ he, hcut⟩

theorem hasCutShort_single {c : GuardCall} {a : GuardAnswer} :
    HasCutShort [(c, a)] ↔ a = .verdict .cutShort := by
  constructor
  · rintro ⟨e, he, hcut⟩
    rw [List.mem_singleton.mp he] at hcut
    exact hcut
  · exact fun hcut => ⟨(c, a), List.mem_singleton_self _, hcut⟩

/-- All that a test can come to. -/
theorem test_cases (g : RepeatGuard) (now : Instant) (id : String) :
    (g.poisoned = true ∧ g.test now id = (.unavailable, g)) ∨
    (g.poisoned = false ∧ g.isClosed now id = true ∧ g.test now id = (.suppressed, g)) ∨
    (g.poisoned = false ∧ g.isClosed now id = false ∧ now + g.threshold ≤ Instant.last ∧
      g.test now id
        = (.accepted, { g with windows := setWindow id (now + g.threshold) g.windows })) ∨
    (g.poisoned = false ∧ g.isClosed now id = false ∧ Instant.last < now + g.threshold ∧
      g.test now id = (.cutShort, { g with poisoned := true })) := by
  rw [test]
  cases hpoisoned : g.poisoned with
  | true => exact Or.inl ⟨rfl, rfl⟩
  | false =>
      refine Or.inr ?_
      cases hclosed : g.isClosed now id with
      | true => exact Or.inl ⟨rfl, rfl, rfl⟩
      | false =>
          refine Or.inr ?_
          rw [Instant.after?]
          by_cases hroom : now + g.threshold ≤ Instant.last
          · rw [if_pos hroom]
            exact Or.inl ⟨rfl, rfl, hroom, rfl⟩
          · rw [if_neg hroom]
            exact Or.inr ⟨rfl, rfl, Nat.lt_of_not_le hroom, rfl⟩

/-- A test is cut short if it would have to open a window that ends after the
    last instant. -/
theorem test_eq_cutShort_iff (g : RepeatGuard) (now : Instant) (id : String) :
    (g.test now id).1 = .cutShort ↔
      g.poisoned = false ∧ g.isClosed now id = false ∧ Instant.last < now + g.threshold := by
  rcases g.test_cases now id with ⟨hpoisoned, htest⟩ | ⟨-, hclosed, htest⟩ | ⟨-, -, hroom, htest⟩ |
    ⟨hsound, hclosed, hlate, htest⟩
  · rw [htest, hpoisoned]
    exact iff_of_false (fun h => nomatch h) fun h => nomatch h.1
  · rw [htest, hclosed]
    exact iff_of_false (fun h => nomatch h) fun h => nomatch h.2.1
  · rw [htest]
    exact iff_of_false (fun h => nomatch h) fun h => Nat.not_lt.mpr hroom h.2.2
  · rw [htest]
    exact iff_of_true rfl ⟨hsound, hclosed, hlate⟩

/-- No call changes the length of the windows. -/
theorem threshold_handle (g : RepeatGuard) (c : GuardCall) :
    (g.handle c).2.threshold = g.threshold := by
  cases c with
  | test now id =>
      rw [handle]
      rcases g.test_cases now id with ⟨-, h⟩ | ⟨-, -, h⟩ | ⟨-, -, -, h⟩ | ⟨-, -, -, h⟩ <;> rw [h]
  | sweep now =>
      rw [handle, sweep]
      cases g.poisoned <;> rfl

theorem threshold_after (g : RepeatGuard) (calls : List GuardCall) :
    (g.after calls).threshold = g.threshold := by
  induction calls generalizing g with
  | nil => rfl
  | cons c calls ih => exact (ih _).trans (g.threshold_handle c)

/-- The lock is lost with a call that is cut short, and never comes back. -/
theorem poisoned_handle_iff (g : RepeatGuard) (c : GuardCall) :
    (g.handle c).2.poisoned = true ↔
      g.poisoned = true ∨ (g.handle c).1 = .verdict .cutShort := by
  cases c with
  | test now id =>
      rw [handle]
      rcases g.test_cases now id with ⟨hpoisoned, h⟩ | ⟨hsound, -, h⟩ | ⟨hsound, -, -, h⟩ |
        ⟨-, -, -, h⟩
      · rw [h]
        exact iff_of_true hpoisoned (Or.inl hpoisoned)
      · rw [h, hsound]
        exact iff_of_false Bool.false_ne_true (by simp)
      · rw [h, hsound]
        exact iff_of_false Bool.false_ne_true (by simp)
      · rw [h]
        exact iff_of_true rfl (Or.inr rfl)
  | sweep now =>
      rw [handle, sweep]
      cases hpoisoned : g.poisoned with
      | true => exact iff_of_true hpoisoned (Or.inl rfl)
      | false => exact iff_of_false (by simp) (by simp)

/-- The lock is lost exactly if some call was cut short. -/
theorem poisoned_after_iff (g : RepeatGuard) (calls : List GuardCall) :
    (g.after calls).poisoned = true ↔ g.poisoned = true ∨ HasCutShort (g.transcript calls) := by
  induction calls generalizing g with
  | nil => exact (or_iff_left fun ⟨_, he, _⟩ => nomatch he).symm
  | cons c calls ih =>
      have hsplit : HasCutShort (g.transcript (c :: calls)) ↔
          (g.handle c).1 = .verdict .cutShort ∨
            HasCutShort ((g.handle c).2.transcript calls) := by
        have hcons : g.transcript (c :: calls)
            = [(c, (g.handle c).1)] ++ (g.handle c).2.transcript calls := rfl
        rw [hcons, hasCutShort_append, hasCutShort_single]
      rw [hsplit, ← or_assoc, ← poisoned_handle_iff]
      exact ih _

theorem poisoned_fresh_after_iff (threshold : Nat) (calls : List GuardCall) :
    ((fresh threshold).after calls).poisoned = true ↔
      HasCutShort ((fresh threshold).transcript calls) :=
  (poisoned_after_iff _ calls).trans (or_iff_right fun h => nomatch h)

/-- Without the lock every call is refused. -/
theorem handle_of_poisoned {g : RepeatGuard} (h : g.poisoned = true) (c : GuardCall) :
    g.handle c = (c.refusal, g) := by
  cases c with
  | test now id =>
      rw [handle, test, if_pos h]
      rfl
  | sweep now =>
      rw [handle, sweep, if_pos h]
      rfl

/-- While there is room for every window, no call is cut short. -/
theorem not_hasCutShort_of_room {threshold : Nat} {calls : List GuardCall}
    (hroom : ∀ now id, .test now id ∈ calls → now + threshold ≤ Instant.last) :
    ¬ HasCutShort ((fresh threshold).transcript calls) := by
  induction calls using List.reverseRecOn with
  | nil => exact fun ⟨_, he, _⟩ => nomatch he
  | append_singleton calls c ih =>
      have hbefore := ih fun now id hmem => hroom now id (List.mem_append_left _ hmem)
      rw [transcript_append, hasCutShort_append, not_or]
      refine ⟨hbefore, ?_⟩
      rw [transcript, transcript, hasCutShort_single]
      cases c with
      | sweep now => exact GuardAnswer.noConfusion
      | test now id =>
          have hlast := hroom now id (List.mem_append_right _ (List.mem_singleton_self _))
          intro hcut
          have hlate := ((test_eq_cutShort_iff _ now id).mp (GuardAnswer.verdict.inj hcut)).2.2
          rw [threshold_after] at hlate
          exact Nat.not_lt.mpr hlast hlate

end RepeatGuard

end ContentVault
