import ContentVault.Repeats.Guard
import Mathlib.Data.List.Induction

/-! # Windows of time, by the history of calls

    A guard keeps less than it has seen: of an id only the end of the window that
    is open, and after a sweep not even that.  Its answers are those that the
    whole history of calls gives (`KeepsWindows`): an id is let through exactly if
    no earlier pass of it reaches up to now.  So the passes of an id are at least
    a window apart, calls that all fall into one window have one winner, and
    neither sweeps nor calls for other ids make a difference.

    What carries this is that the windows on hand follow from the history
    (`Follows`): one is kept for the last pass of an id, and none is missing but
    of ids whose passes are all over.

    Main statement: `one_pass_per_window`. -/

namespace ContentVault

/-! ## Calls -/

/-- What a guard is asked, each time with the reading of the clock. -/
inductive GuardCall where
  | test (now : Instant) (id : String)
  | sweep (now : Instant)
deriving DecidableEq, Repr

/-- What a guard answers. -/
inductive GuardAnswer where
  | verdict (v : Verdict)
  | removed (count : Attempt Nat)

/-- Calls with their answers. -/
abbrev GuardHistory := List (GuardCall × GuardAnswer)

namespace GuardCall

/-- The reading of the clock. -/
def now : GuardCall → Instant
  | test now _ => now
  | sweep now => now

/-- Whether a call asks for an id that is among these. -/
def asksFor (among : String → Bool) : GuardCall → Bool
  | test _ id => among id
  | sweep _ => false

end GuardCall

/-- The instant at which an id was let through, if it was. -/
def passedAt? (id : String) : GuardCall × GuardAnswer → Option Instant
  | (.test now i, .verdict .accepted) => if i = id then some now else none
  | _ => none

/-- The instants at which an id was let through, one after the other. -/
def passes (id : String) (history : GuardHistory) : List Instant :=
  history.filterMap (passedAt? id)

/-- Whether an id that was let through at these instants can be again, as it was
    the last time a whole window ago. -/
def isOver (threshold : Nat) (now : Instant) (instants : List Instant) : Bool :=
  match instants.getLast? with
  | some s => s + threshold ≤ now
  | none => false

namespace RepeatGuard

/-- Answers a call. -/
def handle (g : RepeatGuard) : GuardCall → GuardAnswer × RepeatGuard
  | .test now id => (.verdict (g.test now id).1, (g.test now id).2)
  | .sweep now => (.removed (g.sweep now).1, (g.sweep now).2)

/-- The guard after one call after the other. -/
def after (g : RepeatGuard) (calls : List GuardCall) : RepeatGuard :=
  calls.foldl (fun g c => (g.handle c).2) g

/-- The calls, each with what it was answered. -/
def transcript (g : RepeatGuard) : List GuardCall → GuardHistory
  | [] => []
  | c :: calls => (c, (g.handle c).1) :: (g.handle c).2.transcript calls

/-- The ids that a guard keeps. -/
def tracked (g : RepeatGuard) : List String := g.windows.map Prod.fst

/-- A guard that has not been asked anything. -/
def fresh (threshold : Nat) : RepeatGuard := { threshold }

theorem after_append (g : RepeatGuard) (calls more : List GuardCall) :
    g.after (calls ++ more) = (g.after calls).after more := List.foldl_append

theorem transcript_append (g : RepeatGuard) (calls more : List GuardCall) :
    g.transcript (calls ++ more) = g.transcript calls ++ (g.after calls).transcript more := by
  induction calls generalizing g with
  | nil => rfl
  | cons c calls ih =>
      show (c, (g.handle c).1) :: (g.handle c).2.transcript (calls ++ more) = _
      rw [ih]
      rfl

/-! ## The windows -/

theorem lookup_setWindow_self (id : String) (reopens : Instant)
    (windows : List (String × Instant)) :
    (setWindow id reopens windows).lookup id = some reopens := by
  induction windows with
  | nil => rw [setWindow, List.lookup_cons, beq_self_eq_true]
  | cons w windows ih =>
      obtain ⟨i, u⟩ := w
      rw [setWindow]
      by_cases hi : i = id
      · rw [if_pos hi, List.lookup_cons, beq_self_eq_true]
      · rw [if_neg hi, List.lookup_cons, beq_false_of_ne (Ne.symm hi)]
        exact ih

theorem lookup_setWindow_of_ne {id other : String} (h : other ≠ id) (reopens : Instant)
    (windows : List (String × Instant)) :
    (setWindow id reopens windows).lookup other = windows.lookup other := by
  induction windows with
  | nil => rw [setWindow, List.lookup_cons, beq_false_of_ne h]
  | cons w windows ih =>
      obtain ⟨i, u⟩ := w
      rw [setWindow]
      by_cases hi : i = id
      · subst hi
        rw [if_pos rfl, List.lookup_cons, List.lookup_cons, beq_false_of_ne h]
      · rw [if_neg hi, List.lookup_cons, List.lookup_cons, ih]

theorem mem_setWindow (id : String) (reopens : Instant) (windows : List (String × Instant))
    {other : String} :
    other ∈ (setWindow id reopens windows).map Prod.fst ↔
      other = id ∨ other ∈ windows.map Prod.fst := by
  induction windows with
  | nil => simp [setWindow]
  | cons w windows ih =>
      obtain ⟨i, u⟩ := w
      rw [setWindow]
      by_cases hi : i = id
      · subst hi
        simp
      · rw [if_neg hi, List.map_cons, List.map_cons, List.mem_cons, List.mem_cons, ih]
        exact or_left_comm

theorem nodup_setWindow (id : String) (reopens : Instant) {windows : List (String × Instant)}
    (h : (windows.map Prod.fst).Nodup) : ((setWindow id reopens windows).map Prod.fst).Nodup := by
  induction windows with
  | nil => exact List.pairwise_singleton _ _
  | cons w windows ih =>
      obtain ⟨i, u⟩ := w
      rw [List.map_cons, List.nodup_cons] at h
      rw [setWindow]
      by_cases hi : i = id
      · subst hi
        rw [if_pos rfl, List.map_cons, List.nodup_cons]
        exact h
      · rw [if_neg hi, List.map_cons, List.nodup_cons, mem_setWindow]
        exact ⟨fun hor => hor.elim hi h.1, ih h.2⟩

/-- What is kept is found under its id. -/
theorem mem_iff_lookup {windows : List (String × Instant)} (h : (windows.map Prod.fst).Nodup)
    {id : String} {reopens : Instant} :
    (id, reopens) ∈ windows ↔ windows.lookup id = some reopens := by
  induction windows with
  | nil => exact iff_of_false List.not_mem_nil (fun h => nomatch h)
  | cons w windows ih =>
      obtain ⟨i, u⟩ := w
      rw [List.map_cons, List.nodup_cons] at h
      rw [List.mem_cons, List.lookup_cons]
      by_cases hi : id = i
      · subst hi
        have hother : (id, reopens) ∉ windows := by
          intro hmem
          exact h.1 (List.mem_map.mpr ⟨_, hmem, rfl⟩)
        rw [beq_self_eq_true, or_iff_left hother]
        exact ⟨fun heq => congrArg some (Prod.ext_iff.mp heq).2.symm,
          fun heq => Prod.ext rfl (Option.some.inj heq).symm⟩
      · rw [beq_false_of_ne hi, ← ih h.2]
        exact or_iff_right fun heq => hi (Prod.ext_iff.mp heq).1

theorem mem_tracked_iff {windows : List (String × Instant)} (h : (windows.map Prod.fst).Nodup)
    {id : String} : id ∈ windows.map Prod.fst ↔ ∃ reopens, windows.lookup id = some reopens := by
  rw [List.mem_map]
  constructor
  · rintro ⟨⟨i, u⟩, hw, rfl⟩
    exact ⟨u, (mem_iff_lookup h).mp hw⟩
  · rintro ⟨u, hu⟩
    exact ⟨(id, u), (mem_iff_lookup h).mpr hu, rfl⟩

/-- A sweep leaves the windows alone that are still open. -/
theorem lookup_filter {windows : List (String × Instant)} (h : (windows.map Prod.fst).Nodup)
    (now : Instant) (id : String) :
    (windows.filter fun w => now < w.2).lookup id = (windows.lookup id).filter (now < ·) := by
  have hnodup : ((windows.filter fun w => now < w.2).map Prod.fst).Nodup :=
    h.sublist (List.filter_sublist.map Prod.fst)
  ext reopens
  rw [← mem_iff_lookup hnodup, List.mem_filter, mem_iff_lookup h, Option.filter_eq_some_iff]

/-- A sweep counts the windows that are over and leaves the others. -/
theorem sweep_eq {g : RepeatGuard} (hsound : g.poisoned = false) (now : Instant) :
    g.sweep now = (.ok (g.windows.countP fun w => !decide (now < w.2)),
      { g with windows := g.windows.filter fun w => now < w.2 }) := by
  have hcount : g.windows.length = (g.windows.filter fun w => now < w.2).length
      + g.windows.countP fun w => !decide (now < w.2) := by
    rw [← List.countP_eq_length_filter,
      List.length_eq_countP_add_countP fun w => decide (now < w.2)]
    simp only [decide_eq_true_eq, decide_not]
  rw [sweep, hsound, if_neg Bool.false_ne_true]
  refine Prod.ext (congrArg Except.ok ?_) rfl
  exact Nat.sub_eq_of_eq_add' hcount

/-! ## One call -/

/-- Whether calls follow each other on a clock that does not go back, and far
    enough from its end. -/
structure Orderly (threshold : Nat) (calls : List GuardCall) : Prop where
  forward : calls.Pairwise fun c d => c.now ≤ d.now
  room : ∀ now id, .test now id ∈ calls → now + threshold ≤ Instant.last

/-- Whether a guard is what a history makes of it by now: the window of an id is
    that of its last pass, and where there is none all passes are over. -/
structure Follows (threshold : Nat) (history : GuardHistory) (now : Instant) (g : RepeatGuard) :
    Prop where
  wide : g.threshold = threshold
  sound : g.poisoned = false
  apart : g.tracked.Nodup
  spaced : ∀ id, (passes id history).Pairwise fun s t => s + threshold ≤ t
  last : ∀ id reopens, g.windows.lookup id = some reopens →
    ∃ s, (passes id history).getLast? = some s ∧ reopens = s + threshold
  lapsed : ∀ id, g.windows.lookup id = none → ∀ s ∈ passes id history, s + threshold ≤ now

variable {threshold : Nat} {history : GuardHistory} {now later : Instant} {g : RepeatGuard}
  {calls : List GuardCall}

theorem follows_fresh (threshold : Nat) (now : Instant) :
    Follows threshold [] now (fresh threshold) where
  wide := rfl
  sound := rfl
  apart := List.nodup_nil
  spaced := fun _ => List.Pairwise.nil
  last := fun _ _ h => nomatch h
  lapsed := fun _ _ _ h => nomatch h

theorem Follows.mono (h : Follows threshold history now g) (hle : now ≤ later) :
    Follows threshold history later g :=
  { h with lapsed := fun id hnone s hs => Nat.le_trans (h.lapsed id hnone s hs) hle }

/-- No pass of an id was after its last one. -/
theorem Follows.le_last (h : Follows threshold history now g) {id : String} {s t : Instant}
    (hs : (passes id history).getLast? = some s) (ht : t ∈ passes id history) : t ≤ s := by
  obtain ⟨before, hsplit⟩ := List.getLast?_eq_some_iff.mp hs
  have hspaced := h.spaced id
  rw [hsplit] at ht hspaced
  rcases List.mem_append.mp ht with ht | ht
  · have hgap := (List.pairwise_append.mp hspaced).2.2 t ht s (List.mem_singleton_self s)
    exact Nat.le_trans (Nat.le_add_right t threshold) hgap
  · exact Nat.le_of_eq (List.mem_singleton.mp ht)

/-- An id is closed exactly if one of its passes reaches up to now. -/
theorem Follows.isClosed_iff (h : Follows threshold history now g) (hle : now ≤ later)
    (id : String) :
    g.isClosed later id = true ↔ ∃ s ∈ passes id history, later < s + threshold := by
  rw [isClosed]
  cases hfound : g.windows.lookup id with
  | none =>
      refine iff_of_false (fun h => nomatch h) ?_
      rintro ⟨s, hs, hlate⟩
      have hover := Nat.le_trans (h.lapsed id hfound s hs) hle
      exact Nat.not_lt.mpr hover hlate
  | some reopens =>
      obtain ⟨s, hs, rfl⟩ := h.last id reopens hfound
      rw [decide_eq_true_iff]
      constructor
      · intro hlate
        exact ⟨s, List.mem_of_getLast? hs, hlate⟩
      · rintro ⟨t, ht, hlate⟩
        have hmost := h.le_last hs ht
        exact Nat.lt_of_lt_of_le hlate (Nat.add_le_add_right hmost threshold)

/-- All that a test can come to. -/
theorem Follows.test_cases (h : Follows threshold history now g) (hle : now ≤ later)
    (hroom : later + threshold ≤ Instant.last) (id : String) :
    ((∀ s ∈ passes id history, s + threshold ≤ later) ∧
      g.test later id
        = (.accepted, { g with windows := setWindow id (later + threshold) g.windows })) ∨
    ((∃ s ∈ passes id history, later < s + threshold) ∧ g.test later id = (.suppressed, g)) := by
  have hclosed := h.isClosed_iff hle id
  rw [test, h.sound, if_neg Bool.false_ne_true]
  by_cases hlate : ∃ s ∈ passes id history, later < s + threshold
  · rw [if_pos (hclosed.mpr hlate)]
    exact Or.inr ⟨hlate, rfl⟩
  · rw [if_neg (fun hc => hlate (hclosed.mp hc)), Instant.after?, h.wide, if_pos hroom]
    exact Or.inl ⟨fun s hs => Nat.le_of_not_lt fun hs' => hlate ⟨s, hs, hs'⟩, rfl⟩

theorem passes_append (id : String) (history more : GuardHistory) :
    passes id (history ++ more) = passes id history ++ passes id more := List.filterMap_append

/-- A pass is one of the id that was asked for. -/
theorem passes_accepted (id other : String) (now : Instant) :
    passes other [(.test now id, .verdict .accepted)] = if id = other then [now] else [] := by
  by_cases hid : id = other
  · simp only [passes, List.filterMap_cons, passedAt?, if_pos hid, List.filterMap_nil]
  · simp only [passes, List.filterMap_cons, passedAt?, if_neg hid, List.filterMap_nil]

/-- What is not a pass changes nothing. -/
theorem Follows.same (h : Follows threshold history now g) {entry : GuardCall × GuardAnswer}
    (hentry : ∀ id, passes id [entry] = []) : Follows threshold (history ++ [entry]) now g := by
  have hpasses : ∀ id, passes id (history ++ [entry]) = passes id history := by
    intro id
    rw [passes_append, hentry, List.append_nil]
  constructor
  case wide => exact h.wide
  case sound => exact h.sound
  case apart => exact h.apart
  case spaced =>
    intro id
    rw [hpasses]
    exact h.spaced id
  case last =>
    intro id reopens hfound
    rw [hpasses]
    exact h.last id reopens hfound
  case lapsed =>
    intro id hnone
    rw [hpasses]
    exact h.lapsed id hnone

/-- A pass opens a window for its id, in place of the one there was. -/
theorem Follows.passed (h : Follows threshold history now g) (hle : now ≤ later) {id : String}
    (hover : ∀ s ∈ passes id history, s + threshold ≤ later) :
    Follows threshold (history ++ [(.test later id, .verdict .accepted)]) later
      { g with windows := setWindow id (later + threshold) g.windows } := by
  have hother : ∀ other, other ≠ id →
      passes other (history ++ [(.test later id, .verdict .accepted)]) = passes other history := by
    intro other hne
    rw [passes_append, passes_accepted, if_neg (Ne.symm hne), List.append_nil]
  have hself : passes id (history ++ [(.test later id, .verdict .accepted)])
      = passes id history ++ [later] := by
    rw [passes_append, passes_accepted, if_pos rfl]
  constructor
  case wide => exact h.wide
  case sound => exact h.sound
  case apart => exact nodup_setWindow id (later + threshold) h.apart
  case spaced =>
    intro other
    by_cases hid : other = id
    · subst hid
      rw [hself]
      refine List.pairwise_append.mpr ⟨h.spaced other, List.pairwise_singleton _ _, ?_⟩
      intro s hs t ht
      rw [List.mem_singleton.mp ht]
      exact hover s hs
    · rw [hother other hid]
      exact h.spaced other
  case last =>
    intro other reopens hfound
    by_cases hid : other = id
    · subst hid
      rw [lookup_setWindow_self] at hfound
      exact ⟨later, by rw [hself, List.getLast?_concat], (Option.some.inj hfound).symm⟩
    · rw [lookup_setWindow_of_ne hid] at hfound
      rw [hother other hid]
      exact h.last other reopens hfound
  case lapsed =>
    intro other hnone
    by_cases hid : other = id
    · subst hid
      rw [lookup_setWindow_self] at hnone
      cases hnone
    · rw [lookup_setWindow_of_ne hid] at hnone
      rw [hother other hid]
      exact (h.mono hle).lapsed other hnone

/-- A sweep takes away what is over. -/
theorem Follows.swept (h : Follows threshold history now g) (hle : now ≤ later) :
    Follows threshold history later
      { g with windows := g.windows.filter fun w => later < w.2 } := by
  constructor
  case wide => exact h.wide
  case sound => exact h.sound
  case apart => exact h.apart.sublist (List.filter_sublist.map Prod.fst)
  case spaced => exact h.spaced
  case last =>
    intro id reopens hfound
    rw [lookup_filter h.apart, Option.filter_eq_some_iff] at hfound
    exact h.last id reopens hfound.1
  case lapsed =>
    intro id hnone
    rw [lookup_filter h.apart] at hnone
    cases hfound : g.windows.lookup id with
    | none => exact (h.mono hle).lapsed id hfound
    | some reopens =>
        -- a window that is gone was over, and so were the passes before its own
        obtain ⟨s, hs, rfl⟩ := h.last id reopens hfound
        rw [hfound, Option.filter_some_eq_none, decide_eq_true_iff] at hnone
        intro t ht
        have hmost := h.le_last hs ht
        exact Nat.le_trans (Nat.add_le_add_right hmost threshold) (Nat.le_of_not_lt hnone)

/-- The guard follows the history from one call to the next. -/
theorem Follows.handled (h : Follows threshold history now g) {c : GuardCall} (hle : now ≤ c.now)
    (hroom : ∀ now id, c = .test now id → now + threshold ≤ Instant.last) :
    Follows threshold (history ++ [(c, (g.handle c).1)]) c.now (g.handle c).2 := by
  cases c with
  | test later id =>
      replace hle : now ≤ later := hle
      rw [handle]
      rcases h.test_cases hle (hroom later id rfl) id with ⟨hover, htest⟩ | ⟨-, htest⟩
      · rw [htest]
        exact h.passed hle hover
      · rw [htest]
        exact (h.mono hle).same fun _ => rfl
  | sweep later =>
      rw [handle, sweep_eq h.sound]
      refine (h.swept hle).same ?_
      intro id
      rfl

/-! ## Many calls -/

theorem Orderly.of_append {more : List GuardCall} (h : Orderly threshold (calls ++ more)) :
    Orderly threshold calls where
  forward := (List.pairwise_append.mp h.forward).1
  room := fun now id hmem => h.room now id (List.mem_append_left _ hmem)

theorem Orderly.le_of_append {c d : GuardCall} {more : List GuardCall}
    (h : Orderly threshold (calls ++ c :: more)) (hd : d ∈ calls) : d.now ≤ c.now :=
  (List.pairwise_append.mp h.forward).2.2 d hd c List.mem_cons_self

/-- A guard that is asked from the beginning follows the history. -/
theorem follows_after (h : Orderly threshold calls) (hpast : ∀ c ∈ calls, c.now ≤ now) :
    Follows threshold ((fresh threshold).transcript calls) now ((fresh threshold).after calls) := by
  induction calls using List.reverseRecOn generalizing now with
  | nil => exact follows_fresh threshold now
  | append_singleton calls c ih =>
      have hbefore := ih h.of_append fun d hd => h.le_of_append hd
      have hstep := hbefore.handled (c := c) (Nat.le_refl _) fun now id hc =>
        h.room now id (List.mem_append_right _ (hc ▸ List.mem_singleton_self _))
      rw [transcript_append, after_append]
      exact hstep.mono (hpast c (List.mem_append_right _ (List.mem_singleton_self c)))

/-! ## What follows from the history -/

theorem Follows.verdict (h : Follows threshold history now g) (hle : now ≤ later)
    (hroom : later + threshold ≤ Instant.last) (id : String) :
    ((g.test later id).1 = .accepted ↔ ¬ ∃ s ∈ passes id history, later < s + threshold) ∧
    ((g.test later id).1 = .suppressed ↔ ∃ s ∈ passes id history, later < s + threshold) := by
  rcases h.test_cases hle hroom id with ⟨hover, htest⟩ | ⟨hlate, htest⟩
  · have hnone : ¬ ∃ s ∈ passes id history, later < s + threshold := by
      rintro ⟨s, hs, hlate⟩
      exact Nat.not_lt.mpr (hover s hs) hlate
    rw [htest]
    exact ⟨iff_of_true rfl hnone, iff_of_false (fun h => nomatch h) hnone⟩
  · rw [htest]
    exact ⟨iff_of_false (fun h => nomatch h) (not_not_intro hlate), iff_of_true rfl hlate⟩

/-- The answer to a test depends on the passes of its id only. -/
theorem Follows.test_congr {history' : GuardHistory} {g' : RepeatGuard}
    (h : Follows threshold history now g) (h' : Follows threshold history' now g')
    (hle : now ≤ later) (hroom : later + threshold ≤ Instant.last) {id : String}
    (hpasses : passes id history = passes id history') :
    (g.test later id).1 = (g'.test later id).1 := by
  have hverdict := h'.verdict hle hroom id
  rw [← hpasses] at hverdict
  rcases h.test_cases hle hroom id with ⟨hover, htest⟩ | ⟨hlate, htest⟩
  · rw [htest]
    refine (hverdict.1.mpr ?_).symm
    rintro ⟨s, hs, hlate⟩
    exact Nat.not_lt.mpr (hover s hs) hlate
  · rw [htest]
    exact (hverdict.2.mpr hlate).symm

theorem Orderly.filter (h : Orderly threshold calls) (keep : GuardCall → Bool) :
    Orderly threshold (calls.filter keep) where
  forward := h.forward.sublist List.filter_sublist
  room := fun now id hmem => h.room now id (List.mem_filter.mp hmem).1

/-- Leaving out calls that are not for an id leaves its passes. -/
theorem passes_filter {among : String → Bool} {id : String} (hid : among id = true)
    (history : GuardHistory) :
    passes id (history.filter fun e => e.1.asksFor among) = passes id history := by
  induction history with
  | nil => rfl
  | cons e history ih =>
      have hsplit : ∀ rest : GuardHistory,
          passes id (e :: rest) = passes id [e] ++ passes id rest :=
        fun rest => passes_append id [e] rest
      rw [hsplit history, ← ih]
      by_cases hasks : e.1.asksFor among = true
      · rw [List.filter_cons, if_pos hasks, hsplit]
      · rw [List.filter_cons, if_neg hasks]
        -- a call for no such id is no pass of this one
        have hnone : passes id [e] = [] := by
          obtain ⟨c, a⟩ := e
          cases c with
          | sweep now => rfl
          | test now i =>
              have hne : i ≠ id := fun hi => hasks (hi ▸ hid)
              cases a with
              | removed count => rfl
              | verdict v =>
                  cases v with
                  | accepted => rw [passes_accepted, if_neg hne]
                  | _ => rfl
        rw [hnone, List.nil_append]

/-- Leaving out sweeps and calls for other ids leaves every answer. -/
theorem transcript_filter (h : Orderly threshold calls) (among : String → Bool) :
    ((fresh threshold).transcript calls).filter (fun e => e.1.asksFor among)
      = (fresh threshold).transcript (calls.filter (·.asksFor among)) := by
  induction calls using List.reverseRecOn with
  | nil => rfl
  | append_singleton calls c ih =>
      have ihcalls := ih h.of_append
      rw [transcript_append, List.filter_append, List.filter_append, transcript_append, ihcalls]
      refine congrArg ((fresh threshold).transcript (calls.filter (·.asksFor among)) ++ ·) ?_
      by_cases hasks : c.asksFor among = true
      · cases c with
        | sweep now => cases hasks
        | test now id =>
            have hpast := fun d hd => h.le_of_append (c := .test now id) (d := d) hd
            have hfollows := follows_after h.of_append hpast
            have hfollows' := follows_after (h.of_append.filter (·.asksFor among))
              fun d hd => hpast d (List.mem_filter.mp hd).1
            have hroom := h.room now id (List.mem_append_right _ (List.mem_singleton_self _))
            have hid : among id = true := hasks
            have hpasses := passes_filter hid ((fresh threshold).transcript calls)
            rw [ihcalls] at hpasses
            have hsame := hfollows.test_congr hfollows' (Nat.le_refl _) hroom hpasses.symm
            rw [transcript, List.filter_cons, if_pos hasks, List.filter_cons, if_pos hasks,
              List.filter_nil]
            exact congrArg (fun v => [(GuardCall.test now id, GuardAnswer.verdict v)]) hsame
      · rw [transcript, List.filter_cons, if_neg hasks, List.filter_cons, if_neg hasks]
        rfl

/-! ## The windows of a sequence of calls -/

/-- A pass is the answer to a call. -/
theorem mem_of_mem_passes {g : RepeatGuard} {id : String} {s : Instant}
    (h : s ∈ passes id (g.transcript calls)) : .test s id ∈ calls := by
  induction calls generalizing g with
  | nil => cases h
  | cons c calls ih =>
      have hsplit : passes id (g.transcript (c :: calls))
          = passes id [(c, (g.handle c).1)] ++ passes id ((g.handle c).2.transcript calls) :=
        passes_append id [_] _
      rw [hsplit] at h
      rcases List.mem_append.mp h with h | h
      · cases c with
        | sweep now => cases h
        | test now i =>
            rw [handle] at h
            cases hv : (g.test now i).1 with
            | accepted =>
                rw [hv, passes_accepted] at h
                split at h
                · rename_i hi
                  rw [List.mem_singleton.mp h, hi]
                  exact List.mem_cons_self
                · cases h
            | _ =>
                rw [hv] at h
                cases h
      · exact List.mem_cons_of_mem c (ih h)

/-- What a guard makes of a sequence of calls, said by their history alone. -/
structure KeepsWindows (threshold : Nat) (calls : List GuardCall) : Prop where
  /-- An id is suppressed if one of its passes reaches up to now, and is let
  through otherwise. -/
  tests : ∀ before now id rest, calls = before ++ .test now id :: rest →
    ((((fresh threshold).after before).test now id).1 = .accepted ↔
      ¬ ∃ s ∈ passes id ((fresh threshold).transcript before), now < s + threshold) ∧
    ((((fresh threshold).after before).test now id).1 = .suppressed ↔
      ∃ s ∈ passes id ((fresh threshold).transcript before), now < s + threshold)
  /-- The passes of an id are at least a window apart. -/
  apart : ∀ id, (passes id ((fresh threshold).transcript calls)).Pairwise fun s t =>
    s + threshold ≤ t
  /-- Of any calls for an id that fall into one window which no earlier pass
  reaches into, exactly one is let through. -/
  winner : ∀ before inside rest id opens, calls = before ++ inside ++ rest →
    (∃ now, .test now id ∈ inside) →
    (∀ now, .test now id ∈ inside → opens ≤ now ∧ now < opens + threshold) →
    (∀ s ∈ passes id ((fresh threshold).transcript before), s + threshold ≤ opens) →
    ∃ now, passes id (((fresh threshold).after before).transcript inside) = [now]
  /-- Calls with the same tests for some ids have the same answers to these,
  whatever sweeps and tests for other ids come in between. -/
  others : ∀ (among : String → Bool) calls', Orderly threshold calls' →
    calls'.filter (·.asksFor among) = calls.filter (·.asksFor among) →
    ((fresh threshold).transcript calls').filter (fun e => e.1.asksFor among)
      = ((fresh threshold).transcript calls).filter fun e => e.1.asksFor among
  /-- A sweep removes the ids whose last pass was a window ago and says how many
  they are; every id that is kept was let through, and those in a window are. -/
  sweeps : ∀ before now rest, calls = before ++ .sweep now :: rest →
    ((fresh threshold).after before).tracked.Nodup ∧
    (∀ id ∈ ((fresh threshold).after before).tracked,
      passes id ((fresh threshold).transcript before) ≠ []) ∧
    (∀ id, (∃ s ∈ passes id ((fresh threshold).transcript before), now < s + threshold) →
      id ∈ ((fresh threshold).after before).tracked) ∧
    (((fresh threshold).after before).sweep now).1
      = .ok (((fresh threshold).after before).tracked.countP fun id =>
          isOver threshold now (passes id ((fresh threshold).transcript before))) ∧
    (((fresh threshold).after before).sweep now).2.tracked
      = ((fresh threshold).after before).tracked.filter fun id =>
          !isOver threshold now (passes id ((fresh threshold).transcript before))

theorem verdict_of_orderly (h : Orderly threshold calls) {before rest : List GuardCall}
    {now : Instant} {id : String} (hsplit : calls = before ++ .test now id :: rest) :
    ((((fresh threshold).after before).test now id).1 = .accepted ↔
      ¬ ∃ s ∈ passes id ((fresh threshold).transcript before), now < s + threshold) ∧
    ((((fresh threshold).after before).test now id).1 = .suppressed ↔
      ∃ s ∈ passes id ((fresh threshold).transcript before), now < s + threshold) := by
  subst hsplit
  have hroom := h.room now id (List.mem_append_right _ List.mem_cons_self)
  exact (follows_after h.of_append fun c hc => h.le_of_append hc).verdict (Nat.le_refl _) hroom id

theorem passes_apart (h : Orderly threshold calls) (id : String) :
    (passes id ((fresh threshold).transcript calls)).Pairwise fun s t => s + threshold ≤ t := by
  induction calls using List.reverseRecOn with
  | nil => exact List.Pairwise.nil
  | append_singleton calls c ih =>
      have hpast : ∀ d ∈ calls ++ [c], d.now ≤ c.now := by
        intro d hd
        rcases List.mem_append.mp hd with hd | hd
        · exact h.le_of_append hd
        · exact Nat.le_of_eq (congrArg GuardCall.now (List.mem_singleton.mp hd))
      exact (follows_after h hpast).spaced id

theorem exists_winner (h : Orderly threshold calls) {before inside rest : List GuardCall}
    {id : String} {opens : Instant} (hsplit : calls = before ++ inside ++ rest)
    (hasked : ∃ now, .test now id ∈ inside)
    (hinside : ∀ now, .test now id ∈ inside → opens ≤ now ∧ now < opens + threshold)
    (hbefore : ∀ s ∈ passes id ((fresh threshold).transcript before), s + threshold ≤ opens) :
    ∃ now, passes id (((fresh threshold).after before).transcript inside) = [now] := by
  have hwindow : ∀ s ∈ passes id (((fresh threshold).after before).transcript inside),
      opens ≤ s ∧ s < opens + threshold := fun s hs => hinside s (mem_of_mem_passes hs)
  rw [hsplit] at h
  have hapart := passes_apart h.of_append id
  rw [transcript_append, passes_append] at hapart
  cases hpasses : passes id (((fresh threshold).after before).transcript inside) with
  | nil =>
      -- with no pass before it, a call would have been let through
      obtain ⟨now, hmem⟩ := hasked
      obtain ⟨first, last, rfl⟩ := List.append_of_mem hmem
      have hempty := hpasses
      rw [transcript_append, passes_append, List.append_eq_nil_iff] at hempty
      have hsplit' : before ++ (first ++ .test now id :: last) ++ rest
          = (before ++ first) ++ .test now id :: (last ++ rest) := by
        simp only [List.append_assoc, List.cons_append]
      have hverdict := (verdict_of_orderly h hsplit').1
      rw [transcript_append, passes_append, hempty.1, List.append_nil, after_append] at hverdict
      have haccepted := hverdict.mpr (by
        rintro ⟨s, hs, hlate⟩
        have hopens := Nat.le_trans (hbefore s hs) (hinside now hmem).1
        exact Nat.not_lt.mpr hopens hlate)
      have hpass := hempty.2
      rw [transcript, handle, haccepted] at hpass
      rw [show ∀ e history, passes id (e :: history) = passes id [e] ++ passes id history from
        fun e history => passes_append id [e] history, passes_accepted, if_pos rfl] at hpass
      cases hpass
  | cons s more =>
      rw [hpasses] at hwindow hapart
      cases more with
      | nil => exact ⟨s, rfl⟩
      | cons t more =>
          -- a second pass would be a window later
          have hgap := List.rel_of_pairwise_cons (List.pairwise_append.mp hapart).2.1
            (List.mem_cons_self (a := t) (l := more))
          have hs := hwindow s List.mem_cons_self
          have ht := hwindow t (List.mem_cons_of_mem s List.mem_cons_self)
          have hlate := Nat.le_trans (Nat.add_le_add_right hs.1 threshold) hgap
          exact absurd ht.2 (Nat.not_lt.mpr hlate)

/-- Of the ids on hand, a sweep takes those whose last pass was a window ago. -/
theorem Follows.sweep_tracked (h : Follows threshold history now g) (later : Instant) :
    (g.sweep later).1
      = .ok (g.tracked.countP fun id => isOver threshold later (passes id history)) ∧
    (g.sweep later).2.tracked
      = g.tracked.filter fun id => !isOver threshold later (passes id history) := by
  have hover : ∀ w ∈ g.windows,
      (!decide (later < w.2)) = isOver threshold later (passes w.1 history) := by
    intro w hw
    obtain ⟨s, hs, hreopens⟩ := h.last w.1 w.2 ((mem_iff_lookup h.apart).mp hw)
    rw [isOver, hs, hreopens, ← decide_not]
    exact decide_eq_decide.mpr Nat.not_lt
  rw [sweep_eq h.sound, tracked, tracked, List.countP_map, List.filter_map]
  refine ⟨congrArg Except.ok (List.countP_congr fun w hw => ?_),
    congrArg (List.map Prod.fst) (List.filter_congr fun w hw => ?_)⟩
  · rw [Function.comp_apply, hover w hw]
  · rw [Function.comp_apply, ← hover w hw, Bool.not_not]

/-- A guard that is asked from the beginning answers by the history of calls. -/
theorem one_pass_per_window (threshold : Nat) (calls : List GuardCall)
    (h : Orderly threshold calls) : KeepsWindows threshold calls := by
  constructor
  case tests => exact fun before now id rest hsplit => verdict_of_orderly h hsplit
  case apart => exact passes_apart h
  case winner =>
    intro before inside rest id opens hsplit hasked hinside hbefore
    exact exists_winner h hsplit hasked hinside hbefore
  case others =>
    intro among calls' h' hsame
    rw [transcript_filter h', transcript_filter h, hsame]
  case sweeps =>
    intro before now rest hsplit
    subst hsplit
    have hfollows := follows_after h.of_append fun c hc => h.le_of_append hc
    obtain ⟨hcount, hkept⟩ := hfollows.sweep_tracked now
    refine ⟨hfollows.apart, ?_, ?_, hcount, hkept⟩
    · -- the window on hand is that of a last pass
      intro id hid hnone
      obtain ⟨reopens, hfound⟩ := (mem_tracked_iff hfollows.apart).mp hid
      obtain ⟨s, hs, -⟩ := hfollows.last id reopens hfound
      rw [hnone] at hs
      cases hs
    · rintro id ⟨s, hs, hlate⟩
      refine (mem_tracked_iff hfollows.apart).mpr (Option.ne_none_iff_exists'.mp fun hnone => ?_)
      exact Nat.not_lt.mpr (hfollows.lapsed id hnone s hs) hlate

/-- Two ids are asked for in windows of two nanoseconds, one of them at the very
    end of its window and after a sweep. -/
theorem one_pass_per_window_of_two :
    Orderly 2 [.test 0 "a", .test 1 "a", .test 1 "b", .sweep 2, .test 2 "a", .test 2 "b"] ∧
    KeepsWindows 2 [.test 0 "a", .test 1 "a", .test 1 "b", .sweep 2, .test 2 "a", .test 2 "b"] ∧
    passes "a" ((fresh 2).transcript
      [.test 0 "a", .test 1 "a", .test 1 "b", .sweep 2, .test 2 "a", .test 2 "b"]) = [0, 2] ∧
    passes "b" ((fresh 2).transcript
      [.test 0 "a", .test 1 "a", .test 1 "b", .sweep 2, .test 2 "a", .test 2 "b"]) = [1] := by
  have horderly : Orderly 2
      [.test 0 "a", .test 1 "a", .test 1 "b", .sweep 2, .test 2 "a", .test 2 "b"] := by
    refine ⟨by decide, fun now id hmem => ?_⟩
    have hsmall : now ≤ 2 := by
      simp only [List.mem_cons, GuardCall.test.injEq, reduceCtorEq, List.not_mem_nil] at hmem
      rcases hmem with ⟨rfl, -⟩ | ⟨rfl, -⟩ | ⟨rfl, -⟩ | h | ⟨rfl, -⟩ | ⟨rfl, -⟩ | h
      all_goals first | decide | cases h
    exact Nat.le_trans (Nat.add_le_add_right hsmall 2) (by decide)
  exact ⟨horderly, one_pass_per_window 2 _ horderly, by decide, by decide⟩

end RepeatGuard

end ContentVault
