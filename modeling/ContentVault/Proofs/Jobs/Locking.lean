import ContentVault.Proofs.Jobs.Shifts

/-! # One run of a job at a time

    Of a job there is never more than one run in progress, and its lock is held exactly
    while there is one (`Locked`).  A step of an activity leaves the lock of a job alone,
    takes it when it is free, or gives it back (`LockMove`), whatever way a run ends; so
    this is kept by every event, and a run is turned away only by another one of its own
    job (`turned_away`). -/

namespace ContentVault

/-- Whether this is a run of a job that is in progress, so that it has the lock. -/
def Activity.holds (job : Job) : Activity → Bool
  | run own stage => decide (own = job) && stage.holds
  | _ => false

/-- Whether a run is at a stage that is one of its job. -/
def Activity.IsSound : Activity → Prop
  | run job stage => stage.Fits job
  | _ => True

/-- All that a step of an activity can do with the lock of a job. -/
inductive LockMove (job : Job) (a b : Activity) (l m : RunLocks) : Prop where
  | spared (hholds : b.holds job = a.holds job) (hlock : (m.get job).held = (l.get job).held)
  | taken (hfree : (l.get job).held = false) (hafter : b.holds job = true)
      (hheld : (m.get job).held = true)
  | given (hbefore : a.holds job = true) (hafter : b.holds job = false)
      (hfree : (m.get job).held = false)

namespace Activity

variable {σ ν : Type} {own job : Job} {stage next : RunStage} {w v : JobState σ BlobStore ν}

theorem holds_run : (run own stage).holds job = (decide (own = job) && stage.holds) := rfl

theorem holds_run_self : (run job stage).holds job = stage.holds := by
  rw [holds_run, decide_eq_true rfl, Bool.true_and]

theorem holds_run_of_ne (h : job ≠ own) : (run own stage).holds job = false := by
  rw [holds_run, decide_eq_false h.symm, Bool.false_and]

theorem holds_run_congr (h : next.holds = stage.holds) :
    (run own next).holds job = (run own stage).holds job := by
  rw [holds_run, holds_run, h]

/-- Nothing that is called for has a lock from the beginning. -/
theorem holds_order (order : Order) (job : Job) : order.activity.holds job = false := by
  cases order with
  | run own => exact Bool.and_false _
  | _ => rfl

/-- A run that gives its lock back gives no other one back. -/
theorem lockMove_release (hstage : stage.holds = true) (hnext : next.holds = false)
    (hlocks : v.locks = w.locks) (job : Job) :
    LockMove job (run own stage) (run own next) w.locks (Caretaker.release own v).locks := by
  by_cases hjob : job = own
  · subst hjob
    refine .given (holds_run_self.trans hstage) (holds_run_self.trans hnext) ?_
    rw [Caretaker.release, RunLocks.get_set_self]
    rfl
  · refine .spared ((holds_run_of_ne hjob).trans (holds_run_of_ne hjob).symm) ?_
    rw [Caretaker.release, RunLocks.get_set_of_ne _ _ hjob, hlocks]

end Activity

open Activity

section

variable {σ ν : Type} [NotaryService ν] {own : Job} {stage next : RunStage}
  {w v : JobState σ BlobStore ν}

theorem RunMove.fits (h : RunMove own w stage next v) (hfits : stage.Fits own) : next.Fits own := by
  cases h with
  | worked _ _ _ hnext => exact hnext
  | surveyed hjob => exact hjob
  | submitted => exact hfits
  | declined => exact hfits
  | answered => exact hfits
  | recorded => exact hfits
  | unrecorded => exact hfits
  | stayed => exact hfits
  | _ => trivial

theorem RunMove.lockMove (h : RunMove own w stage next v) (job : Job) :
    LockMove job (.run own stage) (.run own next) w.locks v.locks := by
  cases h with
  | refused => exact .spared (holds_run_congr rfl) rfl
  | begun hfree =>
      by_cases hjob : job = own
      · subst hjob
        refine .taken hfree (holds_run_self.trans rfl) ?_
        rw [RunLocks.get_set_self]
      · refine .spared ((holds_run_of_ne hjob).trans (holds_run_of_ne hjob).symm) ?_
        rw [RunLocks.get_set_of_ne _ _ hjob]
  | worked _ hstage hnext _ hspares =>
      refine .spared (holds_run_congr (hnext.trans hstage.symm)) ?_
      rw [hspares.locks]
  | ended outcome hstage _ hspares => exact lockMove_release hstage rfl hspares.locks job
  | stayed => exact .spared rfl rfl
  | _ => exact .spared (holds_run_congr rfl) rfl

variable [ContentOrigin σ]

theorem Activity.IsSound.advance {a : Activity} (h : a.IsSound) (c : Caretaker) (tick : Tick)
    (w : JobState σ BlobStore ν) : (c.advanceActivity tick a w).1.IsSound := by
  cases a with
  | run job stage => exact (c.moves_advanceRun tick h w).fits h
  | _ => trivial

theorem Activity.IsSound.lockMove {a : Activity} (h : a.IsSound) (c : Caretaker) (tick : Tick)
    (w : JobState σ BlobStore ν) (job : Job) :
    LockMove job a (c.advanceActivity tick a w).1 w.locks (c.advanceActivity tick a w).2.locks := by
  cases a with
  | run own stage => exact (c.moves_advanceRun tick h w).lockMove job
  | item e =>
      refine .spared rfl ?_
      rw [Caretaker.advanceActivity, (c.spares_advance tick.now e.id e.stage w).locks]
  | archive call stage => exact .spared rfl rfl
  | restore call stage => exact .spared rfl rfl

omit [NotaryService ν] [ContentOrigin σ] in
/-- A run that nobody waits for any more is none in progress. -/
theorem Activity.leave_cases (a : Activity) (w : JobState σ BlobStore ν) :
    Caretaker.leaveActivity a w = (a, w) ∨
    ∃ job stage, a = .run job stage ∧ Caretaker.leaveActivity a w
      = (.run job .abandoned, if stage.holds then Caretaker.release job w else w) := by
  cases a with
  | run job stage =>
      cases stage with
      | ended outcome => exact Or.inl rfl
      | _ => exact Or.inr ⟨job, _, rfl, rfl⟩
  | _ => exact Or.inl rfl

omit [NotaryService ν] [ContentOrigin σ] in
/-- Nothing but a lock changes when nobody waits for something any more. -/
theorem Activity.world_leave (a : Activity) (w : JobState σ BlobStore ν) :
    (Caretaker.leaveActivity a w).2
      = { w with locks := (Caretaker.leaveActivity a w).2.locks } := by
  rcases a.leave_cases w with hsame | ⟨job, stage, -, hleft⟩
  · rw [hsame]
  · rw [hleft]
    cases stage.holds <;> rfl

omit [NotaryService ν] [ContentOrigin σ] in
theorem Activity.IsSound.leave {a : Activity} (h : a.IsSound) (w : JobState σ BlobStore ν) :
    (Caretaker.leaveActivity a w).1.IsSound := by
  rcases a.leave_cases w with hsame | ⟨job, stage, -, hleft⟩
  · rw [hsame]
    exact h
  · rw [hleft]
    trivial

omit [NotaryService ν] [ContentOrigin σ] in
theorem Activity.lockMove_leave (a : Activity) (w : JobState σ BlobStore ν) (job : Job) :
    LockMove job a (Caretaker.leaveActivity a w).1 w.locks
      (Caretaker.leaveActivity a w).2.locks := by
  rcases a.leave_cases w with hsame | ⟨own, stage, rfl, hleft⟩
  · rw [hsame]
    exact .spared rfl rfl
  · rw [hleft]
    cases hstage : stage.holds with
    | true => exact lockMove_release hstage rfl rfl job
    | false => exact .spared (holds_run_congr hstage.symm) rfl

end

/-! ## Runs in progress -/

namespace Shift

variable {σ ν : Type} {s : Shift σ ν} {i j : Nat} {a : Activity} {job : Job}
  {reached : Activity × JobState σ BlobStore ν}

/-- Whether the `i`-th activity is a run of a job that is in progress. -/
def InProgress (s : Shift σ ν) (i : Nat) (job : Job) : Prop :=
  ∃ stage, s.Has i (.run job stage) ∧ stage.holds = true

/-- Whether a run of a job is in progress. -/
def Running (s : Shift σ ν) (job : Job) : Prop := ∃ i, s.InProgress i job

theorem Has.inProgress_iff (h : s.Has i a) : s.InProgress i job ↔ a.holds job = true := by
  constructor
  · rintro ⟨stage, hstage, hholds⟩
    rw [h.unique hstage, holds_run_self]
    exact hholds
  · intro hholds
    cases a with
    | run own stage =>
        rw [holds_run, Bool.and_eq_true, decide_eq_true_eq] at hholds
        obtain ⟨rfl, hstage⟩ := hholds
        exact ⟨stage, h, hstage⟩
    | _ => cases hholds

theorem inProgress_moved_of_ne (hne : j ≠ i) :
    (s.moved i reached).InProgress j job ↔ s.InProgress j job := by
  constructor
  · rintro ⟨stage, hstage, hholds⟩
    rcases has_of_moved hstage with ⟨hj, -⟩ | ⟨-, h⟩
    · exact absurd hj hne
    · exact ⟨stage, h, hholds⟩
  · rintro ⟨stage, hstage, hholds⟩
    exact ⟨stage, hstage.moved_of_ne hne, hholds⟩

theorem inProgress_joined (order : Order) :
    (s.joined order).InProgress i job ↔ s.InProgress i job := by
  constructor
  · rintro ⟨stage, hstage, hholds⟩
    rcases has_of_joined hstage with h | h
    · exact ⟨stage, h, hholds⟩
    · have hnone := holds_order order job
      rw [← h, holds_run_self, hholds] at hnone
      cases hnone
  · rintro ⟨stage, hstage, hholds⟩
    exact ⟨stage, hstage.joined, hholds⟩

/-- The locks are held by the runs in progress, at most one of each job. -/
structure Locked (s : Shift σ ν) : Prop where
  sound : ∀ i a, s.Has i a → a.IsSound
  single : ∀ job i j, s.InProgress i job → s.InProgress j job → i = j
  held : ∀ job, (s.world.locks.get job).held = true ↔ s.Running job

namespace Locked

theorem not_running (h : Locked s) (hfree : (s.world.locks.get job).held = false) :
    ¬ s.Running job := fun hrunning => Bool.eq_false_iff.mp hfree ((h.held job).mpr hrunning)

/-- Which runs of a job are in progress after a step: those that were, the one that goes
    on, or none. -/
theorem inProgress_moved (h : Locked s) (ha : s.Has i a)
    (hmove : LockMove job a reached.1 s.world.locks reached.2.locks) :
    ((∀ j, (s.moved i reached).InProgress j job ↔ s.InProgress j job) ∧
      (reached.2.locks.get job).held = (s.world.locks.get job).held) ∨
    ((∀ j, (s.moved i reached).InProgress j job ↔ j = i) ∧ ¬ s.Running job ∧
      (reached.2.locks.get job).held = true) ∨
    ((∀ j, ¬ (s.moved i reached).InProgress j job) ∧
      (reached.2.locks.get job).held = false) := by
  have hself : (s.moved i reached).InProgress i job ↔ reached.1.holds job = true :=
    ha.moved_self.inProgress_iff
  cases hmove with
  | spared hholds hlock =>
      refine Or.inl ⟨fun j => ?_, hlock⟩
      by_cases hj : j = i
      · subst hj
        rw [hself, hholds, ha.inProgress_iff]
      · exact inProgress_moved_of_ne hj
  | taken hfree hafter hheld =>
      -- a lock is taken only while no run has it
      have hnot := h.not_running hfree
      refine Or.inr (Or.inl ⟨fun j => ?_, hnot, hheld⟩)
      by_cases hj : j = i
      · subst hj
        exact iff_of_true (hself.mpr hafter) rfl
      · exact iff_of_false (fun hin => hnot ⟨j, (inProgress_moved_of_ne hj).mp hin⟩) hj
  | given hbefore hafter hfree =>
      refine Or.inr (Or.inr ⟨fun j hin => ?_, hfree⟩)
      by_cases hj : j = i
      · subst hj
        exact Bool.eq_false_iff.mp hafter (hself.mp hin)
      · -- the one that gave its lock back was the only one
        have hi : s.InProgress i job := ha.inProgress_iff.mpr hbefore
        exact hj (h.single job j i ((inProgress_moved_of_ne hj).mp hin) hi)

theorem moved (h : Locked s) (ha : s.Has i a) (hsound : reached.1.IsSound)
    (hmove : ∀ job, LockMove job a reached.1 s.world.locks reached.2.locks) :
    Locked (s.moved i reached) where
  sound := by
    intro j b hb
    rcases has_of_moved hb with ⟨-, rfl⟩ | ⟨-, hb⟩
    · exact hsound
    · exact h.sound j b hb
  single := by
    intro job j k hj hk
    rcases h.inProgress_moved ha (hmove job) with ⟨hiff, -⟩ | ⟨hiff, -⟩ | ⟨hnone, -⟩
    · exact h.single job j k ((hiff j).mp hj) ((hiff k).mp hk)
    · exact ((hiff j).mp hj).trans ((hiff k).mp hk).symm
    · exact absurd hj (hnone j)
  held := by
    intro job
    rcases h.inProgress_moved ha (hmove job) with ⟨hiff, hlock⟩ | ⟨hiff, -, hlock⟩ | ⟨hnone, hlock⟩
    · exact (hlock ▸ h.held job).trans (exists_congr fun j => (hiff j).symm)
    · exact iff_of_true hlock ⟨i, (hiff i).mpr rfl⟩
    · exact iff_of_false (Bool.eq_false_iff.mp hlock) fun ⟨j, hj⟩ => hnone j hj

variable [ContentOrigin σ] [NotaryService ν] {c : Caretaker}

theorem step (h : Locked s) (event : ShiftEvent σ ν) : Locked (Shift.step c s event) := by
  have hchange := Shift.change_step c s event
  generalize Shift.step c s event = t at hchange
  cases hchange with
  | joined order =>
      refine ⟨fun i a ha => ?_, fun job i j hi hj => ?_, fun job => ?_⟩
      · rcases has_of_joined ha with ha | rfl
        · exact h.sound i a ha
        · cases order <;> trivial
      · exact h.single job i j ((inProgress_joined order).mp hi) ((inProgress_joined order).mp hj)
      · exact (h.held job).trans (exists_congr fun i => (inProgress_joined order).symm)
  | worked tick ha =>
      have hsound := h.sound _ _ ha
      exact h.moved ha (hsound.advance c tick s.world) (hsound.lockMove c tick s.world)
  | left ha =>
      exact h.moved ha ((h.sound _ _ ha).leave s.world) (Activity.lockMove_leave _ s.world)
  | idle => exact h
  | changed outside => exact ⟨h.sound, h.single, h.held⟩

end Locked

variable [ContentOrigin σ] [NotaryService ν] {c : Caretaker} {w : JobState σ BlobStore ν}

theorem locked_run (hfree : ∀ job, (w.locks.get job).held = false)
    (events : List (ShiftEvent σ ν)) : Locked (run c w events) := by
  induction events using List.reverseRecOn with
  | nil =>
      refine ⟨fun i a ha => ?_, fun job i j hi => ?_, fun job => ?_⟩
      · cases ha
      · obtain ⟨stage, hstage, -⟩ := hi
        cases hstage
      · exact iff_of_false (Bool.eq_false_iff.mp (hfree job)) fun ⟨i, stage, hi, _⟩ => nomatch hi
  | append_singleton events event ih =>
      rw [run_concat]
      exact ih.step event

/-! ## Runs that begin and runs that are turned away -/

/-- A run of a job that is in progress turns another one away, which leaves everything as
    it is. -/
theorem step_of_running (h : Locked s) (hi : s.Has i (.run job .called)) (hrunning : s.Running job)
    (tick : Tick) :
    step c s (.work i tick) = s.moved i (.run job (.ended .stillRunning), s.world) := by
  have hheld := (h.held job).mpr hrunning
  rw [step_work hi, Caretaker.advanceActivity, Caretaker.advanceRun,
    RunLock.acquire_eq_none_iff.mpr hheld]

/-- A run begins if none of its job is in progress, and all that it does is to take the
    lock. -/
theorem step_of_not_running (h : Locked s) (hi : s.Has i (.run job .called))
    (hfree : ¬ s.Running job) (tick : Tick) :
    step c s (.work i tick) = s.moved i (.run job .begun, { s.world with
      locks := s.world.locks.set job { s.world.locks.get job with held := true } }) := by
  have hnot : ¬ (s.world.locks.get job).held = true := fun hheld => hfree ((h.held job).mp hheld)
  rw [step_work hi, Caretaker.advanceActivity, Caretaker.advanceRun, RunLock.acquire, if_neg hnot]

/-- When a run has ended or was left, none of its job is in progress. -/
theorem not_running_of_ended (h : Locked s) (event : ShiftEvent σ ν) (hi : s.InProgress i job)
    (hend : ¬ (step c s event).InProgress i job) : ¬ (step c s event).Running job := by
  -- a step from which a run of the job is not in progress any more gave its lock back
  have hgiven : ∀ {k : Nat} {a : Activity} {reached : Activity × JobState σ BlobStore ν},
      s.Has k a → LockMove job a reached.1 s.world.locks reached.2.locks →
      ¬ (s.moved k reached).InProgress i job → ¬ (s.moved k reached).Running job := by
    intro k a reached ha hmove hnot
    rcases h.inProgress_moved ha hmove with ⟨hiff, -⟩ | ⟨-, hfree, -⟩ | ⟨hnone, -⟩
    · exact absurd ((hiff i).mpr hi) hnot
    · exact absurd ⟨i, hi⟩ hfree
    · exact fun ⟨j, hj⟩ => hnone j hj
  have hchange := change_step c s event
  generalize step c s event = t at hchange hend
  cases hchange with
  | joined order => exact absurd ((inProgress_joined order).mpr hi) hend
  | worked tick ha => exact hgiven ha ((h.sound _ _ ha).lockMove c tick s.world job) hend
  | left ha => exact hgiven ha (Activity.lockMove_leave _ s.world job) hend
  | idle => exact absurd hi hend
  | changed outside => exact absurd hi hend

/-- Only a step from the call, while another run is in progress, turns a run away. -/
theorem of_step_turned_away (h : Locked s) (event : ShiftEvent σ ν)
    (hi : (step c s event).Has i (.run job (.ended .stillRunning))) :
    s.Has i (.run job (.ended .stillRunning)) ∨
    ∃ tick, event = .work i tick ∧ s.Has i (.run job .called) ∧ s.Running job := by
  have hchange := change_step c s event
  generalize step c s event = t at hchange hi
  cases hchange with
  | joined order =>
      rcases has_of_joined hi with hi | horder
      · exact Or.inl hi
      · cases order <;> cases horder
  | @worked k a tick ha =>
      rcases has_of_moved hi with ⟨rfl, heq⟩ | ⟨-, hi⟩
      · cases a with
        | run own stage =>
            have hmoves := c.moves_advanceRun tick (h.sound _ _ ha) s.world
            obtain ⟨rfl, hnext⟩ := Activity.run.inj heq
            rw [← hnext] at hmoves
            generalize (c.advanceRun tick job stage s.world).2 = v at hmoves
            -- a run that has begun does not end as one that was turned away
            cases hmoves with
            | refused hheld => exact Or.inr ⟨tick, rfl, ha, (h.held job).mp hheld⟩
            | worked _ _ hnext => cases hnext
            | ended _ _ houtcome => exact absurd rfl houtcome
            | stayed => exact Or.inl ha
        | _ => cases heq
      · exact Or.inl hi
  | @left k a ha =>
      rcases has_of_moved hi with ⟨rfl, heq⟩ | ⟨-, hi⟩
      · rcases a.leave_cases s.world with hsame | ⟨own, stage, -, hleft⟩
        · rw [hsame] at heq
          exact Or.inl (heq ▸ ha)
        · rw [hleft] at heq
          cases heq
      · exact Or.inl hi
  | idle => exact Or.inl hi
  | changed outside => exact Or.inl hi

/-- A run was turned away by another one of its job, which was in progress. -/
theorem turned_away (hfree : ∀ job, (w.locks.get job).held = false)
    {events : List (ShiftEvent σ ν)}
    (hi : (run c w events).Has i (.run job (.ended .stillRunning))) :
    ∃ before tick later, events = before ++ .work i tick :: later ∧
      (run c w before).Has i (.run job .called) ∧ (run c w before).Running job := by
  induction events using List.reverseRecOn with
  | nil => cases hi
  | append_singleton events event ih =>
      rw [run_concat] at hi
      rcases of_step_turned_away (locked_run hfree events) event hi with
        hi | ⟨tick, rfl, hcalled, hj⟩
      · obtain ⟨before, tick, later, rfl, hcalled, hj⟩ := ih hi
        refine ⟨before, tick, later ++ [event], ?_, hcalled, hj⟩
        rw [List.append_assoc, List.cons_append]
      · exact ⟨events, tick, [], rfl, hcalled, hj⟩

end Shift

end ContentVault
