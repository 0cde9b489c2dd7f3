import ContentVault.Proofs.Jobs.Fates
import ContentVault.Proofs.Jobs.Runs
import ContentVault.Proofs.Repeats.Refusals
import Mathlib.Algebra.BigOperators.Group.Multiset.Basic

/-! # Items that are archived side by side

    Items that are under way together share the guard, the stores and the
    repository.  The first request for an id that the guard lets through closes
    the id for all that follow in the same window, so one errand at most gets to
    the repository (`Progress.Untaken.step`, `Progress.Taken.step`), and as
    nobody else touches the row of its id, it comes to the fate of the item.

    All that is seen of the items is in a log (`Caretaker.itemLog`), in the order
    in which it happens.  The errands that have ended and those under way are one
    multiset here, so that it does not matter in which order they end. -/

namespace ContentVault

/-! ## What is seen of items -/

/-- What happens to an item in a run of the archive job. -/
inductive ItemAct where
  /-- The guard is asked for it. -/
  | asked (id : String) (now : Instant)
  /-- The repository was asked for it and gave this. -/
  | answered (id : String) (answer : Attempt OfferedContent)
  /-- This came of it. -/
  | ended (id : String) (outcome : ItemOutcome)

namespace ItemAct

/-- The errand that has ended, if one has. -/
def errand? : ItemAct → Option Errand
  | ended id outcome => some ⟨id, .ended outcome⟩
  | _ => none

/-- When the guard was asked for an item. -/
def requests (id : String) (log : List ItemAct) : List Instant :=
  log.filterMap fun
    | asked other now => if other = id then some now else none
    | _ => none

/-- What the repository gave for an item. -/
def answers (id : String) (log : List ItemAct) : List (Attempt OfferedContent) :=
  log.filterMap fun
    | answered other answer => if other = id then some answer else none
    | _ => none

/-- What came of an item. -/
def outcomes (id : String) (log : List ItemAct) : List ItemOutcome :=
  log.filterMap fun
    | ended other outcome => if other = id then some outcome else none
    | _ => none

/-- What came of all items. -/
def allOutcomes (log : List ItemAct) : List ItemOutcome :=
  log.filterMap fun
    | ended _ outcome => some outcome
    | _ => none

theorem requests_append (id : String) (log more : List ItemAct) :
    requests id (log ++ more) = requests id log ++ requests id more := List.filterMap_append

theorem answers_append (id : String) (log more : List ItemAct) :
    answers id (log ++ more) = answers id log ++ answers id more := List.filterMap_append

end ItemAct

namespace Caretaker

variable {σ ν : Type} [ContentOrigin σ]

/-- What guard and repository see of a step of an errand. -/
def askActs (now : Instant) (e : Errand) (w : JobState σ BlobStore ν) : List ItemAct :=
  match e.stage with
  | .asked => [.asked e.id now]
  | .admitted => [.answered e.id (ContentOrigin.fetch w.origin e.id).1]
  | _ => []

/-- What is seen when an errand gets to a stage. -/
def endActs (id : String) : ErrandStage → List ItemAct
  | .ended outcome => [.ended id outcome]
  | _ => []

/-- What happens to an item when its errand gets to its next stage. -/
def itemActs (c : Caretaker) (now : Instant) (e : Errand) (w : JobState σ BlobStore ν) :
    List ItemAct :=
  askActs now e w ++ endActs e.id (c.advance now e.id e.stage w).1

/-- What happens to items in a step of a run. -/
def runActs (c : Caretaker) (tick : Tick) (stage : RunStage) (w : JobState σ BlobStore ν) :
    List ItemAct :=
  match stage, tick.item with
  | .archiving _ active _, some k =>
    match active[k]? with
    | some e => c.itemActs tick.now e w
    | none => []
  | _, _ => []

/-- What happens to items in a run of the archive job, step by step. -/
def itemLog [NotaryService ν] (c : Caretaker) :
    List Tick → RunStage × JobState σ BlobStore ν → List ItemAct
  | [], _ => []
  | tick :: ticks, reached =>
    c.runActs tick reached.1 reached.2
      ++ c.itemLog ticks (c.advanceRun tick .archive reached.1 reached.2)

end Caretaker

/-! ## One step of one errand -/

/-- Whether an errand has only begun. -/
def ErrandStage.isAsked : ErrandStage → Bool
  | asked => true
  | _ => false

namespace RepeatGuard

/-- Whether a guard would let a request through. -/
def admits (g : RepeatGuard) (now : Instant) (id : String) : Bool :=
  !g.poisoned && !g.isClosed now id

/-- What comes of an item that a guard does not let through. -/
def refusal (g : RepeatGuard) : ItemOutcome :=
  if g.poisoned then .failed .lock else .duplicateSuppressed

theorem isClosed_congr {g h : RepeatGuard} {id : String}
    (hsame : h.windows.lookup id = g.windows.lookup id) (now : Instant) :
    h.isClosed now id = g.isClosed now id := by
  rw [isClosed, isClosed, hsame]

end RepeatGuard

namespace Caretaker

variable {σ ν : Type} [ContentOrigin σ] {c : Caretaker} {now : Instant} {id : String}
  {stage : ErrandStage} {w : JobState σ BlobStore ν}

/-- What a step of an errand for an item does about everything else. -/
structure KeepsOff (id : String) (stage : ErrandStage) (w : JobState σ BlobStore ν)
    (reached : ErrandStage × JobState σ BlobStore ν) : Prop where
  others : ∀ other, other ≠ id → reached.2.row other = w.row other
  windows : ∀ other, other ≠ id →
    reached.2.guard.windows.lookup other = w.guard.windows.lookup other
  poisoned : reached.2.guard.poisoned = w.guard.poisoned
  threshold : reached.2.guard.threshold = w.guard.threshold
  rows : ∃ new, reached.2.rows = w.rows ++ new ∧ reached.1.created = stage.created + new.length

omit [ContentOrigin σ] in
theorem keepsOff_of_same {next : ErrandStage} {w' : JobState σ BlobStore ν}
    (hstores : w'.stores = w.stores)
    (hwindows : ∀ other, other ≠ id →
      w'.guard.windows.lookup other = w.guard.windows.lookup other)
    (hpoisoned : w'.guard.poisoned = w.guard.poisoned)
    (hthreshold : w'.guard.threshold = w.guard.threshold)
    (hcreated : next.created = stage.created) : KeepsOff id stage w (next, w') := by
  refine ⟨fun other _ => ?_, hwindows, hpoisoned, hthreshold, [], ?_, hcreated⟩
  · rw [JobState.row, JobState.row, hstores]
  · rw [JobState.rows, JobState.rows, hstores, List.append_nil]

variable (c now) in
/-- A step that is not cut short leaves everything else alone. -/
theorem keepsOff_advance (hof : stage.IsOf id)
    (hcut : (c.advance now id stage w).1 ≠ .ended .cutShort) :
    KeepsOff id stage w (c.advance now id stage w) := by
  cases hanswer : stage.hasAnswer with
  | true =>
      have h := c.abides_advance now (w := w) hanswer hof
      exact ⟨h.others, fun _ _ => by rw [h.guard], by rw [h.guard], by rw [h.guard], h.rows⟩
  | false =>
      cases stage with
      | asked =>
          rw [advance] at hcut ⊢
          rcases w.guard.test_cases now id with ⟨-, htest⟩ | ⟨-, -, htest⟩ | ⟨-, -, -, htest⟩
            | ⟨-, -, -, htest⟩
          · rw [htest]
            exact keepsOff_of_same rfl (fun _ _ => rfl) rfl rfl rfl
          · rw [htest]
            exact keepsOff_of_same rfl (fun _ _ => rfl) rfl rfl rfl
          · rw [htest]
            exact keepsOff_of_same rfl
              (fun _ hother => RepeatGuard.lookup_setWindow_of_ne hother _ _) rfl rfl rfl
          · rw [htest] at hcut
            exact absurd rfl hcut
      | admitted =>
          rw [advance]
          rcases ContentOrigin.fetch w.origin id with ⟨answer, origin⟩
          cases answer with
          | error e => exact keepsOff_of_same rfl (fun _ _ => rfl) rfl rfl rfl
          | ok content => exact keepsOff_of_same rfl (fun _ _ => rfl) rfl rfl rfl
      | _ => cases hanswer

/-! ### What is seen of a step -/

variable {e : Errand}

open ItemAct in
/-- The guard is asked at the first stage. -/
theorem requests_itemActs (c : Caretaker) (now : Instant) (e : Errand)
    (w : JobState σ BlobStore ν) (id : String) :
    requests id (c.itemActs now e w)
      = match e.stage with
        | .asked => if e.id = id then [now] else []
        | _ => [] := by
  have hend : requests id (endActs e.id (c.advance now e.id e.stage w).1) = [] := by
    cases (c.advance now e.id e.stage w).1 <;> rfl
  rw [itemActs, requests_append, hend, List.append_nil, askActs]
  cases e.stage with
  | asked => by_cases hid : e.id = id <;> simp [requests, hid]
  | _ => rfl

open ItemAct in
/-- The repository is asked at the second one. -/
theorem answers_itemActs (c : Caretaker) (now : Instant) (e : Errand)
    (w : JobState σ BlobStore ν) (id : String) :
    answers id (c.itemActs now e w)
      = match e.stage with
        | .admitted => if e.id = id then [(ContentOrigin.fetch w.origin e.id).1] else []
        | _ => [] := by
  have hend : answers id (endActs e.id (c.advance now e.id e.stage w).1) = [] := by
    cases (c.advance now e.id e.stage w).1 <;> rfl
  rw [itemActs, answers_append, hend, List.append_nil, askActs]
  cases e.stage with
  | admitted => by_cases hid : e.id = id <;> simp [answers, hid]
  | _ => rfl

end Caretaker

/-! ### How often a repository is asked -/

/-- Whether it is counted right how often a repository is asked for the content of items. -/
structure ContentOrigin.Counts {σ : Type} [ContentOrigin σ] (asked : σ → String → Nat) : Prop where
  fetch : ∀ r id other,
    asked (ContentOrigin.fetch r id).2 other = asked r other + if id = other then 1 else 0
  flagged : ∀ r query, asked (ContentOrigin.flagged r query).2 = asked r
  acknowledge : ∀ r id, asked (ContentOrigin.acknowledge r id).2 = asked r
  delete : ∀ r id, asked (ContentOrigin.delete r id).2 = asked r

/-- A repository is asked for content just when an answer is seen. -/
theorem ContentOrigin.Counts.advance {σ ν : Type} [ContentOrigin σ] {asked : σ → String → Nat}
    (h : ContentOrigin.Counts asked) (c : Caretaker) (now : Instant) (e : Errand)
    (w : JobState σ BlobStore ν) (id : String) :
    asked (c.advance now e.id e.stage w).2.origin id
      = asked w.origin id + (ItemAct.answers id (c.itemActs now e w)).length := by
  have hsilent : e.stage ≠ .admitted → ItemAct.answers id (c.itemActs now e w) = [] := by
    intro hstage
    rw [Caretaker.answers_itemActs]
    cases hcase : e.stage with
    | admitted => exact absurd hcase hstage
    | _ => rfl
  rcases c.origin_advance_cases now e.id e.stage w with ⟨hstage, hfetch⟩
    | ⟨hstage, hsame | hmark | hdelete⟩
  · rw [hfetch, h.fetch, Caretaker.answers_itemActs, hstage]
    by_cases hid : e.id = id
    · simp only [hid, if_true, List.length_singleton]
    · simp only [hid, if_false, List.length_nil]
  · rw [hsilent hstage, hsame, List.length_nil, Nat.add_zero]
  · rw [hsilent hstage, hmark, h.acknowledge, List.length_nil, Nat.add_zero]
  · rw [hsilent hstage, hdelete, h.delete, List.length_nil, Nat.add_zero]

/-! ## All errands for one item -/

/-- How far the items of a run have come: their errands, also those that have ended, the
    state that they share, and what was seen of them. -/
structure Progress (σ ν : Type) where
  errands : Multiset Errand
  world : JobState σ BlobStore ν
  log : List ItemAct

namespace Progress

open ItemAct

variable {σ ν : Type} [ContentOrigin σ] {c : Caretaker} {now : Instant} {id : String}
  {w₀ : JobState σ BlobStore ν} {deadline : Instant} {p p' : Progress σ ν} {e : Errand}
  {rest : Multiset Errand}

/-- The stages of the errands for an item. -/
def stagesOf (id : String) (errands : Multiset Errand) : Multiset ErrandStage :=
  (errands.filter fun e => e.id = id).map Errand.stage

omit [ContentOrigin σ] in
theorem stagesOf_cons_self (e : Errand) (rest : Multiset Errand) :
    stagesOf e.id (e ::ₘ rest) = e.stage ::ₘ stagesOf e.id rest := by
  have hfilter := Multiset.filter_cons_of_pos (p := fun other : Errand => other.id = e.id) rest rfl
  rw [stagesOf, hfilter, Multiset.map_cons, stagesOf]

omit [ContentOrigin σ] in
theorem stagesOf_cons_of_ne (e : Errand) (rest : Multiset Errand) (h : e.id ≠ id) :
    stagesOf id (e ::ₘ rest) = stagesOf id rest := by
  have hfilter := Multiset.filter_cons_of_neg (p := fun other : Errand => other.id = id) rest h
  rw [stagesOf, hfilter, stagesOf]

/-- Whether one errand gets to its next stage. -/
structure Steps (c : Caretaker) (now : Instant) (e : Errand) (rest : Multiset Errand)
    (p p' : Progress σ ν) : Prop where
  before : p.errands = e ::ₘ rest
  after : p'.errands = ⟨e.id, (c.advance now e.id e.stage p.world).1⟩ ::ₘ rest
  world : p'.world = (c.advance now e.id e.stage p.world).2
  log : p'.log = p.log ++ c.itemActs now e p.world

/-- No request for an item was let through so far. -/
structure Untaken (w₀ : JobState σ BlobStore ν) (id : String) (p : Progress σ ν) : Prop where
  window : p.world.guard.windows.lookup id = w₀.guard.windows.lookup id
  idle : ∀ stage ∈ stagesOf id p.errands, stage = .asked ∨ stage = .ended w₀.guard.refusal
  requests : ∀ now ∈ requests id p.log, w₀.guard.admits now id = false
  answers : answers id p.log = []
  row : p.world.row id = w₀.row id

/-- How the errand stands whose request was let through: the fate of the item is ahead of
    it. -/
inductive Leads (c : Caretaker) (w₀ : JobState σ BlobStore ν) (id : String) (p : Progress σ ν) :
    ErrandStage → Prop where
  | admitted (hanswers : ItemAct.answers id p.log = []) (hrow : p.world.row id = w₀.row id) :
      Leads c w₀ id p .admitted
  | answered {stage : ErrandStage} (n : Nat) (answer : Attempt OfferedContent)
      (hanswers : ItemAct.answers id p.log = [answer]) (hanswer : stage.hasAnswer = true)
      (hof : stage.IsOf id)
      (houtlook : c.outlook stage (p.world.row id) = c.fate (c.draws n) answer (w₀.row id)) :
      Leads c w₀ id p stage

/-- A request for an item was let through, and no other one will be before the
    deadline. -/
structure Taken (c : Caretaker) (w₀ : JobState σ BlobStore ν) (deadline : Instant) (id : String)
    (p : Progress σ ν) : Prop where
  sound : w₀.guard.poisoned = false
  window : ∃ reopens, p.world.guard.windows.lookup id = some reopens ∧ deadline ≤ reopens
  request : ∃ now ∈ ItemAct.requests id p.log, w₀.guard.admits now id = true
  leads : ∃ lead others, stagesOf id p.errands = lead ::ₘ others ∧ Leads c w₀ id p lead ∧
    ∀ stage ∈ others, stage = .asked ∨ stage = .ended .duplicateSuppressed

/-- Whether nothing happened to an item. -/
structure SameFor (id : String) (p p' : Progress σ ν) : Prop where
  window : p'.world.guard.windows.lookup id = p.world.guard.windows.lookup id
  stages : stagesOf id p'.errands = stagesOf id p.errands
  requests : ItemAct.requests id p'.log = ItemAct.requests id p.log
  answers : ItemAct.answers id p'.log = ItemAct.answers id p.log
  row : p'.world.row id = p.world.row id

omit [ContentOrigin σ] in
theorem Untaken.same (h : Untaken w₀ id p) (hsame : SameFor id p p') : Untaken w₀ id p' where
  window := hsame.window.trans h.window
  idle := hsame.stages ▸ h.idle
  requests := hsame.requests ▸ h.requests
  answers := hsame.answers.trans h.answers
  row := hsame.row.trans h.row

omit [ContentOrigin σ] in
theorem Leads.same {stage : ErrandStage} (h : Leads c w₀ id p stage)
    (hanswers : ItemAct.answers id p'.log = ItemAct.answers id p.log)
    (hrow : p'.world.row id = p.world.row id) : Leads c w₀ id p' stage := by
  cases h with
  | admitted hnone hsame => exact .admitted (hanswers.trans hnone) (hrow.trans hsame)
  | answered n answer hone hanswer hof houtlook =>
      exact .answered n answer (hanswers.trans hone) hanswer hof (hrow ▸ houtlook)

omit [ContentOrigin σ] in
theorem Taken.same (h : Taken c w₀ deadline id p) (hsame : SameFor id p p') :
    Taken c w₀ deadline id p' where
  sound := h.sound
  window := by
    obtain ⟨reopens, hlookup, hlate⟩ := h.window
    exact ⟨reopens, hsame.window.trans hlookup, hlate⟩
  request := hsame.requests ▸ h.request
  leads := by
    obtain ⟨lead, others, hstages, hlead, hothers⟩ := h.leads
    exact ⟨lead, others, hsame.stages.trans hstages, hlead.same hsame.answers hsame.row,
      hothers⟩

/-- A step of another errand is nothing to an item. -/
theorem Steps.sameFor (h : Steps c now e rest p p') (hoff : Caretaker.KeepsOff e.id e.stage p.world
    (c.advance now e.id e.stage p.world)) (hid : id ≠ e.id) : SameFor id p p' where
  window := by
    rw [h.world]
    exact hoff.windows id hid
  stages := by
    rw [h.before, h.after, stagesOf_cons_of_ne e rest hid.symm]
    exact stagesOf_cons_of_ne _ rest hid.symm
  requests := by
    rw [h.log, requests_append, Caretaker.requests_itemActs, if_neg hid.symm]
    cases e.stage <;> exact List.append_nil _
  answers := by
    rw [h.log, answers_append, Caretaker.answers_itemActs, if_neg hid.symm]
    cases e.stage <;> exact List.append_nil _
  row := by
    rw [h.world]
    exact hoff.others id hid

/-! ### The errand that goes on -/

theorem Steps.stages_before (h : Steps c now e rest p p') :
    stagesOf e.id p.errands = e.stage ::ₘ stagesOf e.id rest := by
  rw [h.before, stagesOf_cons_self]

theorem Steps.stages_after (h : Steps c now e rest p p') :
    stagesOf e.id p'.errands
      = (c.advance now e.id e.stage p.world).1 ::ₘ stagesOf e.id rest := by
  rw [h.after]
  exact stagesOf_cons_self _ rest

/-- What is seen of the first stage: the guard is asked, and nobody else. -/
theorem Steps.log_asked (h : Steps c now e rest p p') (hasked : e.stage = .asked) :
    ItemAct.requests e.id p'.log = ItemAct.requests e.id p.log ++ [now] ∧
      ItemAct.answers e.id p'.log = ItemAct.answers e.id p.log := by
  rw [h.log, requests_append, answers_append, Caretaker.requests_itemActs,
    Caretaker.answers_itemActs, hasked]
  exact ⟨congrArg _ (if_pos rfl), List.append_nil _⟩

/-- As long as no request was let through, an errand that goes on has only begun. -/
theorem Untaken.eq_asked (h : Untaken w₀ e.id p) (hstep : Steps c now e rest p p')
    (hgoing : ∀ outcome, e.stage ≠ .ended outcome) : e.stage = .asked := by
  rcases h.idle e.stage (hstep.stages_before ▸ Multiset.mem_cons_self _ _) with hasked | hended
  · exact hasked
  · exact absurd hended (hgoing _)

theorem Untaken.idle_rest (h : Untaken w₀ e.id p) (hstep : Steps c now e rest p p') :
    ∀ stage ∈ stagesOf e.id rest, stage = .asked ∨ stage = .ended w₀.guard.refusal :=
  fun stage hstage => h.idle stage (hstep.stages_before ▸ Multiset.mem_cons_of_mem hstage)

/-- A request that is not let through ends the errand and leaves the guard as it is. -/
theorem Untaken.refused (h : Untaken w₀ e.id p) (hstep : Steps c now e rest p p')
    (hasked : e.stage = .asked)
    (hadvance : c.advance now e.id e.stage p.world = (.ended w₀.guard.refusal, p.world))
    (hadmits : w₀.guard.admits now e.id = false) : Untaken w₀ e.id p' := by
  obtain ⟨hrequests, hanswers⟩ := hstep.log_asked hasked
  have hworld : p'.world = p.world := by
    rw [hstep.world, hadvance]
  constructor
  case window =>
    rw [hworld]
    exact h.window
  case idle =>
    intro stage hstage
    rw [hstep.stages_after, hadvance] at hstage
    rcases Multiset.mem_cons.mp hstage with rfl | hstage
    · exact Or.inr rfl
    · exact h.idle_rest hstep stage hstage
  case requests =>
    intro at' hat
    rw [hrequests, List.mem_append, List.mem_singleton] at hat
    rcases hat with hat | rfl
    · exact h.requests at' hat
    · exact hadmits
  case answers => exact hanswers.trans h.answers
  case row =>
    rw [hworld]
    exact h.row

/-- The first request that is let through takes the item. -/
theorem Untaken.taken {guard : RepeatGuard} {reopens : Instant} (h : Untaken w₀ e.id p)
    (hstep : Steps c now e rest p p') (hasked : e.stage = .asked)
    (hadvance : c.advance now e.id e.stage p.world = (.admitted, { p.world with guard }))
    (hwindow : guard.windows.lookup e.id = some reopens) (hlate : deadline ≤ reopens)
    (hsound : w₀.guard.poisoned = false) (hadmits : w₀.guard.admits now e.id = true) :
    Taken c w₀ deadline e.id p' := by
  obtain ⟨hrequests, hanswers⟩ := hstep.log_asked hasked
  have hworld : p'.world = { p.world with guard } := by
    rw [hstep.world, hadvance]
  constructor
  case sound => exact hsound
  case window => exact ⟨reopens, by rw [hworld, hwindow], hlate⟩
  case request =>
    refine ⟨now, ?_, hadmits⟩
    rw [hrequests]
    exact List.mem_append_right _ (List.mem_singleton_self _)
  case leads =>
    have hstages := hstep.stages_after
    rw [hadvance] at hstages
    refine ⟨.admitted, stagesOf e.id rest, hstages, .admitted (hanswers.trans h.answers) ?_, ?_⟩
    · rw [hworld]
      exact h.row
    · intro stage hstage
      refine (h.idle_rest hstep stage hstage).imp_right fun hended => ?_
      rw [hended, RepeatGuard.refusal, hsound]
      rfl

/-- The first request that the guard lets through takes the item; one that it does not let
    through ends at once. -/
theorem Untaken.step (h : Untaken w₀ e.id p) (hstep : Steps c now e rest p p')
    (hpoisoned : p.world.guard.poisoned = w₀.guard.poisoned)
    (hdeadline : deadline ≤ now + p.world.guard.threshold)
    (hgoing : ∀ outcome, e.stage ≠ .ended outcome)
    (hcut : (c.advance now e.id e.stage p.world).1 ≠ .ended .cutShort) :
    Untaken w₀ e.id p' ∨ Taken c w₀ deadline e.id p' := by
  have hasked := h.eq_asked hstep hgoing
  -- nobody has touched the window of this id, so the guard answers as it would have before
  have hclosed := RepeatGuard.isClosed_congr h.window now
  rcases p.world.guard.test_cases now e.id with ⟨hpois, htest⟩ | ⟨hsound, hshut, htest⟩
    | ⟨hsound, hshut, -, htest⟩ | ⟨-, -, -, htest⟩
  · refine Or.inl (h.refused hstep hasked ?_ ?_)
    · rw [hasked, Caretaker.advance, htest, RepeatGuard.refusal, ← hpoisoned, hpois]
      rfl
    · rw [RepeatGuard.admits, ← hpoisoned, hpois]
      rfl
  · refine Or.inl (h.refused hstep hasked ?_ ?_)
    · rw [hasked, Caretaker.advance, htest, RepeatGuard.refusal, ← hpoisoned, hsound]
      rfl
    · rw [RepeatGuard.admits, ← hclosed, hshut]
      exact Bool.and_false _
  · obtain ⟨guard, hguard⟩ : ∃ guard, guard = (p.world.guard.test now e.id).2 := ⟨_, rfl⟩
    have hwindow : guard.windows.lookup e.id = some (now + p.world.guard.threshold) := by
      rw [hguard, htest]
      exact RepeatGuard.lookup_setWindow_self _ _ _
    have hadvance : c.advance now e.id e.stage p.world = (.admitted, { p.world with guard }) := by
      rw [hasked, Caretaker.advance, hguard, htest]
    refine Or.inr (h.taken hstep hasked hadvance hwindow hdeadline (hpoisoned.symm.trans hsound) ?_)
    rw [RepeatGuard.admits, ← hpoisoned, hsound, ← hclosed, hshut]
    rfl
  · rw [hasked, Caretaker.advance, htest] at hcut
    exact absurd rfl hcut

/-- What the repository gives decides about the fate that is ahead. -/
theorem Leads.step_admitted (hstep : Steps c now e rest p p') (hstage : e.stage = .admitted)
    (hnone : ItemAct.answers e.id p.log = []) (hrow : p.world.row e.id = w₀.row e.id)
    (hown : ∀ content, .answered e.id (.ok content) ∈ c.itemActs now e p.world →
      content.id = e.id) :
    Leads c w₀ e.id p' (c.advance now e.id e.stage p.world).1 ∧
      p'.world.guard = p.world.guard := by
  have hacts : ItemAct.answered e.id (ContentOrigin.fetch p.world.origin e.id).1
      ∈ c.itemActs now e p.world := by
    rw [Caretaker.itemActs, Caretaker.askActs, hstage]
    exact List.mem_append_left _ (List.mem_singleton_self _)
  have hanswers := congrArg (ItemAct.answers e.id) hstep.log
  rw [answers_append, Caretaker.answers_itemActs, hstage, hnone, if_pos rfl, List.nil_append]
    at hanswers
  have hworld := hstep.world
  rw [hstage, Caretaker.advance] at hworld ⊢
  rcases hfetch : ContentOrigin.fetch p.world.origin e.id with ⟨answer, origin⟩
  rw [hfetch] at hanswers hacts hworld
  cases answer with
  | error failure =>
      refine ⟨.answered 0 (.error failure) hanswers rfl trivial ?_,
        (congrArg JobState.guard hworld).trans rfl⟩
      rw [hworld, ← hrow]
      rfl
  | ok content =>
      refine ⟨.answered p.world.drawn (.ok content) hanswers rfl (hown content hacts) ?_,
        (congrArg JobState.guard hworld).trans rfl⟩
      rw [hworld, ← hrow]
      rfl

/-- The errand whose request was let through gets on towards the fate of its item. -/
theorem Leads.step (h : Leads c w₀ e.id p e.stage) (hstep : Steps c now e rest p p')
    (hown : ∀ content, .answered e.id (.ok content) ∈ c.itemActs now e p.world →
      content.id = e.id) :
    Leads c w₀ e.id p' (c.advance now e.id e.stage p.world).1 ∧
      p'.world.guard = p.world.guard := by
  generalize hlead : e.stage = lead at h
  rw [← hlead]
  cases h with
  | admitted hnone hrow => exact Leads.step_admitted hstep hlead hnone hrow hown
  | answered n answer hone hanswer hof houtlook =>
      have habides := c.abides_advance now (w := p.world) hanswer hof
      rw [← hlead] at habides
      have hsame : ItemAct.answers e.id p'.log = [answer] := by
        rw [hstep.log, answers_append, Caretaker.answers_itemActs, hone]
        cases hstage : e.stage with
        | admitted =>
            rw [← hlead, hstage] at hanswer
            cases hanswer
        | _ => rfl
      refine ⟨.answered n answer hsame habides.hasAnswer habides.isOf ?_, ?_⟩
      · rw [hstep.world, habides.outlook, hlead]
        exact houtlook
      · rw [hstep.world, habides.guard]

/-- A request that comes after the one that was let through is suppressed. -/
theorem Taken.latecomer (h : Taken c w₀ deadline e.id p) (hasked : e.stage = .asked)
    (hpoisoned : p.world.guard.poisoned = w₀.guard.poisoned) (hnow : now < deadline) :
    c.advance now e.id e.stage p.world = (.ended .duplicateSuppressed, p.world) := by
  obtain ⟨reopens, hlookup, hlate⟩ := h.window
  have hclosed : p.world.guard.isClosed now e.id = true := by
    rw [RepeatGuard.isClosed, hlookup]
    exact decide_eq_true (Nat.lt_of_lt_of_le hnow hlate)
  have htest : p.world.guard.test now e.id = (.suppressed, p.world.guard) := by
    rw [RepeatGuard.test, hpoisoned, h.sound, hclosed]
    rfl
  rw [hasked, Caretaker.advance, htest]

/-- An item that is taken stays so: either its own errand gets on, or one that has only
    begun comes to nothing. -/
theorem Taken.step (h : Taken c w₀ deadline e.id p) (hstep : Steps c now e rest p p')
    (hpoisoned : p.world.guard.poisoned = w₀.guard.poisoned) (hnow : now < deadline)
    (hgoing : ∀ outcome, e.stage ≠ .ended outcome)
    (hown : ∀ content, .answered e.id (.ok content) ∈ c.itemActs now e p.world →
      content.id = e.id) : Taken c w₀ deadline e.id p' := by
  obtain ⟨reopens, hlookup, hlate⟩ := h.window
  obtain ⟨asked, hasked, hadmits⟩ := h.request
  obtain ⟨lead, others, hstages, hlead, hothers⟩ := h.leads
  have hafter := hstep.stages_after
  have hrequest : asked ∈ ItemAct.requests e.id p'.log := by
    rw [hstep.log, requests_append]
    exact List.mem_append_left _ hasked
  rw [hstep.stages_before, eq_comm, Multiset.cons_eq_cons] at hstages
  rcases hstages with ⟨rfl, rfl⟩ | ⟨-, later, rfl, hrest⟩
  · obtain ⟨hnext, hguard⟩ := hlead.step hstep hown
    exact ⟨h.sound, ⟨reopens, hguard ▸ hlookup, hlate⟩, ⟨asked, hrequest, hadmits⟩, _, _, hafter,
      hnext, hothers⟩
  · -- the errand that goes on is not the one that took the item
    have hfirst : e.stage = .asked :=
      (hothers e.stage (Multiset.mem_cons_self _ _)).resolve_right (hgoing _)
    have hadvance := h.latecomer hfirst hpoisoned hnow
    have hworld : p'.world = p.world := by
      rw [hstep.world, hadvance]
    have hsame := (hstep.log_asked hfirst).2
    rw [hadvance, hrest, Multiset.cons_swap] at hafter
    refine ⟨h.sound, ⟨reopens, hworld ▸ hlookup, hlate⟩, ⟨asked, hrequest, hadmits⟩, lead,
      .ended .duplicateSuppressed ::ₘ later, hafter, hlead.same hsame (hworld ▸ rfl),
      fun stage hstage => ?_⟩
    rcases Multiset.mem_cons.mp hstage with rfl | hstage
    · exact Or.inr rfl
    · exact hothers stage (Multiset.mem_cons_of_mem hstage)

/-! ### All items -/

/-- How many errands the guard was asked for. -/
def begun (stages : Multiset ErrandStage) : Nat := stages.countP fun stage => stage.isAsked = false

omit [ContentOrigin σ] in
theorem begun_cons {stage : ErrandStage} (h : stage.isAsked = false)
    (stages : Multiset ErrandStage) : begun (stage ::ₘ stages) = begun stages + 1 :=
  Multiset.countP_cons_of_pos (p := fun stage : ErrandStage => stage.isAsked = false) stages h

omit [ContentOrigin σ] in
theorem begun_cons_asked (stages : Multiset ErrandStage) :
    begun (.asked ::ₘ stages) = begun stages :=
  Multiset.countP_cons_of_neg (p := fun stage : ErrandStage => stage.isAsked = false) stages nofun

/-- Whether it stands well with all items: the guard was asked for each errand but those
    that have only begun, the repository just for the answers that were seen, each item is on
    the way to its fate, and the rows that were added are those of errands. -/
structure Sound (c : Caretaker) (w₀ : JobState σ BlobStore ν) (deadline : Instant)
    (p : Progress σ ν) : Prop where
  requested : ∀ id, (ItemAct.requests id p.log).length
    = begun (stagesOf id p.errands)
  asked : ∀ asked : σ → String → Nat, ContentOrigin.Counts asked → ∀ id,
    asked p.world.origin id = asked w₀.origin id + (ItemAct.answers id p.log).length
  poisoned : p.world.guard.poisoned = w₀.guard.poisoned
  threshold : p.world.guard.threshold = w₀.guard.threshold
  each : ∀ id, Untaken w₀ id p ∨ Taken c w₀ deadline id p
  rows : ∃ new, p.world.rows = w₀.rows ++ new ∧
    new.length = (p.errands.map fun e => e.stage.created).sum

/-- The content of an errand is that of its item. -/
theorem Sound.isOf (h : Sound c w₀ deadline p) (he : e ∈ p.errands) : e.stage.IsOf e.id := by
  have hmem : e.stage ∈ stagesOf e.id p.errands := by
    obtain ⟨others, hothers⟩ := Multiset.exists_cons_of_mem he
    rw [hothers, stagesOf_cons_self]
    exact Multiset.mem_cons_self _ _
  rcases h.each e.id with huntaken | htaken
  · rcases huntaken.idle _ hmem with hstage | hstage
    · rw [hstage]
      trivial
    · rw [hstage]
      trivial
  · obtain ⟨lead, others, hstages, hlead, hothers⟩ := htaken.leads
    rw [hstages] at hmem
    rcases Multiset.mem_cons.mp hmem with hstage | hmem
    · rw [hstage]
      cases hlead with
      | admitted hnone hrow => trivial
      | answered n answer hone hanswer hof houtlook => exact hof
    · rcases hothers _ hmem with hstage | hstage
      · rw [hstage]
        trivial
      · rw [hstage]
        trivial

/-- No stage is followed by the first one. -/
theorem isAsked_advance (c : Caretaker) (now : Instant) {id : String} {stage : ErrandStage}
    (w : JobState σ BlobStore ν) (hof : stage.IsOf id) :
    (c.advance now id stage w).1.isAsked = false := by
  cases hanswer : stage.hasAnswer with
  | true =>
      have hnext := (c.abides_advance now (w := w) hanswer hof).hasAnswer
      generalize (c.advance now id stage w).1 = next at hnext
      cases next with
      | asked => cases hnext
      | _ => rfl
  | false =>
      cases stage with
      | asked =>
          rw [Caretaker.advance]
          rcases w.guard.test now id with ⟨verdict, guard⟩
          cases verdict <;> rfl
      | admitted =>
          rw [Caretaker.advance]
          rcases ContentOrigin.fetch w.origin id with ⟨answer, origin⟩
          cases answer <;> rfl
      | _ => cases hanswer

/-- It stands well after a step of an errand. -/
theorem Sound.step (h : Sound c w₀ deadline p) (hstep : Steps c now e rest p p')
    (hnow : now < deadline) (hdeadline : deadline ≤ now + w₀.guard.threshold)
    (hgoing : ∀ outcome, e.stage ≠ .ended outcome)
    (hcut : (c.advance now e.id e.stage p.world).1 ≠ .ended .cutShort)
    (hown : ∀ content, .answered e.id (.ok content) ∈ c.itemActs now e p.world →
      content.id = e.id) : Sound c w₀ deadline p' := by
  have hof : e.stage.IsOf e.id := h.isOf (hstep.before ▸ Multiset.mem_cons_self e rest)
  have hoff := c.keepsOff_advance now hof hcut
  constructor
  case requested =>
    intro id
    by_cases hid : id = e.id
    · subst hid
      have hbefore := h.requested e.id
      have hnext := isAsked_advance c now p.world hof
      rw [hstep.stages_before] at hbefore
      rw [hstep.stages_after, begun_cons hnext, hstep.log, requests_append, List.length_append,
        hbefore, Caretaker.requests_itemActs]
      cases hstage : e.stage with
      | asked =>
          rw [begun_cons_asked, if_pos rfl]
          rfl
      | _ => exact begun_cons rfl _
    · have hsame := hstep.sameFor hoff hid
      rw [hsame.requests, hsame.stages]
      exact h.requested id
  case asked =>
    intro asked hcounts id
    rw [hstep.world, hcounts.advance, h.asked asked hcounts, hstep.log, answers_append,
      List.length_append, Nat.add_assoc]
  case poisoned =>
    rw [hstep.world]
    exact hoff.poisoned.trans h.poisoned
  case threshold =>
    rw [hstep.world]
    exact hoff.threshold.trans h.threshold
  case each =>
    intro id
    by_cases hid : id = e.id
    · subst hid
      rcases h.each e.id with huntaken | htaken
      · exact huntaken.step hstep h.poisoned (h.threshold ▸ hdeadline) hgoing hcut
      · exact Or.inr (htaken.step hstep h.poisoned hnow hgoing hown)
    · have hsame := hstep.sameFor hoff hid
      exact (h.each id).imp (·.same hsame) (·.same hsame)
  case rows =>
    obtain ⟨new, hrows, hlength⟩ := h.rows
    obtain ⟨more, hmore, hcreated⟩ := hoff.rows
    refine ⟨new ++ more, ?_, ?_⟩
    · rw [hstep.world, hmore, hrows, List.append_assoc]
    · rw [hstep.before, Multiset.map_cons, Multiset.sum_cons] at hlength
      rw [hstep.after, Multiset.map_cons, Multiset.sum_cons, hcreated, List.length_append, hlength]
      omega

/-- How far the items have come when one more is set about. -/
def entered (p : Progress σ ν) (id : String) : Progress σ ν :=
  { p with errands := ⟨id, .asked⟩ ::ₘ p.errands }

omit [ContentOrigin σ] in
theorem stagesOf_entered_self (p : Progress σ ν) (id : String) :
    stagesOf id (p.entered id).errands = .asked ::ₘ stagesOf id p.errands :=
  stagesOf_cons_self ⟨id, .asked⟩ p.errands

omit [ContentOrigin σ] in
theorem sameFor_entered {other : String} (h : other ≠ id) (p : Progress σ ν) :
    SameFor other p (p.entered id) :=
  ⟨rfl, stagesOf_cons_of_ne ⟨id, .asked⟩ p.errands h.symm, rfl, rfl, rfl⟩

/-- It stands well when one more item is set about. -/
theorem Sound.entered (h : Sound c w₀ deadline p) (id : String) :
    Sound c w₀ deadline (p.entered id) := by
  constructor
  case requested =>
    intro other
    by_cases hother : other = id
    · subst hother
      rw [stagesOf_entered_self, begun_cons_asked]
      exact h.requested other
    · rw [(sameFor_entered hother p).stages]
      exact h.requested other
  case asked => exact h.asked
  case poisoned => exact h.poisoned
  case threshold => exact h.threshold
  case each =>
    intro other
    by_cases hother : other = id
    · subst hother
      rcases h.each other with huntaken | htaken
      · refine Or.inl ⟨huntaken.window, fun stage hstage => ?_, huntaken.requests,
          huntaken.answers, huntaken.row⟩
        rw [stagesOf_entered_self] at hstage
        rcases Multiset.mem_cons.mp hstage with rfl | hstage
        · exact Or.inl rfl
        · exact huntaken.idle stage hstage
      · obtain ⟨lead, others, hstages, hlead, hothers⟩ := htaken.leads
        refine Or.inr ⟨htaken.sound, htaken.window, htaken.request, lead, .asked ::ₘ others, ?_,
          hlead.same rfl rfl, fun stage hstage => ?_⟩
        · rw [stagesOf_entered_self, hstages, Multiset.cons_swap]
        · rcases Multiset.mem_cons.mp hstage with rfl | hstage
          · exact Or.inl rfl
          · exact hothers stage hstage
    · have hsame := sameFor_entered hother p
      exact (h.each other).imp (·.same hsame) (·.same hsame)
  case rows =>
    obtain ⟨new, hrows, hlength⟩ := h.rows
    refine ⟨new, hrows, ?_⟩
    rw [Progress.entered, Multiset.map_cons, Multiset.sum_cons, hlength]
    exact (Nat.zero_add _).symm

end Progress

end ContentVault
