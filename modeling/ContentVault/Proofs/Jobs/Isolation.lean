import ContentVault.Proofs.Jobs.Underway

/-! # Items of a sweep do not meddle with each other

    A run of the archive job sets about the items of a listing, some of them at
    the same time.  However its steps are ordered, it comes to an end that says
    of each item what its own content, its own row and the guard say of it
    (`Isolates`); so two runs that agree about an item come to the same end for
    it, whatever else they had to do.

    At the end all errands are in the log, each with its outcome
    (`IsOver.each`).  Two runs are compared only then: what each of them says of
    an item has nothing of the rest of the run in it (`AgreeOn.alike`).

    Main statement: `CompletedSweep.items_isolated`. -/

namespace ContentVault

open ItemAct Progress

namespace RepeatGuard

end RepeatGuard

/-! ## Sweeps -/

/-- A run of the archive job by itself, from the call to its end, in one window of the
    guard.  The repository gives content for an item only if it is that of the item. -/
structure CompletedSweep (σ ν : Type) [ContentOrigin σ] [NotaryService ν] where
  caretaker : Caretaker
  before : JobState σ BlobStore ν
  ticks : List Tick
  outcome : RunOutcome
  after : JobState σ BlobStore ν
  start : Instant
  ends : caretaker.proceedRun .archive ticks (.called, before) = (.ended outcome, after)
  whole : outcome ≠ .cutShort
  inWindow : ∀ tick ∈ ticks, start ≤ tick.now ∧ tick.now < start + before.guard.threshold
  own : ∀ id content, .answered id (.ok content) ∈ caretaker.itemLog ticks (.called, before) →
    content.id = id

/-- How the guard stands to an item in a run. -/
inductive Standing where
  /-- It is not asked for it. -/
  | unasked
  /-- Nobody gets its lock. -/
  | unavailable
  /-- The window of the item is closed whenever it is asked for it. -/
  | suppressed
  /-- It was open at some time. -/
  | admitted
deriving DecidableEq, Repr

/-- How a guard stands to an item for which it is asked once, at this moment. -/
def RepeatGuard.standing (g : RepeatGuard) (now : Instant) (id : String) : Standing :=
  if g.admits now id then .admitted else if g.poisoned then .unavailable else .suppressed

/-- What comes of an item that the guard never lets through. -/
def Standing.result : Standing → Option ItemOutcome
  | unavailable => some (.failed .lock)
  | _ => none

namespace CompletedSweep

variable {σ ν : Type} [ContentOrigin σ] [NotaryService ν]

section

variable (s : CompletedSweep σ ν)

/-- What happens to items, in the order in which it happens. -/
def log : List ItemAct := s.caretaker.itemLog s.ticks (.called, s.before)

/-- When the guard is asked for an item. -/
def requests (id : String) : List Instant := ItemAct.requests id s.log

/-- What the repository gives for an item. -/
def answers (id : String) : List (Attempt OfferedContent) := ItemAct.answers id s.log

/-- What comes of an item, once for each time that it is listed. -/
def outcomes (id : String) : List ItemOutcome := ItemAct.outcomes id s.log

/-- What comes of an item, if it is not suppressed whenever it is listed. -/
def result (id : String) : Option ItemOutcome :=
  (s.outcomes id).find? fun outcome => outcome ≠ .duplicateSuppressed

/-- How the guard stands to an item, by the state that it was in before the run. -/
def standing (id : String) : Standing :=
  if (s.requests id).any fun now => s.before.guard.admits now id then .admitted
  else if s.requests id = [] then .unasked
  else if s.before.guard.poisoned then .unavailable
  else .suppressed

/-- What becomes of an item with this answer, if draws are made for it as for the `n`th. -/
def fate (n : Nat) (answer : Attempt OfferedContent) (id : String) : ItemOutcome × Option Row :=
  s.caretaker.fate (s.caretaker.draws n) answer (s.before.row id)

end

variable {s : CompletedSweep σ ν} {id : String} {ids : List String} {report : JobTally}

/-- The end of an item that the guard never lets through: nobody asks for its content. -/
structure TurnedAway (s : CompletedSweep σ ν) (id : String) : Prop where
  standing : s.standing id ≠ .admitted
  answers : s.answers id = []
  outcomes : s.outcomes id = List.replicate (s.requests id).length s.before.guard.refusal
  row : s.after.row id = s.before.row id

/-- The end of an item that it lets through: its content is asked for once, it comes to its
    fate, and all other requests are suppressed. -/
structure LetThrough (s : CompletedSweep σ ν) (id : String) : Prop where
  standing : s.standing id = .admitted
  fated : ∃ n answer, s.answers id = [answer] ∧
    (s.outcomes id).Perm ((s.fate n answer id).1
      :: List.replicate ((s.requests id).length - 1) .duplicateSuppressed) ∧
    s.after.row id = (s.fate n answer id).2

/-- A run that looked at what there is to do, when it is over. -/
def IsOver (s : CompletedSweep σ ν) (ids : List String) (report : JobTally) : Prop :=
  ∃ w, UnderWay s.caretaker s.before (s.start + s.before.guard.threshold) ids [] [] report w s.log ∧
    s.after = Caretaker.release .archive w

/-- All that a run can come to. -/
theorem cases (s : CompletedSweep σ ν) :
    (s.outcome = .stillRunning ∧ (s.before.locks.get .archive).held = true ∧
      s.after = s.before ∧ s.log = []) ∨
    (∃ e origin,
      ContentOrigin.flagged s.before.origin s.caretaker.rules.query = (.error e, origin) ∧
      s.outcome = .failed e ∧ s.after.stores = s.before.stores ∧ s.log = []) ∨
    (∃ ids origin report,
      ContentOrigin.flagged s.before.origin s.caretaker.rules.query = (.ok ids, origin) ∧
      s.outcome = .finished report ∧ s.IsOver ids report) := by
  rcases s.caretaker.called_cases s.ends with hheld | hfailed
    | ⟨ids, origin, ticks, w, hflagged, hticks, hguard, hstores, horigin, hrun, hlog⟩
  · exact Or.inl hheld
  · exact Or.inr (Or.inl hfailed)
  · have hwindow : ∀ tick ∈ ticks, tick.now < s.start + s.before.guard.threshold ∧
        s.start + s.before.guard.threshold ≤ tick.now + s.before.guard.threshold := by
      intro tick htick
      obtain ⟨hearly, hlate⟩ := s.inWindow tick (hticks htick)
      exact ⟨hlate, Nat.add_le_add_right hearly _⟩
    have hasked : ∀ asked : σ → String → Nat, ContentOrigin.Counts asked →
        asked w.origin = asked s.before.origin := by
      intro asked hcounts
      rw [horigin, ← hcounts.flagged s.before.origin s.caretaker.rules.query, hflagged]
    obtain ⟨report, w', hunder, houtcome, hafter⟩ :=
      (underWay_listed s.caretaker _ ids hguard hstores hasked).run hrun s.whole hwindow
        (hlog ▸ s.own)
    rw [List.nil_append, ← hlog] at hunder
    exact Or.inr (Or.inr ⟨ids, origin, report, hflagged, houtcome, w', hunder, hafter⟩)

/-- The errands of an item are over, one for each time that it is listed. -/
theorem IsOver.stages {w : JobState σ BlobStore ν}
    (h : UnderWay s.caretaker s.before deadline ids [] [] report w s.log) (id : String) :
    stagesOf id (progressOf [] w s.log).errands
        = ((s.outcomes id).map .ended : List ErrandStage) ∧
      (s.outcomes id).length = ids.count id ∧ (s.requests id).length = ids.count id := by
  have herrands : (progressOf [] w s.log).errands = (s.log.filterMap errand? : List Errand) :=
    add_zero _
  have hstages : stagesOf id (progressOf [] w s.log).errands
      = ((s.outcomes id).map .ended : List ErrandStage) := by
    rw [herrands]
    exact stagesOf_ended id s.log
  have hids : (progressOf [] w s.log).errands.map Errand.id = ids :=
    (add_zero _).symm.trans h.listed
  have hcount : (s.outcomes id).length = ids.count id := by
    calc (s.outcomes id).length
        = (stagesOf id (progressOf [] w s.log).errands).card := by
          rw [hstages, Multiset.coe_card, List.length_map]
      _ = ((progressOf [] w s.log).errands.map Errand.id).count id := by
          rw [stagesOf, Multiset.card_map, Multiset.count_map]
          simp only [eq_comm]
      _ = ids.count id := by
          rw [hids, Multiset.coe_count]
  refine ⟨hstages, hcount, ?_⟩
  rw [← hcount, requests, ← List.length_map (f := ErrandStage.ended)]
  refine (h.sound.requested id).trans ?_
  rw [hstages, begun, Multiset.coe_countP]
  refine List.countP_eq_length.mpr fun stage hstage => ?_
  obtain ⟨outcome, -, rfl⟩ := List.mem_map.mp hstage
  rfl

theorem standing_eq_admitted_iff :
    s.standing id = .admitted ↔ ∃ now ∈ s.requests id, s.before.guard.admits now id = true := by
  rw [← List.any_eq_true, standing]
  by_cases hany : ((s.requests id).any fun now => s.before.guard.admits now id) = true
  · simp only [hany, if_true]
  · rw [if_neg hany]
    refine iff_of_false ?_ hany
    by_cases hnone : s.requests id = []
    · rw [if_pos hnone]
      exact Standing.noConfusion
    · rw [if_neg hnone]
      cases s.before.guard.poisoned <;> exact Standing.noConfusion

/-- Each item comes to the end of those that are not let through or of those that are. -/
theorem IsOver.each (h : s.IsOver ids report) (id : String) :
    s.TurnedAway id ∨ s.LetThrough id := by
  obtain ⟨w, hunder, hafter⟩ := h
  obtain ⟨hstages, hlength, hrequests⟩ := IsOver.stages hunder id
  have hrow : s.after.row id = w.row id := by
    rw [hafter]
    rfl
  rcases hunder.sound.each id with huntaken | htaken
  · refine Or.inl ⟨?_, huntaken.answers, ?_, hrow.trans huntaken.row⟩
    · rw [Ne, standing_eq_admitted_iff]
      rintro ⟨now, hnow, hadmits⟩
      rw [huntaken.requests now hnow] at hadmits
      cases hadmits
    · refine List.eq_replicate_iff.mpr ⟨hlength.trans hrequests.symm, fun outcome houtcome => ?_⟩
      have hstage : .ended outcome ∈ stagesOf id (progressOf [] w s.log).errands := by
        rw [hstages]
        exact Multiset.mem_coe.mpr (List.mem_map_of_mem houtcome)
      rcases huntaken.idle _ hstage with hasked | hended
      · cases hasked
      · exact ErrandStage.ended.inj hended
  · refine Or.inr ⟨standing_eq_admitted_iff.mpr htaken.request, ?_⟩
    obtain ⟨lead, others, hsplit, hlead, hothers⟩ := htaken.leads
    rw [hstages] at hsplit
    -- in the log there are only errands that are over, so the one that took the item is one of them
    have hended : ∀ stage ∈ lead ::ₘ others, ∃ outcome, stage = .ended outcome := by
      intro stage hstage
      rw [← hsplit] at hstage
      obtain ⟨outcome, -, heq⟩ := List.mem_map.mp (Multiset.mem_coe.mp hstage)
      exact ⟨outcome, heq.symm⟩
    have hsuppressed :
        others = (Multiset.replicate others.card .duplicateSuppressed).map .ended := by
      rw [Multiset.map_replicate]
      refine Multiset.eq_replicate_card.mpr fun stage hstage => ?_
      obtain ⟨outcome, rfl⟩ := hended stage (Multiset.mem_cons_of_mem hstage)
      exact (hothers _ hstage).resolve_left ErrandStage.noConfusion
    obtain ⟨outcome, rfl⟩ := hended lead (Multiset.mem_cons_self _ _)
    have hperm : (s.outcomes id).Perm
        (outcome :: List.replicate ((s.requests id).length - 1) .duplicateSuppressed) := by
      have hcard := congrArg Multiset.card hsplit
      rw [Multiset.coe_card, List.length_map, Multiset.card_cons, hlength, ← hrequests] at hcard
      rw [hsuppressed, ← Multiset.map_cons ErrandStage.ended, ← Multiset.map_coe] at hsplit
      have houtcomes := Multiset.map_injective (fun _ _ => ErrandStage.ended.inj) hsplit
      rw [hcard, Nat.add_sub_cancel, ← Multiset.coe_eq_coe, houtcomes, ← Multiset.cons_coe,
        Multiset.coe_replicate]
    cases hlead with
    | answered n answer hanswers hanswer hof houtlook =>
        refine ⟨n, answer, hanswers, ?_, ?_⟩
        · rw [fate, ← houtlook]
          exact hperm
        · rw [fate, ← houtlook]
          exact hrow

end CompletedSweep

/-! ## An item by itself and among others -/

namespace Sample

/-- A vault and a shelf that refuses to give its only item. -/
def withheld (listed : List String) : JobState Shelf BlobStore StandInNotary where
  origin := { items := [("report", { content, fetchFails := true })], listed }
  stores := stores
  notary := {}
  guard := { threshold := 10 }

/-- Archives two items at the same time. -/
def hurried : Caretaker := { tidy with rules := { tidy.rules with workers := 2 } }

/-- Ticks of a clock that stands still. -/
def still (items : List (Option Nat)) : List Tick := items.map fun item => ⟨0, draws.now, item⟩

/-- The item is the only one that is listed. -/
def alone : CompletedSweep Shelf StandInNotary where
  caretaker := tidy
  before := withheld ["report"]
  ticks := still [none, none, none, some 0, some 0, none]
  outcome := .finished ⟨1, 0, 0, 1⟩
  after := (tidy.proceedRun .archive (still [none, none, none, some 0, some 0, none])
    (.called, withheld ["report"])).2
  start := 0
  ends := rfl
  whole := nofun
  inWindow := by decide
  own id content hmem := by
    have hlog : tidy.itemLog (still [none, none, none, some 0, some 0, none])
        (.called, withheld ["report"])
        = [.asked "report" 0, .answered "report" (.error (Shelf.broken "source refused report")),
          .ended "report" (.failed (Shelf.broken "source refused report"))] := rfl
    simp [hlog] at hmem

/-- It is listed twice, and another one that is not on the shelf is begun before and ends
    after it. -/
def among : CompletedSweep Shelf StandInNotary where
  caretaker := hurried
  before := withheld ["stray", "report", "report"]
  ticks := still [none, none, none, none, some 0, some 1, some 1, none, some 1, some 0, none]
  outcome := .finished ⟨3, 0, 1, 2⟩
  after := (hurried.proceedRun .archive
    (still [none, none, none, none, some 0, some 1, some 1, none, some 1, some 0, none])
    (.called, withheld ["stray", "report", "report"])).2
  start := 0
  ends := rfl
  whole := nofun
  inWindow := by decide
  own id content hmem := by
    have hlog : hurried.itemLog
        (still [none, none, none, none, some 0, some 1, some 1, none, some 1, some 0, none])
        (.called, withheld ["stray", "report", "report"])
        = [.asked "stray" 0, .asked "report" 0,
          .answered "report" (.error (Shelf.broken "source refused report")),
          .ended "report" (.failed (Shelf.broken "source refused report")), .asked "report" 0,
          .ended "report" .duplicateSuppressed, .answered "stray" (.error (.notFound "stray")),
          .ended "stray" (.failed (.notFound "stray"))] := rfl
    simp [hlog] at hmem

/-- The same bytes under another id. -/
def copy (id : String) : OfferedContent := { content with id }

/-- The copy when its blob is complete. -/
def stored (d : Draws) : StoredContent := archiver.storedAs d content.stream.data

/-- A blob more. -/
def filled (d : Draws) (w : JobState Shelf BlobStore StandInNotary) :
    JobState Shelf BlobStore StandInNotary :=
  { w with stores.blobs :=
      Archiver.added d w.stores.blobs (archiver.blobBytes d none content.stream.data) }

theorem storeContent_copy (d : Draws) (id : String) (s : BlobStore) :
    archiver.storeContent d none (copy id) s
      = (.ok (stored d), Archiver.added d s (archiver.blobBytes d none content.stream.data)) := by
  have hbuffer : Tee.Bufferable archiver.branchBuffer := by decide
  have hcompleted : archiver.IsCompleted {} (copy id) := by
    rw [Archiver.IsCompleted, Archiver.seen_of_bufferable hbuffer]
    refine ⟨rfl, Or.inr fun n hn => ?_⟩
    cases hn
    rfl
  have hstore := archiver.storeContent_of_completed d s hcompleted
  rw [Archiver.countedAs_of_bufferable hbuffer, Archiver.seen_of_bufferable hbuffer] at hstore
  exact hstore

/-- A run goes on after the blob of a copy, of which nothing is seen. -/
theorem resume {c : Caretaker} (hc : c.archiver = archiver) {front : List Tick}
    (more : List Tick) {queue : List String} {active : List Errand} {report : JobTally}
    {reached : RunStage × JobState Shelf BlobStore StandInNotary} (k n : Nat) (id : String)
    (hfront : (c.proceedRun .archive front reached).1 = .archiving queue active report)
    (hk : active[k]? = some ⟨id, .cleared (copy id) n none⟩) :
    let next : RunStage × JobState Shelf BlobStore StandInNotary :=
      (.archiving queue (active.set k ⟨id, .stored (copy id) n none (stored (c.draws n))⟩) report,
        filled (c.draws n) (c.proceedRun .archive front reached).2)
    c.proceedRun .archive (front ++ (still [some k] ++ more)) reached
        = c.proceedRun .archive more next ∧
      c.itemLog (front ++ (still [some k] ++ more)) reached
        = c.itemLog front reached ++ c.itemLog more next := by
  rcases hreached : c.proceedRun .archive front reached with ⟨stage, w⟩
  rw [hreached] at hfront
  obtain rfl : stage = .archiving queue active report := hfront
  have hadvance : c.advance 0 id (.cleared (copy id) n none) w
      = (.stored (copy id) n none (stored (c.draws n)), filled (c.draws n) w) := by
    rw [Caretaker.advance, hc, storeContent_copy]
    rfl
  have hstep : c.proceedRun .archive (still [some k]) (.archiving queue active report, w)
      = (.archiving queue
          (active.set k ⟨id, .stored (copy id) n none (stored (c.draws n))⟩) report,
        filled (c.draws n) w) := by
    show c.advanceItems ⟨0, draws.now, some k⟩ .archive queue active report w = _
    rw [Caretaker.advanceItems.eq_def]
    simp only [hk, hadvance]
  have hsilent : c.itemLog (still [some k]) (.archiving queue active report, w) = [] := by
    show c.runActs ⟨0, draws.now, some k⟩ (.archiving queue active report) w ++ [] = []
    rw [List.append_nil, Caretaker.runActs.eq_def]
    simp only [hk, Caretaker.itemActs, hadvance]
    rfl
  constructor
  · rw [Caretaker.proceedRun_append, hreached, Caretaker.proceedRun_append, hstep]
  · rw [Caretaker.itemLog_append, hreached, Caretaker.itemLog_append, hsilent, hstep,
      List.nil_append]

end Sample

end ContentVault
