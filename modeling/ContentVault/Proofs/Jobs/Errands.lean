import ContentVault.Jobs.Caretaker

/-! # Items that are archived side by side

    Several items are under way at once, and callers may ask for single ones in
    between.  Each of them is an `Errand`; wherever an errand waits for the
    repository or for a store, others go on, and the repository may change by
    itself.  So an errand is cut into stages, and `advance` takes it from one
    stage to the next; an `Intake` is all the errands over the one state that
    they share, and its events come in any order.

    An errand that nobody comes in between of is archived just as `archiveItem`
    does it (`proceed_eq_archiveItem`), and the run of the archive job is one of
    the orders (`exists_run_eq`). -/

namespace ContentVault

/-! ## Errands -/

/-- How far the archiving of an item has come.  The content that was given for
    it stays with it, and so does the number of the draw that it is archived
    with. -/
inductive ErrandStage where
  | asked
  /-- The guard let the request through. -/
  | admitted
  | fetched (content : OfferedContent) (n : Nat)
  /-- There was no entry under the id of the content. -/
  | cleared (content : OfferedContent) (n : Nat) (key : Option Key)
  /-- The blob is complete. -/
  | stored (content : OfferedContent) (n : Nat) (key : Option Key) (blob : StoredContent)
  /-- The next is to tell the repository that the item is in the vault. -/
  | settling (content : OfferedContent) (outcome : ItemOutcome)
  /-- The next is to tell the repository to delete the item. -/
  | deleting (content : OfferedContent) (outcome : ItemOutcome)
  | ended (outcome : ItemOutcome)

/-- An item that was asked for. -/
structure Errand where
  id : String
  stage : ErrandStage

namespace Caretaker

variable {σ β ν : Type}

/-- The stage after content could not be archived.  That there is an entry is
    told to the repository like a success. -/
def refused (content : OfferedContent) : VaultFailure → ErrandStage
  | .alreadyArchived _ => .settling content .alreadyArchived
  | e => .ended (.failed e)

/-- Takes an item to its next stage. -/
def advance [ContentOrigin σ] [BlobStorage β] (c : Caretaker) (now : Instant) (id : String)
    (stage : ErrandStage) (w : JobState σ β ν) : ErrandStage × JobState σ β ν :=
  match stage with
  | .asked =>
    match w.guard.test now id with
    | (.suppressed, guard) => (.ended .duplicateSuppressed, { w with guard })
    | (.unavailable, guard) => (.ended (.failed .lock), { w with guard })
    | (.cutShort, guard) => (.ended .cutShort, { w with guard })
    | (.accepted, guard) => (.admitted, { w with guard })
  | .admitted =>
    match ContentOrigin.fetch w.origin id with
    | (.error e, origin) => (.ended (.failed e), { w with origin })
    | (.ok content, origin) =>
      (.fetched content w.drawn, { w with origin, drawn := w.drawn + 1 })
  | .fetched content n =>
    match w.stores.records.contains content.id with
    | .error e => (refused content e, w)
    | .ok true => (refused content (.alreadyArchived content.id), w)
    | .ok false =>
      match c.archiver.contentKey (c.draws n) (c.choicesFor content) with
      | .error e => (refused content e, w)
      | .ok key => (.cleared content n key, w)
  | .cleared content n key =>
    match c.archiver.storeContent (c.draws n) key content w.stores.blobs with
    | (.error e, blobs) => (refused content e, { w with stores := { w.stores with blobs } })
    | (.ok blob, blobs) =>
      (.stored content n key blob, { w with stores := { w.stores with blobs } })
  | .stored content n key blob =>
    match Archiver.checkContent (c.choicesFor content) content blob with
    | .error e => (refused content e, w)
    | .ok verify =>
      match w.stores.records.save (c.archiver.newEntry (c.draws n) key content blob) with
      | .error e => (refused content e, w)
      | .ok records =>
        (.settling content (.archived (c.archiver.receipt key content blob verify)),
          { w with stores := { w.stores with records } })
  | .settling content outcome =>
    match ContentOrigin.acknowledge w.origin id with
    | (.error _, origin) => (.ended outcome, { w with origin })
    | (.ok (), origin) =>
      (if c.rules.deleteSource then .deleting content outcome else .ended outcome,
        { w with origin })
  | .deleting _ outcome =>
    (.ended outcome, { w with origin := (ContentOrigin.delete w.origin id).2 })
  | .ended outcome => (.ended outcome, w)

/-- Takes an item a number of stages further, with nothing in between. -/
def proceed [ContentOrigin σ] [BlobStorage β] (c : Caretaker) (now : Instant) (id : String) :
    Nat → ErrandStage × JobState σ β ν → ErrandStage × JobState σ β ν
  | 0, reached => reached
  | k + 1, reached => c.proceed now id k (c.advance now id reached.1 reached.2)

/-! ## An errand by itself -/

section

variable [ContentOrigin σ] [BlobStorage β] (c : Caretaker) (now : Instant) (id : String)

@[simp] theorem proceed_ended (k : Nat) (outcome : ItemOutcome) (w : JobState σ β ν) :
    c.proceed now id k (.ended outcome, w) = (.ended outcome, w) := by
  induction k with
  | zero => rfl
  | succ k ih => exact ih

/-- The last two stages settle the item with the repository. -/
theorem proceed_settling (k : Nat) (content : OfferedContent) (outcome : ItemOutcome)
    (w : JobState σ β ν) :
    c.proceed now id (k + 2) (.settling content outcome, w)
      = (.ended outcome, { w with origin := c.settleOrigin id w.origin }) := by
  rw [proceed, proceed, advance, settleOrigin]
  rcases ContentOrigin.acknowledge w.origin id with ⟨answer, origin⟩
  cases answer with
  | error e => exact c.proceed_ended now id k outcome _
  | ok u =>
      cases hdelete : c.rules.deleteSource with
      | false => exact c.proceed_ended now id k outcome _
      | true => exact c.proceed_ended now id k outcome _

/-- What comes of an item after archiving its content came to a result. -/
def concluded (result : Attempt ArchiveReceipt) (w : JobState σ β ν) :
    ItemOutcome × JobState σ β ν :=
  match result with
  | .ok report => (.archived report, { w with origin := c.settleOrigin id w.origin })
  | .error (.alreadyArchived _) =>
    (.alreadyArchived, { w with origin := c.settleOrigin id w.origin })
  | .error e => (.failed e, w)

/-- Where an errand is when this came of its item. -/
def atEnd (item : ItemOutcome × JobState σ β ν) : ErrandStage × JobState σ β ν :=
  (.ended item.1, item.2)

theorem proceed_refused (k : Nat) (content : OfferedContent) (e : VaultFailure)
    (w : JobState σ β ν) :
    c.proceed now id (k + 2) (refused content e, w) = atEnd (c.concluded id (.error e) w) := by
  cases e with
  | alreadyArchived i => exact c.proceed_settling now id k content .alreadyArchived w
  | _ => exact c.proceed_ended now id (k + 2) _ w

/-- The stages from the content to the end are those of archiving it. -/
theorem proceed_fetched (content : OfferedContent) (n : Nat) (w : JobState σ β ν) :
    c.proceed now id 5 (.fetched content n, w)
      = atEnd (c.concluded id
          (c.archiver.archive (c.draws n) content (c.choicesFor content) w.stores).1
          { w with stores :=
              (c.archiver.archive (c.draws n) content (c.choicesFor content) w.stores).2 }) := by
  rw [proceed, advance, Archiver.archive]
  cases w.stores.records.contains content.id with
  | error e => exact c.proceed_refused now id 2 content e w
  | ok present =>
      cases present with
      | true => exact c.proceed_refused now id 2 content _ w
      | false =>
          simp only
          cases c.archiver.contentKey (c.draws n) (c.choicesFor content) with
          | error e => exact c.proceed_refused now id 2 content e w
          | ok key =>
              simp only
              rw [proceed, advance]
              rcases c.archiver.storeContent (c.draws n) key content w.stores.blobs
                with ⟨result, blobs⟩
              cases result with
              | error e => exact c.proceed_refused now id 1 content e _
              | ok blob =>
                  simp only
                  rw [proceed, advance]
                  cases Archiver.checkContent (c.choicesFor content) content blob with
                  | error e => exact c.proceed_refused now id 0 content e _
                  | ok verify =>
                      simp only
                      cases w.stores.records.save
                          (c.archiver.newEntry (c.draws n) key content blob) with
                      | error e => exact c.proceed_refused now id 0 content e _
                      | ok records => exact c.proceed_settling now id 0 content _ _

/-- With nothing in between, an item is archived stage by stage as it is
    archived at once. -/
theorem proceed_eq_archiveItem (w : JobState σ β ν) :
    c.proceed now id 7 (.asked, w) = atEnd (c.archiveItem now id w) := by
  rw [proceed, advance, archiveItem]
  rcases w.guard.test now id with ⟨verdict, guard⟩
  cases verdict with
  | suppressed => exact c.proceed_ended now id 6 _ _
  | unavailable => exact c.proceed_ended now id 6 _ _
  | cutShort => exact c.proceed_ended now id 6 _ _
  | accepted =>
      simp only
      rw [proceed, advance]
      rcases ContentOrigin.fetch w.origin id with ⟨answer, origin⟩
      cases answer with
      | error e => exact c.proceed_ended now id 5 _ _
      | ok content =>
          simp only
          rw [c.proceed_fetched now id content]
          rfl

end

end Caretaker

/-! ## Many errands -/

/-- The errands, and the state that they share. -/
structure Intake (σ β ν : Type) where
  world : JobState σ β ν
  errands : List Errand := []

/-- What happens next. -/
inductive IntakeEvent (σ : Type) where
  /-- Someone asks for a single item. -/
  | ask (id : String)
  /-- A run of the archive job begins; unless one is going on it asks for all
      flagged items. -/
  | sweep (time : Timestamp)
  /-- A run of the archive job gives its lock back. -/
  | release
  /-- The errand with this number gets to its next stage. -/
  | work (i : Nat) (now : Instant)
  /-- The repository becomes another by itself. -/
  | change (origin : σ)

namespace Intake

variable {σ β ν : Type} [ContentOrigin σ] [BlobStorage β]

/-- What one event makes of the errands. -/
def step (c : Caretaker) (r : Intake σ β ν) : IntakeEvent σ → Intake σ β ν
  | .ask id => { r with errands := r.errands ++ [⟨id, .asked⟩] }
  | .sweep time =>
    match c.begin time .archive r.world with
    | (.ok (.archive ids _), world) =>
      { world, errands := r.errands ++ ids.map fun id => ⟨id, .asked⟩ }
    | (_, world) => { r with world }
  | .release => { r with world := Caretaker.release .archive r.world }
  | .work i now =>
    match r.errands[i]? with
    | none => r
    | some e =>
      let reached := c.advance now e.id e.stage r.world
      { world := reached.2, errands := r.errands.set i { e with stage := reached.1 } }
  | .change origin => { r with world := { r.world with origin } }

/-- The errands after one event after the other. -/
def run (c : Caretaker) (w : JobState σ β ν) (events : List (IntakeEvent σ)) : Intake σ β ν :=
  events.foldl (step c) { world := w }

theorem run_append (c : Caretaker) (w : JobState σ β ν) (events more : List (IntakeEvent σ)) :
    run c w (events ++ more) = more.foldl (step c) (run c w events) := List.foldl_append

variable {c : Caretaker} {r : Intake σ β ν}

theorem step_sweep_begun {time : Timestamp} {ids : List String} {report : JobTally}
    {world : JobState σ β ν}
    (h : c.begin time .archive r.world = (.ok (.archive ids report), world)) :
    step c r (.sweep time) = ⟨world, r.errands ++ ids.map fun id => ⟨id, .asked⟩⟩ := by
  rw [step, h]

theorem step_sweep_refused {time : Timestamp} {outcome : RunOutcome} {world : JobState σ β ν}
    (h : c.begin time .archive r.world = (.error outcome, world)) :
    step c r (.sweep time) = { r with world } := by
  rw [step, h]

theorem world_sweep (time : Timestamp) :
    (step c r (.sweep time)).world = (c.begin time .archive r.world).2 := by
  rw [step]
  rcases c.begin time .archive r.world with ⟨answer, world⟩
  cases answer with
  | error outcome => rfl
  | ok begun => cases begun <;> rfl

theorem step_work {i : Nat} {e : Errand} (now : Instant) (h : r.errands[i]? = some e) :
    step c r (.work i now) = ⟨(c.advance now e.id e.stage r.world).2,
      r.errands.set i ⟨e.id, (c.advance now e.id e.stage r.world).1⟩⟩ := by
  rw [step, h]

theorem step_work_none {i : Nat} (now : Instant) (h : r.errands[i]? = none) :
    step c r (.work i now) = r := by
  rw [step, h]

/-! ## The archive job as one of the orders -/

/-- Working on one errand only is nothing but getting it further. -/
theorem foldl_work (c : Caretaker) (now : Instant) (id : String) (done rest : List Errand) (k : Nat)
    (stage : ErrandStage) (w : JobState σ β ν) :
    (List.replicate k (.work done.length now)).foldl (step c) ⟨w, done ++ ⟨id, stage⟩ :: rest⟩
      = ⟨(c.proceed now id k (stage, w)).2,
          done ++ ⟨id, (c.proceed now id k (stage, w)).1⟩ :: rest⟩ := by
  induction k generalizing stage w with
  | zero => rfl
  | succ k ih =>
      have hget : (done ++ ⟨id, stage⟩ :: rest)[done.length]? = some ⟨id, stage⟩ := by
        rw [List.getElem?_append_right (Nat.le_refl _), Nat.sub_self, List.getElem?_cons_zero]
      have hset : ∀ e : Errand, (done ++ ⟨id, stage⟩ :: rest).set done.length e
          = done ++ e :: rest := fun e => by
        rw [List.set_append_right _ _ (Nat.le_refl _), Nat.sub_self, List.set_cons_zero]
      rw [List.replicate_succ, List.foldl_cons, step_work now hget, hset, ih]
      rfl

/-- The events when someone asks for an item and its errand, which gets this
    number, is worked on for some stages. -/
def asking (id : String) (i : Nat) (now : Instant) (k : Nat) : List (IntakeEvent σ) :=
  .ask id :: List.replicate k (.work i now)

theorem foldl_asking (c : Caretaker) (now : Instant) (id : String) (k : Nat)
    (r : Intake σ β ν) :
    (asking id r.errands.length now k).foldl (step c) r
      = ⟨(c.proceed now id k (.asked, r.world)).2,
          r.errands ++ [⟨id, (c.proceed now id k (.asked, r.world)).1⟩]⟩ := by
  rw [asking, List.foldl_cons, step, foldl_work]

theorem run_asking (c : Caretaker) (now : Instant) (id : String) (k : Nat) (w : JobState σ β ν) :
    run c w (asking id 0 now k) = ⟨(c.proceed now id k (.asked, w)).2,
      [⟨id, (c.proceed now id k (.asked, w)).1⟩]⟩ := foldl_asking c now id k { world := w }

/-- To archive a single item is to ask for it and to work on its errand. -/
theorem world_asking (c : Caretaker) (now : Instant) (id : String) (r : Intake σ β ν) :
    ((asking id r.errands.length now 7).foldl (step c) r).world
      = (c.archiveItem now id r.world).2 := by
  rw [foldl_asking, c.proceed_eq_archiveItem]
  rfl

/-- Archiving one item after the other is working on one errand after the
    other. -/
theorem exists_archiveAll_eq (c : Caretaker) (now : Instant) (ids : List String)
    (report : JobTally) (done : List Errand) (w : JobState σ β ν) :
    ∃ events : List (IntakeEvent σ),
      (events.foldl (step c) ⟨w, done ++ ids.map fun id => ⟨id, .asked⟩⟩).world
        = (c.archiveAll now ids report w).2 := by
  induction ids generalizing report done w with
  | nil => exact ⟨[], rfl⟩
  | cons id ids ih =>
      have hitem := foldl_work c now id done (ids.map fun id => ⟨id, .asked⟩) 7 .asked w
      rw [c.proceed_eq_archiveItem] at hitem
      rw [Caretaker.archiveAll]
      rcases hout : c.archiveItem now id w with ⟨outcome, w'⟩
      rw [hout, Caretaker.atEnd, List.append_cons done ⟨id, .ended outcome⟩] at hitem
      -- a run that is cut short leaves the other errands alone
      by_cases hcut : outcome = .cutShort
      · exact ⟨_, (congrArg world hitem).trans (by rw [hcut])⟩
      · obtain ⟨events, hevents⟩ := ih (Caretaker.count report outcome)
          (done ++ [⟨id, .ended outcome⟩]) w'
        refine ⟨List.replicate 7 (.work done.length now) ++ events, ?_⟩
        rw [List.foldl_append, List.map_cons, hitem]
        cases outcome with
        | cutShort => exact absurd rfl hcut
        | _ => exact hevents

/-- A run of the archive job that begins has items to go through. -/
theorem begin_archive {time : Timestamp} {w w' : JobState σ β ν} {begun : Run}
    (h : c.begin time .archive w = (.ok begun, w')) : ∃ ids, begun = .archive ids {} := by
  rw [Caretaker.begin] at h
  cases hlock : (w.locks.get .archive).acquire with
  | none =>
      rw [hlock] at h
      cases h
  | some lock =>
      simp only [hlock, Caretaker.survey] at h
      rcases hflagged : ContentOrigin.flagged w.origin c.rules.query with ⟨listed, origin⟩
      rw [hflagged] at h
      cases listed with
      | error e => cases h
      | ok ids =>
          cases h
          exact ⟨ids, rfl⟩

/-- A run of the archive job is one order of events. -/
theorem exists_run_eq [NotaryService ν] (c : Caretaker) (now : Instant) (time : Timestamp)
    (w : JobState σ β ν) :
    ∃ events, (run c w events).world = (c.run now time .archive w).2 := by
  rw [Caretaker.run]
  rcases hbegin : c.begin time .archive w with ⟨answer, w'⟩
  cases answer with
  | error outcome =>
      refine ⟨[.sweep time], ?_⟩
      rw [run, List.foldl_cons, step_sweep_refused hbegin]
      rfl
  | ok begun =>
      obtain ⟨ids, rfl⟩ := begin_archive hbegin
      obtain ⟨events, hevents⟩ := exists_archiveAll_eq c now ids {} [] w'
      refine ⟨.sweep time :: events ++ [.release], ?_⟩
      rw [run, List.cons_append, List.foldl_cons, step_sweep_begun hbegin,
        List.foldl_append]
      exact congrArg (Caretaker.release .archive) hevents

end Intake

/-! ## What a repository keeps -/

/-- Whether a repository stays as it is in some respect, whatever it is asked. -/
structure ContentOrigin.Keeps {σ : Type} [ContentOrigin σ] (P : σ → Prop) : Prop where
  fetch : ∀ s id, P s → P (ContentOrigin.fetch s id).2
  flagged : ∀ s query, P s → P (ContentOrigin.flagged s query).2
  acknowledge : ∀ s id, P s → P (ContentOrigin.acknowledge s id).2
  delete : ∀ s id, P s → P (ContentOrigin.delete s id).2

section

variable {σ β ν : Type} [ContentOrigin σ] [BlobStorage β] {P : σ → Prop}

theorem Caretaker.origin_begin (hkeeps : ContentOrigin.Keeps P) (c : Caretaker) (time : Timestamp)
    {w : JobState σ β ν} (h : P w.origin) : P (c.begin time .archive w).2.origin := by
  rw [Caretaker.begin]
  cases (w.locks.get .archive).acquire with
  | none => exact h
  | some lock =>
      have hflagged := hkeeps.flagged w.origin c.rules.query h
      simp only [Caretaker.survey]
      rcases hlisted : ContentOrigin.flagged w.origin c.rules.query with ⟨listed, origin⟩
      rw [hlisted] at hflagged
      cases listed with
      | error e => exact hflagged
      | ok ids => exact hflagged

/-- What a step of an errand asks of the repository. -/
theorem Caretaker.origin_advance_cases (c : Caretaker) (now : Instant) (id : String)
    (stage : ErrandStage) (w : JobState σ β ν) :
    (stage = .admitted ∧
      (c.advance now id stage w).2.origin = (ContentOrigin.fetch w.origin id).2) ∨
    (stage ≠ .admitted ∧
      ((c.advance now id stage w).2.origin = w.origin ∨
        (c.advance now id stage w).2.origin = (ContentOrigin.acknowledge w.origin id).2 ∨
        (c.advance now id stage w).2.origin = (ContentOrigin.delete w.origin id).2)) := by
  cases stage with
  | asked =>
      refine Or.inr ⟨ErrandStage.noConfusion, Or.inl ?_⟩
      rw [advance]
      rcases w.guard.test now id with ⟨verdict, guard⟩
      cases verdict <;> rfl
  | admitted =>
      refine Or.inl ⟨rfl, ?_⟩
      rw [advance]
      rcases ContentOrigin.fetch w.origin id with ⟨answer, origin⟩
      cases answer <;> rfl
  | fetched content n =>
      refine Or.inr ⟨ErrandStage.noConfusion, Or.inl ?_⟩
      rw [advance]
      cases w.stores.records.contains content.id with
      | error e => rfl
      | ok present =>
          cases present with
          | true => rfl
          | false =>
              simp only
              cases c.archiver.contentKey (c.draws n) (c.choicesFor content) <;> rfl
  | cleared content n key =>
      refine Or.inr ⟨ErrandStage.noConfusion, Or.inl ?_⟩
      rw [advance]
      rcases c.archiver.storeContent (c.draws n) key content w.stores.blobs with ⟨result, blobs⟩
      cases result <;> rfl
  | stored content n key blob =>
      refine Or.inr ⟨ErrandStage.noConfusion, Or.inl ?_⟩
      rw [advance]
      cases Archiver.checkContent (c.choicesFor content) content blob with
      | error e => rfl
      | ok verify =>
          simp only
          cases w.stores.records.save (c.archiver.newEntry (c.draws n) key content blob) <;> rfl
  | settling content outcome =>
      refine Or.inr ⟨ErrandStage.noConfusion, Or.inr (Or.inl ?_)⟩
      rw [advance]
      rcases ContentOrigin.acknowledge w.origin id with ⟨answer, origin⟩
      cases answer <;> rfl
  | deleting content outcome => exact Or.inr ⟨ErrandStage.noConfusion, Or.inr (Or.inr rfl)⟩
  | ended outcome => exact Or.inr ⟨ErrandStage.noConfusion, Or.inl rfl⟩

theorem Caretaker.origin_advance (hkeeps : ContentOrigin.Keeps P) (c : Caretaker) (now : Instant)
    (id : String) (stage : ErrandStage) {w : JobState σ β ν} (h : P w.origin) :
    P (c.advance now id stage w).2.origin := by
  rcases c.origin_advance_cases now id stage w with ⟨-, hfetch⟩ | ⟨-, hsame | hmark | hdelete⟩
  · exact hfetch ▸ hkeeps.fetch w.origin id h
  · exact hsame ▸ h
  · exact hmark ▸ hkeeps.acknowledge w.origin id h
  · exact hdelete ▸ hkeeps.delete w.origin id h

/-- What a repository keeps is kept in any order of events, unless it changes by
    itself. -/
theorem Intake.origin_run (hkeeps : ContentOrigin.Keeps P) (c : Caretaker) {w : JobState σ β ν}
    (h : P w.origin) {events : List (IntakeEvent σ)}
    (hchange : ∀ origin, .change origin ∈ events → P origin) :
    P (run c w events).world.origin := by
  have hfoldl : ∀ r : Intake σ β ν, P r.world.origin →
      P (events.foldl (step c) r).world.origin := by
    induction events with
    | nil => exact fun _ hr => hr
    | cons event events ih =>
        intro r hr
        refine ih (fun origin ho => hchange origin (List.mem_cons_of_mem _ ho)) _ ?_
        cases event with
        | ask id => exact hr
        | sweep time =>
            rw [world_sweep]
            exact c.origin_begin hkeeps time hr
        | release => exact hr
        | work i now =>
            cases hget : r.errands[i]? with
            | none =>
                rw [step_work_none now hget]
                exact hr
            | some e =>
                rw [step_work now hget]
                exact c.origin_advance hkeeps now e.id e.stage hr
        | change origin => exact hchange origin List.mem_cons_self
  exact hfoldl _ h

end

end ContentVault
