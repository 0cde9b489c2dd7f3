import ContentVault.Proofs.Archiver.Restoring
import ContentVault.Proofs.Jobs.Deleting
import ContentVault.Proofs.Jobs.Traffic

/-! # Calls for one id

    Between looking for an entry and saving one a call writes a whole blob, so
    any number of calls for one id may find that there is none.  What decides
    between them is the table, which takes one row for an id: the first call to
    save has archived its content (`Contest`), whatever order the stages of the
    calls come in, and all others are told that there is an entry.

    Main statement: `one_call_archives`. -/

namespace ContentVault

/-! ## One call -/

namespace ArchiveStage

/-- How many stages are behind a call. -/
def rank : ArchiveStage → Nat
  | called => 0
  | cleared _ => 1
  | begun _ _ => 2
  | stored _ _ _ => 3
  | ended _ => 4

theorem eq_ended_of_rank {stage : ArchiveStage} (h : 4 ≤ stage.rank) :
    ∃ result, stage = .ended result := by
  cases stage with
  | ended result => exact ⟨result, rfl⟩
  | _ => simp [rank] at h

end ArchiveStage

namespace ArchiveCall

theorem Moves.rank {call : ArchiveCall} {now : Timestamp} {s t : Stores BlobStore}
    {stage next : ArchiveStage} (h : call.Moves now s stage next t) :
    min 4 (stage.rank + 1) ≤ next.rank := by
  cases h <;> simp [ArchiveStage.rank]

/-- Whether a call would archive its content by itself. -/
def Succeeds (call : ArchiveCall) (s : Stores BlobStore) : Prop :=
  ∃ receipt t, call.archiver.archive call.draws call.content call.choices s = (.ok receipt, t)

/-- Nothing is wrong with a call that would archive its content. -/
theorem Succeeds.right {call : ArchiveCall} {s : Stores BlobStore} (h : call.Succeeds s) :
    call.IsRight := by
  obtain ⟨receipt, t, hsome⟩ := h
  rcases call.archiver.archive_cases call.draws call.content call.choices s
    with ⟨-, e, hnone⟩ | ⟨-, -, e, hnone⟩ | ⟨-, -, -, e, hnone⟩
    | ⟨hbegins, hcompleted, hvouched, -⟩
  · cases hnone.symm.trans hsome
  · cases hnone.symm.trans hsome
  · cases hnone.symm.trans hsome
  · exact ⟨hbegins.2, hcompleted, hvouched⟩

end ArchiveCall

/-- Whether an event is one of a call. -/
def TrafficEvent.isOf {ι κ : Type} [DecidableEq ι] (i : ι) : TrafficEvent ι κ → Bool
  | archive j _ => i = j
  | sweep _ _ => false

namespace Traffic

variable {ι κ : Type} [DecidableEq ι] [DecidableEq κ] {calls : ι → ArchiveCall} {c : Caretaker}
  {s : Stores BlobStore} {w : Traffic ι κ} {events : List (TrafficEvent ι κ)} {id : String}

/-- A call has a stage behind it for each of its events, as far as there are
    stages. -/
theorem rank_run (calls : ι → ArchiveCall) (c : Caretaker) (s : Stores BlobStore)
    (events : List (TrafficEvent ι κ)) (i : ι) :
    min 4 (events.countP (·.isOf i)) ≤ ((run calls c s events).archives i).rank := by
  induction events using List.reverseRecOn with
  | nil => exact Nat.le_refl _
  | append_singleton events event ih =>
      rw [run_concat, List.countP_append, List.countP_singleton]
      cases event with
      | sweep j now =>
          rw [archives_step_sweep]
          exact ih
      | archive j now =>
          rw [TrafficEvent.isOf]
          by_cases hij : i = j
          · subst hij
            have hreaches : Reaches calls (run calls c s events) := reaches_run events
            have hrank := (hreaches.moves c i now).rank
            rw [decide_eq_true rfl, if_pos rfl]
            omega
          · rw [decide_eq_false hij, if_neg Bool.false_ne_true, archives_step_of_ne hij]
            exact ih

/-- A call has come to its end after four of its events. -/
theorem ended_run {i : ι} (h : 4 ≤ events.countP (·.isOf i)) :
    ∃ result, (run calls c s events).archives i = .ended result := by
  have hrank := rank_run calls c s events i
  rw [Nat.min_eq_left h] at hrank
  exact ArchiveStage.eq_ended_of_rank hrank

/-! ## The contest -/

/-- Whether a call has archived its content and its entry has come to the rows
    that there were. -/
structure Leads (calls : ι → ArchiveCall) (s : Stores BlobStore)
    (events : List (TrafficEvent ι κ)) (w : Traffic ι κ) (i : ι) : Prop where
  saved : ∃ now verify, .archive i now ∈ events ∧
    w.archives i = .ended (.ok ((calls i).archiver.receipt (calls i).key (calls i).content
      (calls i).outcome verify)) ∧
    w.rows = s.records.table.rows ++ [Row.ofEntry ((calls i).entryAt now)]
  only : ∀ j, w.HasArchived j → j = i

/-- How calls for one id stand to each other: none has archived its content and
    the rows are those that there were, or one has. -/
structure Contest (calls : ι → ArchiveCall) (s : Stores BlobStore)
    (events : List (TrafficEvent ι κ)) (w : Traffic ι κ) : Prop where
  reaches : Reaches calls w
  standing : (w.rows = s.records.table.rows ∧ ∀ i, ¬ w.HasArchived i) ∨
    ∃ i, Leads calls s events w i
  /-- What nothing is wrong with is refused for the entry that there is. -/
  refusals : (∀ event ∈ events, event.now.HasPlainYear) → ∀ i e,
    w.archives i = .ended (.error e) → (calls i).IsRight →
    (∃ j, w.HasArchived j) ∧ e = .alreadyArchived (calls i).content.id

omit [DecidableEq ι] [DecidableEq κ] in
theorem Leads.hasArchived {i : ι} (h : Leads calls s events w i) : w.HasArchived i := by
  obtain ⟨now, verify, -, hstage, -⟩ := h.saved
  exact ⟨_, hstage⟩

omit [DecidableEq ι] [DecidableEq κ] in
/-- The row of the call that leads is in the table. -/
theorem Leads.mem_rows {i : ι} (h : Leads calls s events w i) :
    ∃ now, .archive i now ∈ events ∧ Row.ofEntry ((calls i).entryAt now) ∈ w.rows := by
  obtain ⟨now, verify, hevent, -, hrows⟩ := h.saved
  refine ⟨now, hevent, ?_⟩
  rw [hrows]
  exact List.mem_append_right _ (List.mem_singleton_self _)

/-- A call leads on when others do not archive their content. -/
theorem Leads.keep {i : ι} (h : Leads calls s events w i) {event : TrafficEvent ι κ}
    (hrows : (step calls c w event).rows = w.rows)
    (harchived : ∀ k, (step calls c w event).HasArchived k → w.HasArchived k) :
    Leads calls s (events ++ [event]) (step calls c w event) i where
  saved := by
    obtain ⟨now, verify, hevent, hstage, hsaved⟩ := h.saved
    exact ⟨now, verify, List.mem_append_left _ hevent, ended_step hstage event,
      hrows.trans hsaved⟩
  only := fun j hj => h.only j (harchived j hj)

section

variable (hid : ∀ i, (calls i).content.id = id) (hnone : s.records.table.find? id = none)
include hid

omit [DecidableEq ι] [DecidableEq κ] in
/-- When a call has archived its content there is a row for the id. -/
theorem Leads.find?_ne_none {i : ι} (h : Leads calls s events w i) :
    w.stores.records.table.find? id ≠ none := by
  obtain ⟨now, -, hmem⟩ := h.mem_rows
  have hfound := Table.find?_of_mem hmem
  rw [ArchiveCall.id_entryAt, hid] at hfound
  rw [hfound]
  exact fun h => nomatch h

omit [DecidableEq ι] [DecidableEq κ] in
/-- When a call has archived its content, all calls are told that there is an
    entry. -/
theorem Leads.contains {i : ι} (h : Leads calls s events w i)
    (hclock : ∀ event ∈ events, event.now.HasPlainYear) :
    w.stores.records.contains id = .ok true := by
  obtain ⟨now, hevent, hmem⟩ := h.mem_rows
  have hreadable : ((calls i).entryAt now).IsReadable :=
    (calls i).archiver.isReadable_entryFor _ _ (hclock _ hevent)
  have hcontains := RecordStore.contains_of_mem hreadable hmem
  rw [ArchiveCall.id_entryAt, hid] at hcontains
  exact hcontains

/-- Once a call has archived its content, the table stays as it is. -/
theorem Contest.rows_step (h : Contest calls s events w) {i : ι} (hi : w.HasArchived i)
    (event : TrafficEvent ι κ) : (Traffic.step calls c w event).rows = w.rows := by
  rcases rows_step_cases h.reaches c event with ⟨hrows, -⟩ | ⟨k, created, now, -, hsaves⟩
  · exact hrows
  · rcases h.standing with ⟨-, hnobody⟩ | ⟨leader, hleads⟩
    · exact absurd hi (hnobody i)
    · have hnew := hsaves.new
      rw [hid] at hnew
      exact absurd hnew (hleads.find?_ne_none hid)

include hnone

omit [DecidableEq ι] [DecidableEq κ] in
/-- While no call has archived its content, there is no row for the id. -/
theorem Contest.find?_eq_none_iff (h : Contest calls s events w) :
    w.stores.records.table.find? id = none ↔ ∀ i, ¬ w.HasArchived i := by
  rcases h.standing with ⟨hrows, hnobody⟩ | ⟨i, hleads⟩
  · refine iff_of_true (Table.find?_eq_none_iff.mpr fun r hr => ?_) hnobody
    have hr' : r ∈ s.records.table.rows := hrows ▸ hr
    exact Table.find?_eq_none_iff.mp hnone r hr'
  · exact iff_of_false (hleads.find?_ne_none hid) fun hnobody => hnobody i hleads.hasArchived

omit [DecidableEq ι] [DecidableEq κ] in
/-- What a call is refused for, by itself or for the entry of another. -/
theorem Contest.refusal (h : Contest calls s events w)
    (hclock : ∀ event ∈ events, event.now.HasPlainYear) {i : ι} {now : Timestamp}
    {stage : ArchiveStage} {e : VaultFailure} {t : Stores BlobStore}
    (hmoves : (calls i).Moves now w.stores stage (.ended (.error e)) t)
    (hstage : w.archives i = stage) (hright : (calls i).IsRight) :
    (∃ j, w.HasArchived j) ∧ e = .alreadyArchived (calls i).content.id := by
  have hleader : w.stores.records.table.find? (calls i).content.id ≠ none →
      ∃ j, Leads calls s events w j := by
    intro hfound
    rw [hid] at hfound
    rcases h.standing with ⟨-, hnobody⟩ | hleads
    · exact absurd ((h.find?_eq_none_iff hid hnone).mpr hnobody) hfound
    · exact hleads
  cases hmoves with
  | refused e hfound hthere =>
      obtain ⟨j, hleads⟩ := hleader hfound
      refine ⟨⟨j, hleads.hasArchived⟩, hthere ?_⟩
      rw [hid]
      exact hleads.contains hid hclock
  | keyless e hnot => exact absurd hright.key hnot
  | discarded created e hnot => exact absurd hright.completed hnot
  | uncounted created e hcompleted hnot => exact absurd hright.vouched hnot
  | unvouched created e hnot => exact absurd hright.vouched hnot
  | late created hvouched hfound =>
      obtain ⟨j, hleads⟩ := hleader hfound
      exact ⟨⟨j, hleads.hasArchived⟩, rfl⟩
  | ended result => exact h.refusals hclock i e hstage hright

theorem Contest.step (h : Contest calls s events w) (c : Caretaker) (event : TrafficEvent ι κ) :
    Contest calls s (events ++ [event]) (Traffic.step calls c w event) where
  reaches := h.reaches.step event
  standing := by
    rcases rows_step_cases h.reaches c event
      with ⟨hrows, harchived⟩ | ⟨i, created, now, rfl, hsaves⟩
    · rcases h.standing with ⟨hsame, hnobody⟩ | ⟨i, hleads⟩
      · exact Or.inl ⟨hrows.trans hsame, fun i hi => hnobody i (harchived i hi)⟩
      · exact Or.inr ⟨i, hleads.keep hrows harchived⟩
    · -- whoever saves an entry is the first to
      have hnew := hsaves.new
      rw [hid] at hnew
      have hnobody := (h.find?_eq_none_iff hid hnone).mp hnew
      rcases h.standing with ⟨hsame, -⟩ | ⟨j, hleads⟩
      · obtain ⟨verify, hreceipt⟩ := hsaves.receipt
        refine Or.inr ⟨i, ⟨now, verify, ?_, hreceipt, ?_⟩, fun j hj => ?_⟩
        · exact List.mem_append_right _ (List.mem_singleton_self _)
        · rw [hsaves.rows, hsame]
        · by_cases hji : j = i
          · exact hji
          · obtain ⟨receipt, hj⟩ := hj
            rw [archives_step_of_ne hji] at hj
            exact absurd ⟨receipt, hj⟩ (hnobody j)
      · exact absurd hleads.hasArchived (hnobody j)
  refusals := by
    intro hclock k e hk hright
    have hclock' : ∀ event ∈ events, event.now.HasPlainYear :=
      fun event hevent => hclock event (List.mem_append_left _ hevent)
    have hbefore : (∃ j, w.HasArchived j) ∧ e = .alreadyArchived (calls k).content.id := by
      cases event with
      | sweep j now => exact h.refusals hclock' k e hk hright
      | archive i now =>
          by_cases hki : k = i
          · subst hki
            have hmoves := h.reaches.moves c k now
            rw [hk] at hmoves
            exact h.refusal hid hnone hclock' hmoves rfl hright
          · rw [archives_step_of_ne hki] at hk
            exact h.refusals hclock' k e hk hright
    obtain ⟨⟨j, hj⟩, he⟩ := hbefore
    exact ⟨⟨j, hj.step event⟩, he⟩

theorem contest_run (c : Caretaker) (events : List (TrafficEvent ι κ)) :
    Contest calls s events (run calls c s events) := by
  induction events using List.reverseRecOn with
  | nil =>
      constructor
      case reaches => exact fun i => trivial
      case standing => exact Or.inl ⟨rfl, fun i ⟨_, h⟩ => nomatch h⟩
      case refusals => exact fun _ i e h => nomatch h
  | append_singleton events event ih =>
      rw [run_concat]
      exact ih.step hid hnone c event

/-- Once a call has archived its content, the table stays as it is. -/
theorem rows_run_append (c : Caretaker) {before : List (TrafficEvent ι κ)} {i : ι}
    (h : (run calls c s before).HasArchived i) (rest : List (TrafficEvent ι κ)) :
    (run calls c s (before ++ rest)).rows = (run calls c s before).rows := by
  induction rest using List.reverseRecOn with
  | nil => rw [List.append_nil]
  | append_singleton rest event ih =>
      rw [← List.append_assoc, run_concat, ← ih]
      exact (contest_run hid hnone c (before ++ rest)).rows_step hid (h.run_append rest) event

end

/-! ## The winner -/

omit [DecidableEq ι] [DecidableEq κ] in
theorem Contest.eq_of_hasArchived (h : Contest calls s events w) {i j : ι} (hi : w.HasArchived i)
    (hj : w.HasArchived j) : i = j := by
  rcases h.standing with ⟨-, hnobody⟩ | ⟨k, hleads⟩
  · exact absurd hi (hnobody i)
  · rw [hleads.only i hi, hleads.only j hj]

omit [DecidableEq ι] [DecidableEq κ] in
/-- When all calls have ended that would archive their content by themselves, one
    has, and the others were told that there is an entry. -/
theorem Contest.exists_winner (h : Contest calls s events w) (hid : ∀ i, (calls i).content.id = id)
    (hsucceeds : ∀ i, (calls i).Succeeds s) (hclock : ∀ event ∈ events, event.now.HasPlainYear)
    (hended : ∀ i, ∃ result, w.archives i = .ended result) (hsome : Nonempty ι) :
    ∃ i, w.HasArchived i ∧ ∀ j, j ≠ i → w.archives j = .ended (.error (.alreadyArchived id)) := by
  have hrefusals : ∀ i e, w.archives i = .ended (.error e) →
      (∃ j, w.HasArchived j) ∧ e = .alreadyArchived id := by
    intro i e he
    have hrefusal := h.refusals hclock i e he (hsucceeds i).right
    rw [hid] at hrefusal
    exact hrefusal
  -- a call that has not archived its content was refused for one that has
  obtain ⟨i, hi⟩ : ∃ i, w.HasArchived i := by
    obtain ⟨j⟩ := hsome
    obtain ⟨result, hj⟩ := hended j
    cases result with
    | ok receipt => exact ⟨j, receipt, hj⟩
    | error e => exact (hrefusals j e hj).1
  refine ⟨i, hi, fun j hji => ?_⟩
  obtain ⟨result, hj⟩ := hended j
  cases result with
  | ok receipt => exact absurd (h.eq_of_hasArchived ⟨receipt, hj⟩ hi) hji
  | error e => rw [hj, (hrefusals j e hj).2]

omit [DecidableEq ι] [DecidableEq κ] in
/-- The one row that may be new names the blob of the winner. -/
theorem Contest.unnamed (h : Contest calls s events w)
    (hapart : ∀ i j, (calls i).blob = (calls j).blob → i = j) {i : ι}
    (hunnamed : ¬ IsNamed s.records.table.rows (calls i).blob) (hi : ¬ w.HasArchived i) :
    ¬ IsNamed w.rows (calls i).blob := by
  rcases h.standing with ⟨hrows, -⟩ | ⟨k, hleads⟩
  · rw [hrows]
    exact hunnamed
  · obtain ⟨now, verify, -, -, hrows⟩ := hleads.saved
    rw [hrows, ArchiveCall.isNamed_append_entryAt]
    rintro (hnamed | hblob)
    · exact hunnamed hnamed
    · exact hi (hapart i k hblob ▸ hleads.hasArchived)

/-- What calls for one id come to, in this order of events. -/
structure HasOneWinner (calls : ι → ArchiveCall) (c : Caretaker) (s : Stores BlobStore)
    (id : String) (events : List (TrafficEvent ι κ)) : Prop where
  /-- No two calls archive their content. -/
  unique : ∀ i j, (run calls c s events).HasArchived i → (run calls c s events).HasArchived j →
    i = j
  /-- A call comes to its end after four stages. -/
  ends : ∀ i, 4 ≤ events.countP (·.isOf i) →
    ∃ result, (run calls c s events).archives i = .ended result
  /-- If all calls would archive their content by themselves, one does, and the
  others are told that there is an entry. -/
  exists_winner : (∀ i, (calls i).Succeeds s) → (∀ event ∈ events, event.now.HasPlainYear) →
    (∀ i, ∃ result, (run calls c s events).archives i = .ended result) → Nonempty ι →
    ∃ i, (run calls c s events).HasArchived i ∧
      ∀ j, j ≠ i → (run calls c s events).archives j = .ended (.error (.alreadyArchived id))
  /-- What a call that has archived its content has added is a row with its own
  entry, and from then on the table stays as it is. -/
  record : ∀ before rest i, events = before ++ rest → (run calls c s before).HasArchived i →
    (∃ now verify, .archive i now ∈ before ∧
      (run calls c s before).archives i = .ended (.ok ((calls i).archiver.receipt (calls i).key
        (calls i).content (calls i).outcome verify)) ∧
      (run calls c s before).rows
        = s.records.table.rows ++ [Row.ofEntry ((calls i).entryAt now)]) ∧
    (run calls c s events).rows = (run calls c s before).rows
  /-- Without such a call the table is what it was. -/
  unchanged : (∀ i, ¬ (run calls c s events).HasArchived i) →
    (run calls c s events).rows = s.records.table.rows
  /-- No row names the blob of another call, if no two blobs have the same UUID
  and no row named one of them. -/
  unnamed : (∀ i j, (calls i).blob = (calls j).blob → i = j) →
    (∀ i, ¬ IsNamed s.records.table.rows (calls i).blob) →
    ∀ i, ¬ (run calls c s events).HasArchived i →
      ¬ IsNamed (run calls c s events).rows (calls i).blob

/-- Calls for an id that there is no entry for have one winner, whatever order
    their stages come in and whatever is swept in between. -/
theorem one_call_archives (calls : ι → ArchiveCall) (c : Caretaker) (s : Stores BlobStore)
    (id : String) (events : List (TrafficEvent ι κ)) (hid : ∀ i, (calls i).content.id = id)
    (hnone : s.records.table.find? id = none) : HasOneWinner calls c s id events := by
  have hcontest := contest_run (s := s) hid hnone c events
  constructor
  case unique => exact fun i j hi hj => hcontest.eq_of_hasArchived hi hj
  case ends => exact fun i h => ended_run h
  case exists_winner =>
    intro hsucceeds hclock hended hsome
    exact hcontest.exists_winner hid hsucceeds hclock hended hsome
  case record =>
    rintro before rest i rfl hi
    refine ⟨?_, rows_run_append hid hnone c hi rest⟩
    rcases (contest_run (s := s) hid hnone c before).standing with ⟨-, hnobody⟩ | ⟨k, hleads⟩
    · exact absurd hi (hnobody i)
    · rw [hleads.only i hi]
      exact hleads.saved
  case unchanged =>
    intro hnobody
    rcases hcontest.standing with ⟨hrows, -⟩ | ⟨k, hleads⟩
    · exact hrows
    · exact absurd hleads.hasArchived (hnobody k)
  case unnamed => exact fun hapart hunnamed i hi => hcontest.unnamed hapart (hunnamed i) hi

end Traffic

/-! ## Two calls -/

namespace Sample

/-- Two pipelines are to archive different content under one id. -/
def rivals : Bool → ArchiveCall
  | false => ⟨archiver, draws, content, {}⟩
  | true => ⟨rotated, { draws with blob := .ofNat 2 }, altered, { encrypt := true }⟩

/-- Both find that there is no entry and store their blobs before either saves an
    entry. -/
def duel : List (TrafficEvent Bool Empty) :=
  [false, true, false, true, false, true, true, false].map fun i => .archive i draws.now

theorem rivals_succeed (i : Bool) : (rivals i).Succeeds stores := by
  have hright : (rivals i).content.stream.failure = none ∧ (rivals i).IsVouched ∧
      (rivals i).archiver.HasKey (rivals i).choices := by
    cases i with
    | false =>
        refine ⟨rfl, ⟨by decide, fun n hn => ?_, fun hrefuses => nomatch hrefuses.1⟩, hasKey _⟩
        cases hn
        rfl
    | true =>
        refine ⟨rfl, ⟨by decide, fun n hn => ?_, fun hrefuses => nomatch hrefuses.1⟩,
          fun _ _ => trivial⟩
        cases hn
        rfl
  obtain ⟨verify, records, harchive, -⟩ :=
    (rivals i).archiver.archive_of_vouched (rivals i).draws (s := stores) ⟨rfl, hright.2.2⟩
      hright.1 hright.2.1
  exact ⟨_, _, harchive⟩

end Sample

namespace Traffic

/-- One of two calls archives its content, and the other is told that there is an
    entry. -/
theorem one_call_archives_of_two :
    (∀ i, (Sample.rivals i).content.id = "report") ∧
    Sample.stores.records.table.find? "report" = none ∧
    HasOneWinner Sample.rivals Sample.tidy Sample.stores "report" Sample.duel ∧
    ∃ i, (run Sample.rivals Sample.tidy Sample.stores Sample.duel).HasArchived i ∧
      ∀ j, j ≠ i → (run Sample.rivals Sample.tidy Sample.stores Sample.duel).archives j
        = .ended (.error (.alreadyArchived "report")) := by
  have hid : ∀ i, (Sample.rivals i).content.id = "report" := by
    intro i
    cases i <;> rfl
  have hone := one_call_archives Sample.rivals Sample.tidy Sample.stores "report" Sample.duel hid
    rfl
  have hcount : ∀ i, 4 ≤ Sample.duel.countP (·.isOf i) := by decide
  refine ⟨hid, rfl, hone, hone.exists_winner Sample.rivals_succeed (fun event hevent => ?_)
    (fun i => hone.ends i (hcount i)) ⟨true⟩⟩
  obtain ⟨i, -, rfl⟩ := List.mem_map.mp hevent
  exact (by decide : Sample.draws.now.HasPlainYear)

end Traffic

end ContentVault
