import ContentVault.Proofs.Jobs.Custody
import ContentVault.Proofs.Jobs.Locking
import Mathlib.Data.List.Perm.Basic

/-! # The ledger during a run

    In a run of the archive job several items are under way at once, over the
    same stores.  What carries through from one of its steps to the next is
    that each of them has a draw of its own that is still free, and whatever its
    stage says it has done so far (`Custody.Tends`).  A sweep carries what it
    has read, and that none of the blobs it has still to look at is one of the
    ledger (`Custody.Spares`).  A step of a run keeps this (`RunHolds.advanceRun`),
    so a run keeps it however far it gets, and every event of a vault keeps the
    ledger or adds to it (`carries_runAll`). -/

namespace ContentVault

/-! ## Items under way -/

/-- The draw that an item will be archived with, as long as it has no record. -/
def ErrandStage.number? : ErrandStage → Option Nat
  | .fetched _ n => some n
  | .cleared _ n _ => some n
  | .stored _ n _ _ => some n
  | _ => none

/-- Whether two items have different draws. -/
def Errand.Apart (e f : Errand) : Prop :=
  ∀ n, e.stage.number? = some n → f.stage.number? ≠ some n

theorem Errand.Apart.symm {e f : Errand} (h : e.Apart f) : f.Apart e :=
  fun n hf he => h n he hf

@[simp] theorem Caretaker.number?_refused (content : OfferedContent) (e : VaultFailure) :
    (refused content e).number? = none := by
  cases e <;> rfl

namespace Custody

variable {V : Custody} {c : Caretaker} {s : Stores BlobStore} {n : Nat} {l : Ledger V}

/-- Whether what a stage says of an item is so: the key is the right one, and
    the blob is there. -/
def Backs (V : Custody) (c : Caretaker) (blobs : BlobStore) : ErrandStage → Prop
  | .cleared content m key =>
      c.archiver.HasKey (c.choicesFor content) ∧
        key = c.archiver.keyFor (V.draws m) (c.choicesFor content)
  | .stored content m key blob =>
      c.archiver.IsEquipped (c.choicesFor content) ∧
        key = c.archiver.keyFor (V.draws m) (c.choicesFor content) ∧
        blob = c.archiver.storedAs (V.draws m) content.stream.data ∧
        c.archiver.HasBlob (V.draws m) content (c.choicesFor content) blobs
  | _ => True

theorem backs_of_number? {stage : ErrandStage} (h : stage.number? = none) (blobs : BlobStore) :
    V.Backs c blobs stage := by
  cases stage with
  | fetched content m => cases h
  | cleared content m key => cases h
  | stored content m key blob => cases h
  | _ => trivial

/-- The ledger together with the items that are under way. -/
structure Tends (V : Custody) (c : Caretaker) (active : List Errand) (s : Stores BlobStore)
    (n : Nat) (l : Ledger V) : Prop where
  ledger : V.Holds s n l
  backed : ∀ e ∈ active, V.Backs c s.blobs e.stage
  free : ∀ e ∈ active, ∀ m, e.stage.number? = some m → IsFree n l m
  apart : active.Pairwise Errand.Apart

theorem Holds.tends (h : V.Holds s n l) : V.Tends c [] s n l where
  ledger := h
  backed := fun _ he => nomatch he
  free := fun _ he => nomatch he
  apart := List.Pairwise.nil

namespace Tends

variable {active rest : List Errand} {e : Errand}

/-- The order of the items does not matter. -/
theorem perm (h : V.Tends c active s n l) {others : List Errand} (hperm : active.Perm others) :
    V.Tends c others s n l where
  ledger := h.ledger
  backed := fun e he => h.backed e (hperm.mem_iff.mpr he)
  free := fun e he => h.free e (hperm.mem_iff.mpr he)
  apart := (hperm.pairwise_iff Errand.Apart.symm).mp h.apart

theorem tail (h : V.Tends c (e :: rest) s n l) : V.Tends c rest s n l where
  ledger := h.ledger
  backed := fun f hf => h.backed f (List.mem_cons_of_mem e hf)
  free := fun f hf => h.free f (List.mem_cons_of_mem e hf)
  apart := h.apart.of_cons

/-- The first item has its draw to itself. -/
theorem others (h : V.Tends c (e :: rest) s n l) {m : Nat} (hnumber : e.stage.number? = some m) :
    ∀ f ∈ rest, f.stage.number? ≠ some m :=
  fun _ hf => List.rel_of_pairwise_cons h.apart hf m hnumber

theorem cons (h : V.Tends c rest s n l) (hback : V.Backs c s.blobs e.stage)
    (hfree : ∀ m, e.stage.number? = some m → IsFree n l m) (hapart : ∀ f ∈ rest, e.Apart f) :
    V.Tends c (e :: rest) s n l where
  ledger := h.ledger
  backed := List.forall_mem_cons.mpr ⟨hback, h.backed⟩
  free := List.forall_mem_cons.mpr ⟨hfree, h.free⟩
  apart := List.pairwise_cons.mpr ⟨hapart, h.apart⟩

/-- An item that has no draw, or none any more, does not matter. -/
theorem cons_idle (h : V.Tends c rest s n l) (hidle : e.stage.number? = none) :
    V.Tends c (e :: rest) s n l := by
  refine h.cons (backs_of_number? hidle _) (fun m hm => ?_) fun f _ m hm => ?_
  · cases hidle.symm.trans hm
  · cases hidle.symm.trans hm

/-- An item that keeps its draw has what the stage before had. -/
theorem cons_kept (h : V.Tends c rest s n l) {m : Nat} (hnumber : e.stage.number? = some m)
    (hback : V.Backs c s.blobs e.stage) (hfree : IsFree n l m)
    (hothers : ∀ f ∈ rest, f.stage.number? ≠ some m) : V.Tends c (e :: rest) s n l := by
  refine h.cons hback (fun k hk => ?_) fun f hf k hk => ?_
  · cases hnumber.symm.trans hk
    exact hfree
  · cases hnumber.symm.trans hk
    exact hothers f hf

/-- A draw that is made does not bother the items. -/
theorem later (h : V.Tends c active s n l) {m : Nat} (hle : n ≤ m) : V.Tends c active s m l where
  ledger := h.ledger.later hle
  backed := h.backed
  free := fun e he k hk =>
    ⟨Nat.lt_of_lt_of_le (h.free e he k hk).1 hle, (h.free e he k hk).2⟩
  apart := h.apart

/-- A new blob under a draw of its own leaves the other items alone. -/
theorem added (h : V.Tends c active s n l) (hlimit : n ≤ V.limit) {m : Nat}
    (hfree : IsFree n l m) (hothers : ∀ f ∈ active, f.stage.number? ≠ some m) (bytes : Bytes) :
    V.Tends c active { s with blobs := Archiver.added (V.draws m) s.blobs bytes } n l where
  ledger := h.ledger.added hlimit hfree bytes
  backed := by
    intro f hf
    have hback := h.backed f hf
    have hnumber := h.free f hf
    have hother := hothers f hf
    generalize f.stage = stage at hback hnumber hother
    cases stage with
    | stored content k key blob =>
        -- its blob has another name
        obtain ⟨hequipped, hkey, hblob, created, hget⟩ := hback
        refine ⟨hequipped, hkey, hblob, created, ?_⟩
        have hne : k ≠ m := fun hk => hother (congrArg some hk)
        rw [Archiver.added_of_unwritten (h.ledger.unwritten _), Directory.get?_set_of_ne _ _
          (text_ne (Nat.lt_of_lt_of_le (hnumber k rfl).1 hlimit)
            (Nat.lt_of_lt_of_le hfree.1 hlimit) hne)]
        exact hget
    | _ => exact hback
  free := h.free
  apart := h.apart

/-- A new record of a draw of its own leaves the other items alone. -/
theorem deposited (h : V.Tends c active s n l) {d : Deposit V} (hfree : IsFree n l d.number)
    (hothers : ∀ f ∈ active, f.stage.number? ≠ some d.number) (hblob : d.IsIn s.blobs)
    {t : RecordStore} (hrows : t.table.rows = s.records.table.rows ++ [Row.ofEntry d.entry]) :
    V.Tends c active { s with records := t } n (l ++ [(d.entry, d)]) where
  ledger := h.ledger.deposited hfree hblob hrows
  backed := h.backed
  free := by
    intro f hf m hm
    refine ⟨(h.free f hf m hm).1, fun x hx => ?_⟩
    rcases List.mem_append.mp hx with hx | hx
    · exact (h.free f hf m hm).2 x hx
    · rw [List.mem_singleton.mp hx]
      exact fun hsame => hothers f hf (hsame ▸ hm)
  apart := h.apart

end Tends

/-! ## One item goes on -/

section

variable {σ ν : Type} [ContentOrigin σ] {id : String} {stage : ErrandStage} {rest : List Errand}
  {w : JobState σ BlobStore ν}

/-- Content that was fetched has a draw that nothing else has. -/
theorem Tends.fetched (h : V.Tends c rest s n l) (content : OfferedContent) :
    V.Tends c (⟨id, .fetched content n⟩ :: rest) s (n + 1) l :=
  (h.later (Nat.le_succ n)).cons_kept rfl trivial h.ledger.isFree fun f hf hm =>
    absurd (h.free f hf n hm).1 (Nat.lt_irrefl n)

/-- What storing the content of an item comes to. -/
theorem Tends.storing (hc : V.Employs c) {content : OfferedContent} {m : Nat} {key : Option Key}
    (h : V.Tends c (⟨id, .cleared content m key⟩ :: rest) s n l) (hlimit : n ≤ V.limit) :
    match c.archiver.storeContent (c.draws m) key content s.blobs with
    | (.error _, blobs) => V.Tends c rest { s with blobs } n l
    | (.ok blob, blobs) =>
      V.Tends c (⟨id, .stored content m key blob⟩ :: rest) { s with blobs } n l := by
  obtain ⟨hkey, rfl⟩ := h.backed _ List.mem_cons_self
  have hfree := h.free _ List.mem_cons_self m rfl
  have hothers := h.others rfl
  rw [hc.draws_eq, Archiver.storeContent_eq, Archiver.discarded_of_unwritten (h.ledger.unwritten _)]
  cases (c.archiver.seen content).failure with
  | some e => exact h.tail
  | none =>
      simp only
      cases BlobStore.checkLength _ (c.archiver.seen content).data.length with
      | error e => exact h.tail
      | ok u =>
          have hadded := h.tail.added hlimit hfree hothers
            (c.archiver.blobFor (V.draws m) content (c.choicesFor content))
          by_cases hbuffer : Tee.Bufferable c.archiver.branchBuffer
          · rw [Archiver.countedAs_of_bufferable hbuffer]
            exact hadded.cons_kept rfl ⟨⟨hbuffer, hkey⟩, rfl, rfl,
              c.archiver.hasBlob_added (V.draws m) content (c.choicesFor content) s.blobs⟩
              hfree hothers
          · -- a blob that was not counted stays without a record
            rw [Archiver.countedAs, if_neg hbuffer]
            exact hadded

/-- What saving the entry of an item comes to. -/
theorem Tends.saving (hc : V.Employs c) {content : OfferedContent} {m : Nat} {key : Option Key}
    {blob : StoredContent} (h : V.Tends c (⟨id, .stored content m key blob⟩ :: rest) s n l)
    {t : RecordStore}
    (hsave : s.records.save (c.archiver.newEntry (c.draws m) key content blob) = .ok t) :
    ∃ l' : Ledger V, V.Tends c rest { s with records := t } n l' ∧ l'.Extends l := by
  obtain ⟨hequipped, rfl, rfl, hblob⟩ := h.backed _ List.mem_cons_self
  rw [hc.draws_eq] at hsave
  let d : Deposit V := ⟨c.archiver, hc.admitted, content, c.choicesFor content, hequipped, m⟩
  rcases s.records.save_cases d.entry with ⟨-, t', hsaved, hrows⟩ | ⟨-, hrefused⟩
  · cases hsave.symm.trans hsaved
    exact ⟨_, h.tail.deposited (d := d) (h.free _ List.mem_cons_self m rfl)
      (h.others rfl) hblob hrows,
      Ledger.extends_append l _⟩
  · cases hsave.symm.trans hrefused

theorem drawn_le_advance (c : Caretaker) (now : Instant) (id : String) (stage : ErrandStage)
    (w : JobState σ BlobStore ν) : w.drawn ≤ (c.advance now id stage w).2.drawn := by
  cases stage with
  | asked =>
      rw [Caretaker.advance]
      rcases w.guard.test now id with ⟨verdict, guard⟩
      cases verdict <;> exact Nat.le_refl _
  | admitted =>
      rw [Caretaker.advance]
      rcases ContentOrigin.fetch w.origin id with ⟨answer, origin⟩
      cases answer with
      | error e => exact Nat.le_refl _
      | ok content => exact Nat.le_succ _
  | fetched content m =>
      rw [Caretaker.advance]
      cases w.stores.records.contains content.id with
      | error e => exact Nat.le_refl _
      | ok present =>
          cases present with
          | true => exact Nat.le_refl _
          | false =>
              simp only
              cases c.archiver.contentKey (c.draws m) (c.choicesFor content) <;>
                exact Nat.le_refl _
  | cleared content m key =>
      rw [Caretaker.advance]
      rcases c.archiver.storeContent (c.draws m) key content w.stores.blobs with ⟨result, blobs⟩
      cases result <;> exact Nat.le_refl _
  | stored content m key blob =>
      rw [Caretaker.advance]
      cases Archiver.checkContent (c.choicesFor content) content blob with
      | error e => exact Nat.le_refl _
      | ok verify =>
          simp only
          cases w.stores.records.save (c.archiver.newEntry (c.draws m) key content blob) <;>
            exact Nat.le_refl _
  | settling content outcome =>
      rw [Caretaker.advance]
      rcases ContentOrigin.acknowledge w.origin id with ⟨answer, origin⟩
      cases answer <;> exact Nat.le_refl _
  | deleting content outcome => exact Nat.le_refl _
  | ended outcome => exact Nat.le_refl _

/-- A step of one item keeps the ledger and the other items, or adds its entry. -/
theorem Tends.advance (hc : V.Employs c)
    (h : V.Tends c (⟨id, stage⟩ :: rest) w.stores w.drawn l) (now : Instant)
    (hlimit : w.drawn ≤ V.limit) :
    ∃ l' : Ledger V, V.Tends c (⟨id, (c.advance now id stage w).1⟩ :: rest)
        (c.advance now id stage w).2.stores (c.advance now id stage w).2.drawn l' ∧
      l'.Extends l := by
  cases stage with
  | asked =>
      refine ⟨l, ?_, Ledger.Extends.refl l⟩
      rw [Caretaker.advance]
      rcases w.guard.test now id with ⟨verdict, guard⟩
      cases verdict <;> exact h.tail.cons_idle rfl
  | admitted =>
      refine ⟨l, ?_, Ledger.Extends.refl l⟩
      rw [Caretaker.advance]
      rcases ContentOrigin.fetch w.origin id with ⟨answer, origin⟩
      cases answer with
      | error e => exact h.tail.cons_idle rfl
      | ok content => exact h.tail.fetched content
  | fetched content m =>
      refine ⟨l, ?_, Ledger.Extends.refl l⟩
      rw [Caretaker.advance]
      cases w.stores.records.contains content.id with
      | error e => exact h.tail.cons_idle (Caretaker.number?_refused content e)
      | ok present =>
          cases present with
          | true => exact h.tail.cons_idle rfl
          | false =>
              simp only
              cases hkey : c.archiver.contentKey (c.draws m) (c.choicesFor content) with
              | error e => exact h.tail.cons_idle (Caretaker.number?_refused content e)
              | ok key =>
                  rw [hc.draws_eq] at hkey
                  exact h.tail.cons_kept rfl (Archiver.contentKey_eq_ok_iff.mp hkey)
                    (h.free _ List.mem_cons_self m rfl) (h.others rfl)
  | cleared content m key =>
      refine ⟨l, ?_, Ledger.Extends.refl l⟩
      have hstoring := h.storing hc hlimit
      rw [Caretaker.advance]
      rcases hstored : c.archiver.storeContent (c.draws m) key content w.stores.blobs
        with ⟨result, blobs⟩
      rw [hstored] at hstoring
      cases result with
      | error e => exact Tends.cons_idle hstoring (Caretaker.number?_refused content e)
      | ok blob => exact hstoring
  | stored content m key blob =>
      rw [Caretaker.advance]
      cases Archiver.checkContent (c.choicesFor content) content blob with
      | error e =>
          exact ⟨l, h.tail.cons_idle (Caretaker.number?_refused content e), Ledger.Extends.refl l⟩
      | ok verify =>
          simp only
          cases hsave : w.stores.records.save
              (c.archiver.newEntry (c.draws m) key content blob) with
          | error e =>
              exact ⟨l, h.tail.cons_idle (Caretaker.number?_refused content e),
                Ledger.Extends.refl l⟩
          | ok t =>
              obtain ⟨l', hsaved, hextends⟩ := h.saving hc hsave
              exact ⟨l', hsaved.cons_idle rfl, hextends⟩
  | settling content outcome =>
      refine ⟨l, ?_, Ledger.Extends.refl l⟩
      rw [Caretaker.advance]
      rcases ContentOrigin.acknowledge w.origin id with ⟨answer, origin⟩
      cases answer with
      | error e => exact h.tail.cons_idle rfl
      | ok u =>
          refine h.tail.cons_idle ?_
          show (if c.rules.deleteSource then _ else _ : ErrandStage).number? = none
          split <;> rfl
  | deleting content outcome => exact ⟨l, h.tail.cons_idle rfl, Ledger.Extends.refl l⟩
  | ended outcome => exact ⟨l, h, Ledger.Extends.refl l⟩

end

/-! ## A sweep goes on -/

/-- Whether a sweep will take nothing of the ledger: it knows all references, or
    none of the blobs that are left is one of them. -/
def Spares (V : Custody) (l : Ledger V) : SweepStage → Prop
  | .informed _ known => ∀ x ∈ l, x.1.content.contentRef ∈ known
  | .collecting _ left _ => ∀ x ∈ l, ∀ b ∈ left,
      BlobStore.fileName? b.contentRef ≠ some (V.draws x.2.number).blob.text
  | _ => True

/-- The references that are read are those of the ledger. -/
theorem Holds.informed (h : V.Holds s n l) {known : List String}
    (hknown : s.records.references = .ok known) : ∀ x ∈ l, x.1.content.contentRef ∈ known := by
  intro x hx
  refine (RecordStore.mem_references hknown).mpr ⟨Row.ofEntry x.1, ?_, rfl⟩
  rw [h.rows]
  exact List.mem_map_of_mem hx

/-- A blob that no reference is to leads to none of the ledger's files. -/
theorem Holds.unreferenced (h : V.Holds s n l) {known : List String}
    (hknown : ∀ x ∈ l, x.1.content.contentRef ∈ known) {found : List FoundBlob}
    (hfound : Caretaker.unreferenced known s.blobs = .ok found) :
    ∀ x ∈ l, ∀ b ∈ found,
      BlobStore.fileName? b.contentRef ≠ some (V.draws x.2.number).blob.text := by
  intro x hx b hb hlead
  cases hfound
  obtain ⟨hlisted, hunknown⟩ := List.mem_filter.mp hb
  have hknows := hknown x hx
  rw [Deposit.contentRef_of_continues (h.continued x hx), ← (h.leads_iff hlisted).mp hlead]
    at hknows
  rw [List.contains_iff_mem.mpr hknows] at hunknown
  cases hunknown

/-- Deleting a blob that leads to none of the ledger's files leaves them alone. -/
theorem Holds.collected (h : V.Holds s n l) {b : FoundBlob}
    (hspared : ∀ x ∈ l, BlobStore.fileName? b.contentRef ≠ some (V.draws x.2.number).blob.text)
    (cutoff : Int) (report : JobTally) :
    V.Holds { s with blobs := (Caretaker.collectOne cutoff b report s.blobs).2 } n l := by
  rcases Caretaker.collectOne_cases cutoff b report s.blobs with
    ⟨name, -, -, htakes, -, hone⟩ | ⟨-, hone⟩
  · rw [hone]
    exact h.erased fun x hx hname => hspared x hx (hname ▸ htakes.2)
  · rw [hone]
    exact h

/-- A step of a sweep keeps the ledger. -/
theorem Holds.advanceSweep (h : V.Holds s n l) {stage : SweepStage} (hspares : V.Spares l stage)
    (c : Caretaker) (time : Timestamp) :
    V.Holds (c.advanceSweep time stage s).2 n l ∧
      V.Spares l (c.advanceSweep time stage s).1 := by
  cases stage with
  | called =>
      rw [Caretaker.advanceSweep]
      cases c.cutoff time <;> exact ⟨h, trivial⟩
  | timed cutoff =>
      rw [Caretaker.advanceSweep]
      cases hknown : s.records.references with
      | error e => exact ⟨h, trivial⟩
      | ok known => exact ⟨h, h.informed hknown⟩
  | informed cutoff known =>
      rw [Caretaker.advanceSweep]
      cases hfound : Caretaker.unreferenced known s.blobs with
      | error e => exact ⟨h, trivial⟩
      | ok found => exact ⟨h, h.unreferenced hspares hfound⟩
  | collecting cutoff left report =>
      cases left with
      | nil => exact ⟨h, trivial⟩
      | cons b left =>
          refine ⟨h.collected (fun x hx => hspares x hx b List.mem_cons_self) cutoff report, ?_⟩
          exact fun x hx other hother => hspares x hx other (List.mem_cons_of_mem b hother)
  | ended outcome => exact ⟨h, hspares⟩

/-! ## A run goes on -/

/-- The ledger together with what the stage of a run says. -/
def RunHolds (V : Custody) (c : Caretaker) (stage : RunStage) (s : Stores BlobStore) (n : Nat)
    (l : Ledger V) : Prop :=
  match stage with
  | .archiving _ active _ => V.Tends c active s n l
  | .sweeping stage => V.Holds s n l ∧ V.Spares l stage
  | _ => V.Holds s n l

theorem RunHolds.holds {stage : RunStage} (h : V.RunHolds c stage s n l) : V.Holds s n l := by
  cases stage with
  | archiving queue active report => exact h.ledger
  | sweeping stage => exact h.1
  | _ => exact h

section

variable {σ ν : Type} [ContentOrigin σ] [NotaryService ν] {w : JobState σ BlobStore ν}

omit [NotaryService ν] in
theorem drawn_le_advanceItems (c : Caretaker) (tick : Tick) (job : Job) (queue : List String)
    (active : List Errand) (report : JobTally) (w : JobState σ BlobStore ν) :
    w.drawn ≤ (c.advanceItems tick job queue active report w).2.drawn := by
  rw [Caretaker.advanceItems.eq_def]
  cases tick.item with
  | none =>
      cases queue with
      | nil => cases active <;> exact Nat.le_refl _
      | cons id queue =>
          simp only
          split <;> exact Nat.le_refl _
  | some k =>
      simp only
      cases active[k]? with
      | none => exact Nat.le_refl _
      | some e =>
          have hle := drawn_le_advance c tick.now e.id e.stage w
          simp only
          rcases hreached : c.advance tick.now e.id e.stage w with ⟨stage, w'⟩
          rw [hreached] at hle
          cases stage with
          | ended outcome => cases outcome <;> exact hle
          | _ => exact hle

omit [NotaryService ν] in
/-- A step of the archive job keeps the ledger and the items, or adds an entry. -/
theorem Tends.advanceItems (hc : V.Employs c) {active : List Errand}
    (h : V.Tends c active w.stores w.drawn l) (hlimit : w.drawn ≤ V.limit) (tick : Tick)
    (job : Job) (queue : List String) (report : JobTally) :
    ∃ l' : Ledger V, V.RunHolds c (c.advanceItems tick job queue active report w).1
        (c.advanceItems tick job queue active report w).2.stores
        (c.advanceItems tick job queue active report w).2.drawn l' ∧
      l'.Extends l := by
  rw [Caretaker.advanceItems.eq_def]
  cases tick.item with
  | none =>
      refine ⟨l, ?_, Ledger.Extends.refl l⟩
      cases queue with
      | nil =>
          cases active with
          | nil => exact h.ledger
          | cons e active => exact h
      | cons id queue =>
          simp only
          split
          · exact (h.cons_idle (e := ⟨id, .asked⟩) rfl).perm (List.perm_append_singleton _ _).symm
          · exact h
  | some k =>
      simp only
      cases hget : active[k]? with
      | none => exact ⟨l, h, Ledger.Extends.refl l⟩
      | some e =>
          obtain ⟨hk, he⟩ := List.getElem?_eq_some_iff.mp hget
          have hfirst : active.Perm (e :: active.eraseIdx k) :=
            he ▸ (List.getElem_cons_eraseIdx_perm hk).symm
          obtain ⟨l', htends, hextends⟩ := (h.perm hfirst).advance hc tick.now hlimit
          refine ⟨l', ?_, hextends⟩
          simp only
          generalize c.advance tick.now e.id e.stage w = reached at htends
          obtain ⟨stage, w'⟩ := reached
          cases stage with
          | ended outcome =>
              cases outcome with
              | cutShort => exact htends.ledger
              | _ => exact htends.tail
          | _ => exact htends.perm (List.set_perm_cons_eraseIdx hk _).symm

omit [NotaryService ν] in
/-- Looking at what there is to do keeps the ledger. -/
theorem Holds.openRun (h : V.Holds w.stores w.drawn l) (c : Caretaker) (job : Job) :
    V.RunHolds c (c.openRun job w).1 (c.openRun job w).2.stores (c.openRun job w).2.drawn l := by
  cases job with
  | archive =>
      rw [Caretaker.openRun]
      rcases ContentOrigin.flagged w.origin c.rules.query with ⟨listed, origin⟩
      cases listed with
      | error e => exact h
      | ok ids => exact h.tends
  | notarize => exact h
  | orphans => exact ⟨h, trivial⟩

omit [NotaryService ν] in
theorem drawn_openRun (c : Caretaker) (job : Job) (w : JobState σ BlobStore ν) :
    (c.openRun job w).2.drawn = w.drawn := by
  cases job with
  | archive =>
      rw [Caretaker.openRun]
      rcases ContentOrigin.flagged w.origin c.rules.query with ⟨listed, origin⟩
      cases listed <;> rfl
  | notarize => rfl
  | orphans => rfl

theorem drawn_le_advanceRun (c : Caretaker) (tick : Tick) (job : Job) (stage : RunStage)
    (w : JobState σ BlobStore ν) : w.drawn ≤ (c.advanceRun tick job stage w).2.drawn := by
  cases stage with
  | called =>
      rw [Caretaker.advanceRun]
      cases (w.locks.get job).acquire <;> exact Nat.le_refl _
  | begun => exact Nat.le_of_eq (drawn_openRun c job w).symm
  | archiving queue active report => exact drawn_le_advanceItems c tick job queue active report w
  | notarizing pending report => cases pending <;> exact Nat.le_refl _
  | submitted e pending report =>
      rw [Caretaker.advanceRun]
      rcases NotaryService.settle w.notary e.record.id (Caretaker.notarizedHash e)
        with ⟨answer, notary⟩
      cases answer <;> exact Nat.le_refl _
  | answered e tx pending report =>
      rw [Caretaker.advanceRun]
      cases w.stores.records.setTransaction e.record.id tx <;> exact Nat.le_refl _
  | sweeping stage =>
      rw [Caretaker.advanceRun]
      rcases c.advanceSweep tick.time stage w.stores with ⟨next, stores⟩
      cases next <;> exact Nat.le_refl _
  | ended outcome => exact Nat.le_refl _
  | abandoned => exact Nat.le_refl _

/-- A run of the orphan job draws nothing. -/
theorem drawn_proceedRun_orphans (c : Caretaker) (ticks : List Tick) {stage : RunStage}
    (hfits : stage.Fits .orphans) (w : JobState σ BlobStore ν) :
    (c.proceedRun .orphans ticks (stage, w)).2.drawn = w.drawn := by
  induction ticks generalizing stage w with
  | nil => rfl
  | cons tick ticks ih =>
      refine (ih ((c.moves_advanceRun tick hfits w).fits hfits) _).trans ?_
      show (c.advanceRun tick .orphans stage w).2.drawn = w.drawn
      cases stage with
      | called =>
          rw [Caretaker.advanceRun]
          cases (w.locks.get .orphans).acquire <;> rfl
      | begun => exact drawn_openRun c .orphans w
      | sweeping stage =>
          rw [Caretaker.advanceRun]
          rcases c.advanceSweep tick.time stage w.stores with ⟨next, stores⟩
          cases next <;> rfl
      | ended outcome => rfl
      | abandoned => rfl
      | archiving queue active report => cases hfits
      | notarizing pending report => cases hfits
      | submitted e pending report => cases hfits
      | answered e tx pending report => cases hfits

/-- A step of a run keeps the ledger and what its stage says, or adds an entry. -/
theorem RunHolds.advanceRun (hc : V.Employs c) {stage : RunStage}
    (h : V.RunHolds c stage w.stores w.drawn l) (hlimit : w.drawn ≤ V.limit) (tick : Tick)
    (job : Job) :
    ∃ l' : Ledger V, V.RunHolds c (c.advanceRun tick job stage w).1
        (c.advanceRun tick job stage w).2.stores (c.advanceRun tick job stage w).2.drawn l' ∧
      l'.Extends l := by
  cases stage with
  | called =>
      refine ⟨l, ?_, Ledger.Extends.refl l⟩
      rw [Caretaker.advanceRun]
      cases (w.locks.get job).acquire <;> exact h
  | begun => exact ⟨l, Holds.openRun h c job, Ledger.Extends.refl l⟩
  | archiving queue active report => exact Tends.advanceItems hc h hlimit tick job queue report
  | notarizing pending report =>
      refine ⟨l, ?_, Ledger.Extends.refl l⟩
      cases pending <;> exact h
  | submitted e pending report =>
      refine ⟨l, ?_, Ledger.Extends.refl l⟩
      rw [Caretaker.advanceRun]
      rcases NotaryService.settle w.notary e.record.id (Caretaker.notarizedHash e)
        with ⟨answer, notary⟩
      cases answer <;> exact h
  | answered e tx pending report =>
      rw [Caretaker.advanceRun]
      cases hset : w.stores.records.setTransaction e.record.id tx with
      | error e => exact ⟨l, h, Ledger.Extends.refl l⟩
      | ok records => exact holds_setTransaction h hset
  | sweeping stage =>
      refine ⟨l, ?_, Ledger.Extends.refl l⟩
      have hswept := Holds.advanceSweep h.1 h.2 c tick.time
      rw [Caretaker.advanceRun]
      rcases hreached : c.advanceSweep tick.time stage w.stores with ⟨next, stores⟩
      rw [hreached] at hswept
      cases next with
      | ended outcome => exact hswept.1
      | _ => exact hswept
  | ended outcome => exact ⟨l, h, Ledger.Extends.refl l⟩
  | abandoned => exact ⟨l, h, Ledger.Extends.refl l⟩

end

/-! ## One thing after the other -/

/-- A ledger carries over to so many draws: one that goes on from it is right
    then, unless too much was drawn. -/
def Carries (V : Custody) (l : Ledger V) (start n : Nat) (IsRight : Ledger V → Prop) : Prop :=
  start ≤ n ∧ (n ≤ V.limit → ∃ l' : Ledger V, IsRight l' ∧ l'.Extends l)

variable {start : Nat} {IsRight IsRightThen : Ledger V → Prop}

theorem Carries.next (h : V.Carries l start n IsRight) {m : Nat} (hle : n ≤ m)
    (hnext : m ≤ V.limit → ∀ l' : Ledger V, IsRight l' →
      ∃ l'' : Ledger V, IsRightThen l'' ∧ l''.Extends l') : V.Carries l start m IsRightThen := by
  refine ⟨Nat.le_trans h.1 hle, fun hlimit => ?_⟩
  obtain ⟨l', hl', hextends⟩ := h.2 (Nat.le_trans hle hlimit)
  obtain ⟨l'', hl'', hextends'⟩ := hnext hlimit l' hl'
  exact ⟨l'', hl'', hextends'.trans hextends⟩

theorem Holds.carries (h : V.Holds s n l) : V.Carries l n n (V.Holds s n) :=
  ⟨Nat.le_refl n, fun _ => ⟨l, h, Ledger.Extends.refl l⟩⟩

section

variable {σ ν : Type} [ContentOrigin σ] [NotaryService ν] {w : JobState σ BlobStore ν}

/-- A ledger carries over however far a run gets. -/
theorem carries_proceedRun (hc : V.Employs c) (job : Job) (ticks : List Tick) {stage : RunStage}
    (h : V.Carries l start w.drawn (V.RunHolds c stage w.stores w.drawn)) :
    V.Carries l start (c.proceedRun job ticks (stage, w)).2.drawn
      (V.Holds (c.proceedRun job ticks (stage, w)).2.stores
        (c.proceedRun job ticks (stage, w)).2.drawn) := by
  induction ticks generalizing stage w with
  | nil => exact h.next (Nat.le_refl _) fun _ l' hl' => ⟨l', hl'.holds, Ledger.Extends.refl l'⟩
  | cons tick ticks ih =>
      have hle := drawn_le_advanceRun c tick job stage w
      exact ih (h.next hle fun hlimit l' hl' =>
        hl'.advanceRun hc (Nat.le_trans hle hlimit) tick job)

/-- A ledger carries over whatever happens next. -/
theorem carries_step (h : V.Carries l start w.drawn (V.Holds w.stores w.drawn))
    (event : VaultEvent V σ ν) :
    V.Carries l start (step w event).drawn
      (V.Holds (step w event).stores (step w event).drawn) := by
  cases event with
  | archive a ha content choices =>
      exact h.next (Nat.le_succ _) fun hlimit _ hl' => holds_archive hl' hlimit ha content choices
  | restore a id sink verify =>
      refine h.next (Nat.le_refl _) fun _ l' hl' => ?_
      show ∃ l'' : Ledger V, V.Holds (a.restore id sink verify w.stores).2.2 w.drawn l'' ∧ _
      rcases a.restore_stores id sink verify w.stores with hsame | ⟨t, hnote, hstores⟩
      · rw [hsame]
        exact ⟨l', hl', Ledger.Extends.refl l'⟩
      · rw [hstores]
        exact holds_noteRestored hl' hnote
  | run c hc job ticks => exact carries_proceedRun hc job ticks h
  | meanwhile origin notary guard locks => exact h

/-- A ledger carries over whatever happens. -/
theorem carries_runAll (h : V.Carries l start w.drawn (V.Holds w.stores w.drawn))
    (events : List (VaultEvent V σ ν)) :
    V.Carries l start (runAll w events).drawn
      (V.Holds (runAll w events).stores (runAll w events).drawn) := by
  induction events generalizing w with
  | nil => exact h
  | cons event events ih => exact ih (carries_step h event)

end

end Custody

end ContentVault
