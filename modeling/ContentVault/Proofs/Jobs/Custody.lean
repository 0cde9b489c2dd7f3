import ContentVault.Proofs.Archiver.Restoring
import ContentVault.Proofs.Jobs.Runs

/-! # What a vault owes

    Archiving, restoring and the jobs follow each other in any order, with any
    sources, sinks, notarizers and settings, and the run of a job takes its own
    items in any order.  What carries through is a ledger: for every record the
    content it was made from and the draw that it was made with
    (`Custody.Holds`).  The files of the directory all have names that were
    drawn, which is why a draw that no entry of the ledger has is free for a new
    blob (`Custody.IsFree`), and why a file that leads to none of them may be
    deleted (`Holds.erased`). -/

namespace ContentVault

/-! ## Vaults and what happens to them -/

/-- What holds of a vault whoever uses it: it has one secret and one set of
    parameters for a key version, and no UUID is drawn for two blobs as long as
    no more than `limit` are drawn. -/
structure Custody where
  secret : RootSecret
  registry : UInt32 → DerivationParameters
  draws : Nat → Draws
  limit : Nat
  draws_apart : ∀ i < limit, ∀ j < limit, (draws i).blob = (draws j).blob → i = j

/-- Whether an archiver is one of the vault: it has the secret, and it derives
    keys as the vault does. -/
def Custody.Admits (V : Custody) (a : Archiver) : Prop :=
  a.secret = V.secret ∧ ∀ version p, a.keys.versions.get? version = some p → p = V.registry version

/-- Whether a caretaker is one of the vault. -/
structure Custody.Employs (V : Custody) (c : Caretaker) : Prop where
  admitted : V.Admits c.archiver
  draws_eq : c.draws = V.draws

/-- What happens to a vault. -/
inductive VaultEvent (V : Custody) (σ ν : Type) where
  | archive (a : Archiver) (admitted : V.Admits a) (content : OfferedContent)
      (choices : ArchiveChoices)
  | restore (a : Archiver) (id : String) (sink : Sink) (verify : Bool)
  /-- A run of a job is called for, and it gets as far as these ticks take it;
      each of them says which of its items goes on. -/
  | run (c : Caretaker) (employed : V.Employs c) (job : Job) (ticks : List Tick)
  /-- Whatever is not the vault's own changes. -/
  | meanwhile (origin : σ) (notary : ν) (guard : RepeatGuard) (locks : RunLocks)

namespace Custody

variable {V : Custody} {σ ν : Type} [ContentOrigin σ] [NotaryService ν]

/-- The state after something happened. -/
def step (w : JobState σ BlobStore ν) : VaultEvent V σ ν → JobState σ BlobStore ν
  | .archive a _ content choices =>
      { w with
        stores := (a.archive (V.draws w.drawn) content choices w.stores).2
        drawn := w.drawn + 1 }
  | .restore a id sink verify => { w with stores := (a.restore id sink verify w.stores).2.2 }
  | .run c _ job ticks => (c.proceedRun job ticks (.called, w)).2
  | .meanwhile origin notary guard locks => { w with origin, notary, guard, locks }

/-- The state after one thing after the other happened. -/
def runAll (w : JobState σ BlobStore ν) (events : List (VaultEvent V σ ν)) :
    JobState σ BlobStore ν :=
  events.foldl step w

end Custody

/-! ## The ledger -/

/-- What an entry was made from. -/
structure Deposit (V : Custody) where
  archiver : Archiver
  admitted : V.Admits archiver
  content : OfferedContent
  choices : ArchiveChoices
  equipped : archiver.IsEquipped choices
  /-- Which draw it was made with. -/
  number : Nat

namespace Deposit

variable {V : Custody}

/-- The entry as it was made. -/
def entry (d : Deposit V) : Entry :=
  d.archiver.entryFor (V.draws d.number) d.content d.choices

/-- The bytes of the blob. -/
def blob (d : Deposit V) : Bytes :=
  d.archiver.blobFor (V.draws d.number) d.content d.choices

/-- Whether the blob is in a store. -/
def IsIn (d : Deposit V) (s : BlobStore) : Prop :=
  d.archiver.HasBlob (V.draws d.number) d.content d.choices s

theorem contentRef_of_continues {d : Deposit V} {e : Entry} (h : e.Continues d.entry) :
    e.content.contentRef = (V.draws d.number).blob.text := by
  rw [h.content_eq]
  rfl

end Deposit

/-- The entries of a vault, each with what it was made from. -/
abbrev Ledger (V : Custody) := List (Entry × Deposit V)

/-- Whether a ledger goes on from another one: nothing was removed, and of an
    entry only what may change did. -/
def Ledger.Extends {V : Custody} (new old : Ledger V) : Prop :=
  ∀ x ∈ old, ∃ y ∈ new, y.2 = x.2 ∧ y.1.Continues x.1

theorem Ledger.Extends.refl {V : Custody} (l : Ledger V) : l.Extends l :=
  fun x hx => ⟨x, hx, rfl, Entry.Continues.refl _⟩

theorem Ledger.Extends.trans {V : Custody} {l m n : Ledger V} (h : n.Extends m)
    (h' : m.Extends l) : n.Extends l := by
  intro x hx
  obtain ⟨y, hy, hdeposit, hcontinues⟩ := h' x hx
  obtain ⟨z, hz, hdeposit', hcontinues'⟩ := h y hy
  exact ⟨z, hz, hdeposit'.trans hdeposit, hcontinues'.trans hcontinues⟩

namespace Custody

/-- A ledger is right about the stores after so many draws: the rows are its
    entries, the blobs are there, and every file has a name that was drawn. -/
structure Holds (V : Custody) (s : Stores BlobStore) (drawn : Nat) (l : Ledger V) : Prop where
  rows : s.records.table.rows = l.map fun x => Row.ofEntry x.1
  continued : ∀ x ∈ l, x.1.Continues x.2.entry
  stored : ∀ x ∈ l, x.2.IsIn s.blobs
  numbered : ∀ x ∈ l, x.2.number < drawn
  apart : (l.map fun x => x.2.number).Nodup
  named : ∀ name node, s.blobs.root.get? name = some node →
    ∃ n < drawn, name = (V.draws n).blob.text

variable {V : Custody} {s : Stores BlobStore} {n : Nat} {l : Ledger V}

theorem holds_empty (V : Custody) (n : Nat) : V.Holds ⟨.empty, .empty⟩ n [] where
  rows := rfl
  continued := fun _ h => nomatch h
  stored := fun _ h => nomatch h
  numbered := fun _ h => nomatch h
  apart := List.nodup_nil
  named := fun _ _ h => nomatch h

/-- A draw that comes to nothing changes nothing. -/
theorem Holds.later (h : V.Holds s n l) {m : Nat} (hle : n ≤ m) : V.Holds s m l where
  rows := h.rows
  continued := h.continued
  stored := h.stored
  numbered := fun x hx => Nat.lt_of_lt_of_le (h.numbered x hx) hle
  apart := h.apart
  named := by
    intro name node hget
    obtain ⟨i, hi, hname⟩ := h.named name node hget
    exact ⟨i, Nat.lt_of_lt_of_le hi hle, hname⟩

/-! ## New blobs and records -/

/-- No blob is being written. -/
theorem Holds.unwritten (h : V.Holds s n l) (id : Uuid) :
    s.blobs.root.get? (BlobStore.temporaryName id) = none := by
  cases hget : s.blobs.root.get? (BlobStore.temporaryName id) with
  | none => rfl
  | some node =>
      obtain ⟨i, -, hname⟩ := h.named _ node hget
      exact absurd hname.symm (BlobStore.text_ne_temporaryName _ _)

/-- Whether a draw was made that no entry of the ledger has. -/
def IsFree (n : Nat) (l : Ledger V) (m : Nat) : Prop :=
  m < n ∧ ∀ x ∈ l, x.2.number ≠ m

/-- The next draw is free. -/
theorem Holds.isFree (h : V.Holds s n l) : IsFree (n + 1) l n :=
  ⟨Nat.lt_succ_self n, fun x hx => Nat.ne_of_lt (h.numbered x hx)⟩

/-- Draws with different numbers have different names. -/
theorem text_ne {m k : Nat} (hm : m < V.limit) (hk : k < V.limit) (hne : m ≠ k) :
    (V.draws m).blob.text ≠ (V.draws k).blob.text :=
  fun htext => hne (V.draws_apart _ hm _ hk (Uuid.text_injective htext))

/-- A blob under a free draw leaves the others alone. -/
theorem Holds.added (h : V.Holds s n l) (hlimit : n ≤ V.limit) {m : Nat} (hfree : IsFree n l m)
    (bytes : Bytes) : V.Holds { s with blobs := Archiver.added (V.draws m) s.blobs bytes } n l where
  rows := h.rows
  continued := h.continued
  stored := by
    intro x hx
    obtain ⟨created, hget⟩ := h.stored x hx
    have hne := text_ne (Nat.lt_of_lt_of_le (h.numbered x hx) hlimit)
      (Nat.lt_of_lt_of_le hfree.1 hlimit) (hfree.2 x hx)
    refine ⟨created, ?_⟩
    rw [Archiver.added_of_unwritten (h.unwritten _), Directory.get?_set_of_ne _ _ hne]
    exact hget
  numbered := h.numbered
  apart := h.apart
  named := by
    intro name node hget
    by_cases hname : name = (V.draws m).blob.text
    · exact ⟨m, hfree.1, hname⟩
    · rw [Archiver.added_of_unwritten (h.unwritten _),
        Directory.get?_set_of_ne _ _ hname] at hget
      exact h.named name node hget

/-- A new record goes with a blob that is there. -/
theorem Holds.deposited (h : V.Holds s n l) {d : Deposit V} (hfree : IsFree n l d.number)
    (hblob : d.IsIn s.blobs) {t : RecordStore}
    (hrows : t.table.rows = s.records.table.rows ++ [Row.ofEntry d.entry]) :
    V.Holds { s with records := t } n (l ++ [(d.entry, d)]) := by
  constructor
  case rows =>
    show t.table.rows = _
    rw [hrows, h.rows, List.map_append, List.map_singleton]
  case continued =>
    intro x hx
    rcases List.mem_append.mp hx with hx | hx
    · exact h.continued x hx
    · rw [List.mem_singleton.mp hx]
      exact Entry.Continues.refl _
  case stored =>
    intro x hx
    rcases List.mem_append.mp hx with hx | hx
    · exact h.stored x hx
    · rw [List.mem_singleton.mp hx]
      exact hblob
  case numbered =>
    intro x hx
    rcases List.mem_append.mp hx with hx | hx
    · exact h.numbered x hx
    · rw [List.mem_singleton.mp hx]
      exact hfree.1
  case apart =>
    rw [List.map_append, List.map_singleton]
    refine List.nodup_append.mpr ⟨h.apart, List.pairwise_singleton _ _, fun i hi j hj => ?_⟩
    obtain ⟨x, hx, rfl⟩ := List.mem_map.mp hi
    rw [List.mem_singleton.mp hj]
    exact hfree.2 x hx
  case named => exact h.named

theorem Ledger.extends_append (l : Ledger V) (x : Entry × Deposit V) : (l ++ [x]).Extends l :=
  fun y hy => ⟨y, List.mem_append_left _ hy, rfl, Entry.Continues.refl _⟩

/-- Archiving keeps the ledger or adds to it. -/
theorem holds_archive (h : V.Holds s n l) (hlimit : n < V.limit) {a : Archiver} (ha : V.Admits a)
    (c : OfferedContent) (o : ArchiveChoices) :
    ∃ l' : Ledger V, V.Holds (a.archive (V.draws n) c o s).2 (n + 1) l' ∧ l'.Extends l := by
  have hlater := h.later (Nat.le_succ n)
  have hadded := hlater.added hlimit h.isFree (a.blobFor (V.draws n) c o)
  rcases a.archive_cases (V.draws n) c o s with ⟨-, e, harchive⟩ | ⟨-, -, e, harchive⟩
    | ⟨-, -, -, e, harchive⟩ | ⟨hbegins, -, hvouched, verify, t, harchive, hrows⟩
  · rw [harchive]
    exact ⟨l, hlater, Ledger.Extends.refl l⟩
  · rw [harchive, Archiver.discarded_of_unwritten (h.unwritten _)]
    exact ⟨l, hlater, Ledger.Extends.refl l⟩
  · rw [harchive]
    exact ⟨l, hadded, Ledger.Extends.refl l⟩
  · rw [harchive]
    let d : Deposit V := ⟨a, ha, c, o, ⟨hvouched.1, hbegins.2⟩, n⟩
    have hblob : d.IsIn (Archiver.added (V.draws n) s.blobs (a.blobFor (V.draws n) c o)) :=
      a.hasBlob_added (V.draws n) c o s.blobs
    exact ⟨_, hadded.deposited (d := d) h.isFree hblob hrows, Ledger.extends_append l _⟩

end Custody

/-! ## Changing a record -/

/-- Restoring leaves the stores alone, or notes that an entry was restored. -/
theorem Archiver.restore_stores {β : Type} [BlobStorage β] (a : Archiver) (id : String)
    (sink : Sink) (verify : Bool) (s : Stores β) :
    (a.restore id sink verify s).2.2 = s ∨
      ∃ records, s.records.noteRestored id = .ok records ∧
        (a.restore id sink verify s).2.2 = { s with records } := by
  unfold restore
  cases s.records.find id with
  | error e => exact Or.inl rfl
  | ok found =>
      cases found with
      | none => exact Or.inl rfl
      | some entry =>
          simp only
          rcases a.deliverEntry entry sink verify s.blobs with ⟨result, received⟩
          cases result with
          | error e => exact Or.inl rfl
          | ok report =>
              dsimp only
              cases sink.lastFlushFailure with
              | some e => exact Or.inl rfl
              | none =>
                  cases s.records.noteRestored id with
                  | error e => exact Or.inl rfl
                  | ok records => exact Or.inr ⟨records, rfl, rfl⟩

namespace Custody

variable {V : Custody} {s : Stores BlobStore} {n : Nat} {l : Ledger V}

/-- Setting a cell keeps the ledger if the entries go on from what they were. -/
theorem Holds.changed (h : V.Holds s n l) {id : String} {c : Column} {cell : Cell}
    {t : RecordStore} {u : Entry → Entry} (hchange : s.records.change id c cell = .ok t)
    (hc : c ≠ .id) (hcell : Cell.stored c.kind cell ≠ .null)
    (hset : ∀ e, (Row.ofEntry e).set c cell = Row.ofEntry (u e)) (hu : ∀ e, (u e).Continues e) :
    ∃ l' : Ledger V, V.Holds { s with records := t } n l' ∧ l'.Extends l := by
  let update (x : Entry × Deposit V) : Entry × Deposit V :=
    (if x.1.record.id = id then u x.1 else x.1, x.2)
  have hcontinues : ∀ x, (update x).1.Continues x.1 := by
    intro x
    show (if _ then _ else _ : Entry).Continues _
    split
    · exact hu x.1
    · exact Entry.Continues.refl x.1
  refine ⟨l.map update, ?_, fun x hx => ⟨update x, List.mem_map_of_mem hx, rfl, hcontinues x⟩⟩
  constructor
  case rows =>
    -- the row that changes is that of the entry with the id
    show t.table.rows = _
    rw [RecordStore.rows_of_change hchange hc hcell, h.rows, List.map_map, List.map_map]
    refine List.map_congr_left fun x _ => ?_
    show (if (Row.ofEntry x.1).isFor id then _ else _) = Row.ofEntry (if _ then _ else _)
    rw [Row.isFor_ofEntry]
    by_cases hid : x.1.record.id = id
    · rw [decide_eq_true hid, if_pos rfl, if_pos hid, hset]
    · rw [decide_eq_false hid, if_neg Bool.false_ne_true, if_neg hid]
  case continued =>
    intro y hy
    obtain ⟨x, hx, rfl⟩ := List.mem_map.mp hy
    exact (hcontinues x).trans (h.continued x hx)
  case stored =>
    intro y hy
    obtain ⟨x, hx, rfl⟩ := List.mem_map.mp hy
    exact h.stored x hx
  case numbered =>
    intro y hy
    obtain ⟨x, hx, rfl⟩ := List.mem_map.mp hy
    exact h.numbered x hx
  case apart =>
    rw [List.map_map]
    exact h.apart
  case named => exact h.named

theorem holds_noteRestored (h : V.Holds s n l) {id : String} {t : RecordStore}
    (hnote : s.records.noteRestored id = .ok t) :
    ∃ l' : Ledger V, V.Holds { s with records := t } n l' ∧ l'.Extends l :=
  h.changed hnote (fun hc => nomatch hc) (fun hc => nomatch hc) Row.set_restored
    fun _ => ⟨rfl, rfl, rfl, rfl, rfl⟩

theorem holds_setTransaction (h : V.Holds s n l) {id tx : String} {t : RecordStore}
    (hset : s.records.setTransaction id tx = .ok t) :
    ∃ l' : Ledger V, V.Holds { s with records := t } n l' ∧ l'.Extends l :=
  h.changed hset (fun hc => nomatch hc) (fun hc => nomatch hc)
    (fun e => Row.set_notarization e tx) fun _ => ⟨rfl, rfl, rfl, rfl, rfl⟩

/-! ## Deleting a file -/

/-- A name that was drawn is the only one that leads to its file. -/
theorem Holds.leads_iff (h : V.Holds s n l) {b : FoundBlob} (hb : b ∈ s.blobs.list)
    {name : String} : BlobStore.fileName? b.contentRef = some name ↔ b.contentRef = name := by
  obtain ⟨⟨bytes, hget⟩, -⟩ := (BlobStore.mem_list_iff _).mp hb
  obtain ⟨i, -, hname⟩ := h.named _ _ hget
  rw [hname, BlobStore.fileName?_text, Option.some.injEq]

/-- A file that no entry of the ledger has can be deleted. -/
theorem Holds.erased (h : V.Holds s n l) {name : String}
    (hname : ∀ x ∈ l, (V.draws x.2.number).blob.text ≠ name) :
    V.Holds { s with blobs := ⟨s.blobs.root.erase name⟩ } n l where
  rows := h.rows
  continued := h.continued
  stored := by
    intro x hx
    obtain ⟨created, hget⟩ := h.stored x hx
    exact ⟨created, (s.blobs.root.get?_erase_of_ne (hname x hx)).trans hget⟩
  numbered := h.numbered
  apart := h.apart
  named := by
    intro other node hget
    by_cases hother : other = name
    · rw [hother] at hget
      cases (s.blobs.root.get?_erase_self name).symm.trans hget
    · exact h.named other node ((s.blobs.root.get?_erase_of_ne hother).symm.trans hget)

end Custody

end ContentVault
