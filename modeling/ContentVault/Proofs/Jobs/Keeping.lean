import ContentVault.Proofs.Jobs.Upkeep

/-! # A vault keeps what it archived

    Whatever happens to a vault carries a ledger of its records through
    (`Custody.carries_runAll`), and a ledger that is right about the stores says
    all that a record is to be kept for: its blob is there, and it is opened as
    content of the recorded digest (`isKept_of_deposit`), no other record leads
    to the blob (`Holds.pairwise`), and it can be restored (`Holds.restores`).

    Main statement: `vault_keeps_records`. -/

namespace ContentVault

namespace Custody

variable {V : Custody} {σ ν : Type} [ContentOrigin σ] [NotaryService ν] {s : Stores BlobStore}
  {n : Nat} {l : Ledger V}

/-! ## What a ledger is good for -/

/-- Whether a blob has this content: it is the blob itself, or what the blob is
    decrypted to under the cipher and the nonce of the entry and the key that
    the vault derives from its salt for its key version. -/
def Opens (V : Custody) (c : EntryContent) (blob data : Bytes) : Prop :=
  (c.encrypted = false ∧ data = blob) ∨
    ∃ cipher nonce p, c.encrypted = true ∧ c.cipher = some cipher ∧ c.nonce = some nonce ∧
      Archiver.plaintext { data := blob }
        (some ⟨(V.registry c.keyVersion).key V.secret.bytes c.salt, cipher, nonce⟩) = .ok p ∧
      Archiver.IsPlaintextOf p data

/-- Whether a store has the blob of an entry, and its content has the digest
    that the entry says. -/
structure IsKept (V : Custody) (e : Entry) (s : BlobStore) (blob data : Bytes) : Prop where
  stored : s.get e.content.contentRef = .ok { data := blob }
  opens : V.Opens e.content blob data
  digest : ∃ algorithm, DigestAlgorithm.ofId e.content.hashAlgorithm = .ok algorithm ∧
    (Fingerprint.ofBytes algorithm data).value = e.content.hash

/-- The vault derives the key of a deposit as its archiver did. -/
theorem registry_active {a : Archiver} (ha : V.Admits a) :
    V.registry a.keys.active = a.keys.activeParameters :=
  (ha.2 _ _ a.keys.get?_active).symm

theorem opens_entry (d : Deposit V) :
    V.Opens d.entry.content d.blob d.content.stream.data := by
  obtain ⟨p, hplain, hp⟩ :=
    Archiver.plaintext_blobFor d.equipped.buffer (V.draws d.number) d.content d.choices
  have hversion : d.entry.content.keyVersion = d.archiver.keys.active := rfl
  have hsalt : d.entry.content.salt = (V.draws d.number).salt := rfl
  unfold Opens
  -- the key of the record is the one that the archiver used
  rw [hversion, registry_active d.admitted, hsalt, ← d.admitted.1]
  rw [Archiver.unsealingFor] at hplain
  cases hencrypt : d.choices.encrypt with
  | false =>
      refine Or.inl ?_
      rw [Deposit.entry, Archiver.entryFor, Deposit.blob,
        Archiver.blobFor_of_bufferable d.equipped.buffer, Archiver.keyFor_plain hencrypt]
      exact ⟨rfl, rfl⟩
  | true =>
      rw [Archiver.keyFor_encrypted hencrypt] at hplain
      refine Or.inr ⟨d.archiver.cipher.id, (V.draws d.number).contentNonce.bytes, p, ?_⟩
      rw [Deposit.entry, Archiver.entryFor, Archiver.keyFor_encrypted hencrypt]
      exact ⟨rfl, rfl, rfl, hplain, hp⟩

/-- The blob of a deposit is kept under every entry that goes on from its own. -/
theorem isKept_of_deposit {e : Entry} {d : Deposit V} {s : BlobStore}
    (he : e.Continues d.entry) (hblob : d.IsIn s) :
    V.IsKept e s d.blob d.content.stream.data := by
  obtain ⟨created, hfile⟩ := hblob
  constructor
  case stored =>
    rw [Deposit.contentRef_of_continues he]
    exact BlobStore.get_file (BlobStore.fileName?_text _) hfile
  case opens =>
    rw [he.content_eq]
    exact opens_entry d
  case digest =>
    rw [he.content_eq]
    exact ⟨d.archiver.hashAlgorithm, DigestAlgorithm.ofId_id _, rfl⟩

/-- No two entries lead to one file. -/
theorem Holds.pairwise (h : V.Holds s n l) (hlimit : n ≤ V.limit) :
    (l.map Prod.fst).Pairwise fun e f =>
      BlobStore.fileName? e.content.contentRef ≠ BlobStore.fileName? f.content.contentRef := by
  rw [List.pairwise_map]
  have hapart := List.pairwise_map.mp h.apart
  refine hapart.imp_of_mem fun {x y} hx hy hne hsame => ?_
  rw [Deposit.contentRef_of_continues (h.continued x hx),
    Deposit.contentRef_of_continues (h.continued y hy), BlobStore.fileName?_text,
    BlobStore.fileName?_text] at hsame
  exact absurd (Option.some.inj hsame) (text_ne (Nat.lt_of_lt_of_le (h.numbered x hx) hlimit)
    (Nat.lt_of_lt_of_le (h.numbered y hy) hlimit) hne)

/-- Whatever was deposited can be restored by every archiver of the vault that
    knows the key version. -/
theorem Holds.restores (h : V.Holds s n l) {x : Entry × Deposit V} (hx : x ∈ l) {b : Archiver}
    (hclock : (V.draws x.2.number).now.HasPlainYear) (hb : V.Admits b)
    (hknown : b.keys.versions.get? x.1.content.keyVersion ≠ none) {sink : Sink} {verify : Bool}
    (hcan : b.CanDeliver verify) (hsink : sink.Accepts x.2.content.stream.data.length) :
    ∃ report t, b.restore x.1.record.id sink verify s
      = (.ok report, x.2.content.stream.data, t) := by
  have he := h.continued x hx
  have hid : x.1.record.id = x.2.content.id := he.id_eq.trans (Archiver.id_entryFor _ _ _ _)
  have hversion : x.1.content.keyVersion = x.2.archiver.keys.active := by
    rw [he.content_eq]
    rfl
  have hopen : b.CanOpen x.2.archiver := by
    refine ⟨hb.1.trans x.2.admitted.1.symm, ?_⟩
    obtain ⟨p, hp⟩ := Option.ne_none_iff_exists'.mp hknown
    rw [hversion] at hp
    rw [hp, hb.2 _ _ hp, registry_active x.2.admitted]
  have hrow : s.records.table.find? x.2.content.id = some (Row.ofEntry x.1) := by
    rw [← hid]
    apply Table.find?_of_mem
    rw [h.rows]
    exact List.mem_map_of_mem hx
  obtain ⟨records, hrestore, -⟩ := Archiver.restore_continued hopen x.2.equipped he hclock hrow
    (h.stored x hx) hcan hsink
  rw [hid]
  exact ⟨_, _, hrestore⟩

/-- Whatever happens to a vault that was empty in the beginning, its records
    name one stored blob each, whose content has the recorded digest.  Whatever
    happens afterwards, the blob stays, of the record only its notarization and
    whether it was restored may change, and the content can be restored if the
    clock shows years of four digits. -/
theorem vault_keeps_records (V : Custody) (w : JobState σ BlobStore ν)
    (events later : List (VaultEvent V σ ν)) (hempty : w.stores = ⟨.empty, .empty⟩)
    (hlimit : (runAll (runAll w events) later).drawn ≤ V.limit) :
    ∃ es : List Entry,
      (runAll w events).stores.records.table.rows = es.map Row.ofEntry ∧
      (es.Pairwise fun e f =>
        BlobStore.fileName? e.content.contentRef ≠ BlobStore.fileName? f.content.contentRef) ∧
      ∀ e ∈ es, ∃ blob data, V.IsKept e (runAll w events).stores.blobs blob data ∧
        ∃ e', Row.ofEntry e' ∈ (runAll (runAll w events) later).stores.records.table.rows ∧
          e'.Continues e ∧
          V.IsKept e' (runAll (runAll w events) later).stores.blobs blob data ∧
          ((∀ n, (V.draws n).now.HasPlainYear) → ∀ b sink verify, V.Admits b →
            b.keys.versions.get? e.content.keyVersion ≠ none → b.CanDeliver verify →
            sink.Accepts data.length →
            ∃ report t, b.restore e.record.id sink verify (runAll (runAll w events) later).stores
              = (.ok report, data, t)) := by
  have hstart : V.Holds w.stores w.drawn [] := by
    rw [hempty]
    exact holds_empty V w.drawn
  -- the ledger after the first events, and the one that goes on from it
  obtain ⟨-, hbefore⟩ := carries_runAll hstart.carries events
  have hcarries : V.Carries [] (runAll w events).drawn (runAll w events).drawn
      (V.Holds (runAll w events).stores (runAll w events).drawn) := ⟨Nat.le_refl _, hbefore⟩
  have hgrows : (runAll w events).drawn ≤ (runAll (runAll w events) later).drawn :=
    (carries_runAll hcarries later).1
  obtain ⟨l, hl, -⟩ := hbefore (Nat.le_trans hgrows hlimit)
  obtain ⟨-, hafter⟩ := carries_runAll hl.carries later
  obtain ⟨l', hl', hextends⟩ := hafter hlimit
  refine ⟨l.map Prod.fst, ?_, hl.pairwise (Nat.le_trans hgrows hlimit), fun e he => ?_⟩
  · rw [hl.rows, List.map_map]
    rfl
  obtain ⟨x, hx, rfl⟩ := List.mem_map.mp he
  obtain ⟨y, hy, hdeposit, hcontinues⟩ := hextends x hx
  have hkept := isKept_of_deposit (hl.continued x hx) (hl.stored x hx)
  have hkept' := isKept_of_deposit (hl'.continued y hy) (hl'.stored y hy)
  rw [hdeposit] at hkept'
  refine ⟨_, _, hkept, y.1, ?_, hcontinues, hkept', ?_⟩
  · rw [hl'.rows]
    exact List.mem_map_of_mem hy
  · intro hclock b sink verify hb hknown hcan hsink
    rw [← hcontinues.content_eq] at hknown
    rw [← hdeposit] at hsink ⊢
    rw [← hcontinues.id_eq]
    exact hl'.restores hy (hclock _) hb hknown hcan hsink

end Custody

/-! ## A vault whose key is rotated -/

namespace Sample

/-- A vault that derives keys as `archiver` and `rotated` do. -/
def custody : Custody where
  secret := archiver.secret
  registry := fun version => if version = 2 then .pbkdf2 100000 else .hkdf "content"
  draws := fun n => { draws with blob := .ofNat n }
  limit := 3
  draws_apart := by decide

theorem admits_archiver : custody.Admits archiver := by
  refine ⟨rfl, fun version p h => ?_⟩
  unfold KeyVersions.get? archiver at h
  rw [List.lookup_cons] at h
  by_cases hone : version = 1
  · subst hone
    cases h
    rfl
  · rw [beq_false_of_ne hone] at h
    cases h

theorem admits_rotated : custody.Admits rotated := by
  refine ⟨rfl, fun version p h => ?_⟩
  unfold KeyVersions.get? rotated at h
  rw [List.lookup_cons] at h
  by_cases hone : version = 1
  · subst hone
    cases h
    rfl
  · rw [beq_false_of_ne hone, List.lookup_cons] at h
    by_cases htwo : version = 2
    · subst htwo
      cases h
      rfl
    · rw [beq_false_of_ne htwo] at h
      cases h

/-- The vault when nothing has happened. -/
def untouched : JobState Shelf BlobStore StandInNotary where
  origin := {}
  stores := stores
  notary := {}
  guard := { threshold := 0 }

/-- Something is archived under the old key. -/
def archiving : List (VaultEvent custody Shelf StandInNotary) :=
  [.archive archiver admits_archiver content { encrypt := true }]

/-- A caretaker that has the new key and gives blobs no time. -/
def keeper : Caretaker := ⟨rotated, ⟨"flagged", 1, {}, false, 0⟩, custody.draws⟩

/-- The orphans are collected at once, under the new key. -/
def collecting : List (VaultEvent custody Shelf StandInNotary) :=
  [.run keeper ⟨admits_rotated, rfl⟩ .orphans (List.replicate 6 ⟨0, draws.now, none⟩)]

end Sample

namespace Custody

/-- What was encrypted under the old key survives a sweep without grace and is
    restored under the new one. -/
theorem vault_keeps_through_rotation :
    ∃ e blob data,
      Row.ofEntry e ∈ (runAll Sample.untouched Sample.archiving).stores.records.table.rows ∧
      e.record.id = "report" ∧
      Sample.custody.IsKept e (runAll Sample.untouched Sample.archiving).stores.blobs blob data ∧
      ∃ report t, Sample.rotated.restore "report" {} true
          (runAll (runAll Sample.untouched Sample.archiving) Sample.collecting).stores
        = (.ok report, data, t) := by
  have hvouched : Sample.archiver.IsVouched { encrypt := true } Sample.content := by
    refine ⟨by decide, fun n hn => ?_, fun hrefuses => nomatch hrefuses.1⟩
    cases hn
    rfl
  have hbegins : Sample.archiver.Begins Sample.content { encrypt := true }
      Sample.stores.records := ⟨rfl, Sample.hasKey _⟩
  obtain ⟨verify, records, harchive, hrows⟩ := Sample.archiver.archive_of_vouched
    (Sample.custody.draws 0) hbegins rfl hvouched
  have hrow : (runAll Sample.untouched Sample.archiving).stores.records.table.rows
      = [Row.ofEntry (Sample.archiver.entryFor (Sample.custody.draws 0) Sample.content
          { encrypt := true })] := by
    show (Sample.archiver.archive (Sample.custody.draws 0) Sample.content { encrypt := true }
      Sample.stores).2.records.table.rows = _
    rw [harchive]
    exact hrows
  have hdrawn :
      (runAll (runAll Sample.untouched Sample.archiving) Sample.collecting).drawn ≤ 3 := by
    have hcalled : RunStage.called.Fits .orphans := trivial
    show (Caretaker.proceedRun _ .orphans _ _).2.drawn ≤ 3
    rw [drawn_proceedRun_orphans _ _ hcalled]
    decide
  obtain ⟨es, hes, -, hkept⟩ := vault_keeps_records Sample.custody Sample.untouched
    Sample.archiving Sample.collecting rfl hdrawn
  obtain ⟨e, rfl, hsame⟩ := List.map_eq_singleton_iff.mp (hes.symm.trans hrow)
  have hid : e.record.id = "report" := Cell.text.inj (congrFun hsame .id)
  have hversion : (e.content.keyVersion.toNat : Int) = 1 :=
    Cell.integer.inj (congrFun hsame .keyVersion)
  have hone : e.content.keyVersion = 1 := UInt32.toNat_inj.mp (Int.ofNat_inj.mp hversion)
  have hknown : Sample.rotated.keys.versions.get? e.content.keyVersion ≠ none := by
    rw [hone]
    exact fun hnone => nomatch hnone
  have hclock : ∀ n, (Sample.custody.draws n).now.HasPlainYear :=
    fun _ => (by decide : Sample.draws.now.HasPlainYear)
  obtain ⟨blob, data, hstored, -, -, -, -, hrestore⟩ := hkept e (List.mem_singleton_self e)
  refine ⟨e, blob, data, ?_, hid, hstored, ?_⟩
  · rw [hes]
    exact List.mem_singleton_self _
  · rw [← hid]
    exact hrestore hclock Sample.rotated {} true Sample.admits_rotated hknown
      (fun _ => by decide) ⟨rfl, fun _ _ hl => (nomatch hl), rfl⟩

end Custody

end ContentVault
