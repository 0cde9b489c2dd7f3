import ContentVault.Archiver.Restoring
import ContentVault.Proofs.Archiver.Archiving
import ContentVault.Proofs.Cipher.Recorded

/-! # What was archived is restored

    What a sink receives depends on the bytes and the ending of the plaintext
    only (`deliver_eq`), unless a digest is to be taken on the side and there is
    no buffer for that (`deliver_crashed`).  An entry that was made by some
    archiver is opened by any archiver with the same secret that knows its key
    version, whatever else the two are set to (`openEntry_continued`), so the sink
    receives what was archived (`restore_continued`).

    Main statement: `restore_of_archive`. -/

namespace ContentVault

open ReaderView

/-! ## Sinks -/

/-- Whether a sink takes so many bytes without failing. -/
structure Sink.Accepts (s : Sink) (count : Nat) : Prop where
  flushed : s.flushFailure = none
  room : ∀ room e, s.limit = some (room, e) → count ≤ room
  flushedLast : s.lastFlushFailure = none

theorem Sink.take_of_accepts {s : Sink} {bytes : Bytes} (h : s.Accepts bytes.length) :
    s.take bytes none = (bytes, none) := by
  unfold Sink.take
  rw [h.flushed]
  cases hlimit : s.limit with
  | none => rfl
  | some l =>
      obtain ⟨room, e⟩ := l
      exact if_neg (Nat.not_lt.mpr (h.room room e hlimit))

/-- A sink that has nothing to complain of has all of a stream that ended cleanly. -/
theorem Sink.eq_of_take {s : Sink} {bytes received : Bytes} {e : Option IoError}
    (h : s.take bytes e = (received, none)) : e = none ∧ received = bytes := by
  have hend : ∀ flush : Option IoError, (bytes, e <|> flush) = (received, none) →
      e = none ∧ received = bytes := by
    intro flush hpair
    obtain ⟨hbytes, hnone⟩ := Prod.mk.inj hpair
    rw [Option.orElse_eq_orElse, Option.orElse_eq_or, Option.or_eq_none_iff] at hnone
    exact ⟨hnone.1, hbytes.symm⟩
  rw [Sink.take] at h
  split at h
  · split at h
    · cases h
    · exact hend _ h
  · exact hend _ h

theorem Sink.take_of_silent {s : Sink} {bytes : Bytes} (h : (s.take bytes none).2 = none) :
    s.take bytes none = (bytes, none) := by
  have htake : s.take bytes none = ((s.take bytes none).1, none) := Prod.ext rfl h
  rw [htake, (Sink.eq_of_take htake).2]

/-- A sink that is given nothing has nothing. -/
theorem Sink.take_nil (s : Sink) (e : Option IoError) : (s.take [] e).1 = [] := by
  unfold Sink.take
  cases s.limit with
  | none => rfl
  | some l =>
      show (if l.1 < 0 then ([].take l.1, some l.2) else _).1 = []
      rw [if_neg (Nat.not_lt_zero _)]

/-! ## Digests -/

namespace Fingerprint

theorem not_isBlank_of_hex {c : Char} (h : c ∈ "0123456789abcdef".toList) :
    Text.isBlank c = false := by
  have hall : ("0123456789abcdef".toList.all fun d => !Text.isBlank d) = true := by decide
  rw [← Bool.not_eq_true']
  exact List.all_eq_true.mp hall c h

/-- There is nothing to take off a digest. -/
theorem trim_hex (bs : Bytes) : Text.trim (Text.hex bs) = Text.hex bs := by
  have hkeep : ∀ cs : List Char, (∀ c ∈ cs, c ∈ "0123456789abcdef".toList) →
      cs.dropWhile Text.isBlank = cs := by
    intro cs hcs
    cases cs with
    | nil => rfl
    | cons c cs =>
        rw [List.dropWhile_cons_of_neg]
        rw [not_isBlank_of_hex (hcs c List.mem_cons_self)]
        exact Bool.false_ne_true
  unfold Text.trim Text.hex Text.trimChars
  rw [String.toList_ofList, hkeep _ fun c hc => Text.hexChars_mem hc,
    hkeep _ fun c hc => Text.hexChars_mem (List.mem_reverse.mp hc), List.reverse_reverse]

/-- A digest spells itself. -/
theorem isSpelled_self (a : DigestAlgorithm) (data : Bytes) :
    (ofBytes a data).isSpelled (ofBytes a data).value = true := by
  unfold isSpelled ofBytes
  rw [trim_hex, Text.equalsIgnoringCase_iff]

end Fingerprint

namespace Archiver

/-! ## Giving a plaintext to a sink -/

/-- The plaintext of a blob ends cleanly and is the content. -/
def IsPlaintextOf (p : Plaintext) (data : Bytes) : Prop :=
  match p with
  | .stored blob => content blob = data ∧ ending blob = none
  | .opened stream => content stream = data ∧ ending stream = none

section

variable {σ : Type} [ByteReader σ] [ReaderView σ]

theorem copy_eq (stream : σ) (sink : Sink) :
    copy stream sink = sink.take (content stream) (ending stream) := by
  have hroom : 0 < copyBuffer := by decide
  unfold copy
  rw [readToEnd_eq stream hroom]

/-- What copying and digesting a stream comes to, by its bytes and its ending. -/
theorem copyDigested_view {a : Archiver} (hbuffer : Tee.Bufferable a.branchBuffer) (stream : σ)
    (sink : Sink) (algorithm : DigestAlgorithm) :
    a.copyDigested stream sink algorithm =
      (match ending stream, (sink.take (content stream) (ending stream)).2 with
        | none, none => .ok (Fingerprint.ofBytes algorithm (content stream))
        | none, some e => .error (.ofIo e)
        | some x, none => .error (.ofIo x)
        | some x, some e => .error (.explaining (.ofIo e) (.ofIo x)),
      (sink.take (content stream) (ending stream)).1) := by
  have hroom : 0 < copyBuffer := by decide
  obtain ⟨toSink, toDigest, hsplit, hsinkBytes, hsinkEnd, hdigestBytes, hdigestEnd⟩ :=
    Tee.split_eq stream hbuffer hroom
  rw [copyDigested, hsplit]
  simp only [copy_eq, DigestTap.drain_eq, hsinkBytes, hsinkEnd, hdigestBytes, hdigestEnd]
  generalize sink.take (content stream) (ending stream) = taken
  obtain ⟨received, failure⟩ := taken
  cases ending stream with
  | none => cases failure with
    | none => rfl
    | some e => rfl
  | some x => cases failure with
    | none => rfl
    | some e => rfl

/-- What copying and digesting a stream comes to that ends cleanly, into a sink
    that has nothing to complain of. -/
theorem copyDigested_eq {a : Archiver} (hbuffer : Tee.Bufferable a.branchBuffer) {stream : σ}
    {sink : Sink} (algorithm : DigestAlgorithm) (hend : ending stream = none)
    (hsink : (sink.take (content stream) none).2 = none) :
    a.copyDigested stream sink algorithm
      = (.ok (Fingerprint.ofBytes algorithm (content stream)), content stream) := by
  rw [copyDigested_view hbuffer, hend, Sink.take_of_silent hsink]

omit [ReaderView σ] in
/-- Without a buffer the sink is given nothing, and the copy fails. -/
theorem copyDigested_crashed {a : Archiver} (hbuffer : ¬Tee.Bufferable a.branchBuffer) (stream : σ)
    (sink : Sink) (algorithm : DigestAlgorithm) :
    a.copyDigested stream sink algorithm =
      (.error (match (sink.take [] none).2 with
        | none => .ofProducer .crashed
        | some e => .ofIo e), []) := by
  have hempty : (sink.take [] none).1 = [] := sink.take_nil none
  rw [copyDigested, Tee.split_crashed stream hbuffer]
  simp only [copy_eq, DigestTap.drain_eq]
  rw [show content ({ messages := [] } : Relay) = [] from rfl,
    show ending ({ messages := [] } : Relay) = none from rfl]
  generalize sink.take [] none = taken at hempty
  obtain ⟨received, failure⟩ := taken
  cases hempty
  cases failure <;> rfl

/-- Whether an archiver can deliver what it reads: to take the digest on the side
    it has to have a buffer. -/
def CanDeliver (b : Archiver) (verify : Bool) : Prop :=
  verify = true → Tee.Bufferable b.branchBuffer

/-- A stream that ends cleanly and has the recorded digest is delivered into a
    sink that has nothing to complain of. -/
theorem deliver_eq {a : Archiver} {stream : σ} {sink : Sink} {verify : Bool} {recorded : String}
    (hcan : a.CanDeliver verify) {algorithm : DigestAlgorithm} (hend : ending stream = none)
    (hspelled : verify = true →
      (Fingerprint.ofBytes algorithm (content stream)).isSpelled recorded = true)
    (hsink : (sink.take (content stream) none).2 = none) :
    a.deliver stream sink verify algorithm recorded
      = (.ok (if verify then some (Fingerprint.ofBytes algorithm (content stream)) else none),
          content stream) := by
  unfold deliver
  cases verify with
  | true =>
      rw [if_pos rfl, copyDigested_eq (hcan rfl) algorithm hend hsink]
      exact if_pos (hspelled rfl)
  | false =>
      rw [if_neg Bool.false_ne_true, copy_eq, hend, Sink.take_of_silent hsink]
      rfl

/-- The same, for the plaintext of a blob. -/
theorem deliverPlaintext_eq {a : Archiver} {p : Plaintext} {data : Bytes} {sink : Sink}
    {verify : Bool} {recorded : String} (hcan : a.CanDeliver verify) {algorithm : DigestAlgorithm}
    (hp : IsPlaintextOf p data)
    (hspelled : verify = true → (Fingerprint.ofBytes algorithm data).isSpelled recorded = true)
    (hsink : (sink.take data none).2 = none) :
    a.deliverPlaintext p sink verify algorithm recorded
      = (.ok (if verify then some (Fingerprint.ofBytes algorithm data) else none), data) := by
  cases p with
  | stored blob =>
      obtain ⟨rfl, hend⟩ := hp
      exact deliver_eq hcan hend hspelled hsink
  | opened stream =>
      obtain ⟨rfl, hend⟩ := hp
      exact deliver_eq hcan hend hspelled hsink

omit [ReaderView σ] in
/-- Where it cannot, nothing is delivered. -/
theorem deliver_crashed {a : Archiver} {verify : Bool} (hnot : ¬a.CanDeliver verify) (stream : σ)
    {sink : Sink} (hsink : sink.Accepts 0) (algorithm : DigestAlgorithm) (recorded : String) :
    a.deliver stream sink verify algorithm recorded = (.error (.ofProducer .crashed), []) := by
  obtain ⟨hverify, hbuffer⟩ := Classical.not_imp.mp hnot
  have htake : sink.take [] none = ([], none) := Sink.take_of_accepts hsink
  rw [deliver, if_pos hverify, copyDigested_crashed hbuffer, htake]

end

/-! ## Opening an entry -/

end Archiver

/-- Whether an entry continues another one: only its notarization and whether
    it was restored may differ. -/
structure Entry.Continues (e old : Entry) : Prop where
  content_eq : e.content = old.content
  id_eq : e.record.id = old.record.id
  archived_eq : e.record.archived = old.record.archived
  metadata_eq : e.record.metadata = old.record.metadata
  metadataNonce_eq : e.record.metadataNonce = old.record.metadataNonce

theorem Entry.Continues.refl (e : Entry) : e.Continues e := ⟨rfl, rfl, rfl, rfl, rfl⟩

theorem Entry.Continues.trans {e f g : Entry} (h : e.Continues f) (h' : f.Continues g) :
    e.Continues g :=
  ⟨h.content_eq.trans h'.content_eq, h.id_eq.trans h'.id_eq,
    h.archived_eq.trans h'.archived_eq, h.metadata_eq.trans h'.metadata_eq,
    h.metadataNonce_eq.trans h'.metadataNonce_eq⟩

theorem Entry.Continues.isReadable {e old : Entry} (h : e.Continues old)
    (hold : old.IsReadable) : e.IsReadable :=
  ⟨h.archived_eq ▸ hold.plainYear, h.content_eq ▸ hold.hasNonce⟩

namespace Archiver

/-- Whether an archiver can open what another one makes now: it has the same
    secret, and it knows the other's active key version. -/
def CanOpen (b a : Archiver) : Prop :=
  b.secret = a.secret ∧ b.keys.versions.get? a.keys.active = some a.keys.activeParameters

variable {a b : Archiver} {draws : Draws} {c : OfferedContent} {o : ArchiveChoices}

/-- What it takes to decrypt new content. -/
def unsealingFor (a : Archiver) (draws : Draws) (o : ArchiveChoices) : Option Unsealing :=
  (a.keyFor draws o).map fun key => ⟨key, a.cipher.id, draws.contentNonce.bytes⟩

theorem unsealing_entryFor (h : b.CanOpen a) (hkey : a.HasKey o) (id : String) :
    b.unsealing id (a.entryFor draws c o).content = .ok (a.unsealingFor draws o) := by
  obtain ⟨hsecret, hkeys⟩ := h
  unfold unsealing unsealingFor entryFor newEntry keyFor
  cases hencrypt : o.encrypt with
  | false => rfl
  | true =>
      have hderive := b.keys.derive_eq hkeys (salt_long draws) (hkey hencrypt draws)
      simp only [if_true, Option.isSome_some, b.keys.parameters_eq hkeys, Attempt.ok_bind, hsecret,
        hderive, ne_eq, not_true_eq_false, if_false]
      rfl

/-- The label of new content is opened as it was. -/
theorem openLabel_entryFor (a : Archiver) (draws : Draws) (c : OfferedContent)
    (o : ArchiveChoices) :
    openLabel (a.entryFor draws c o).record (a.unsealingFor draws o) = .ok c.metadata := by
  have hbytes : labelBytes (a.entryFor draws c o).record (a.unsealingFor draws o)
      = .ok c.metadata.toBytes := by
    unfold unsealingFor entryFor newEntry newRecord
    cases a.keyFor draws o with
    | none => rfl
    | some key => exact Cipher.openLabel_sealLabel a.cipher key draws.metadataNonce _
  unfold openLabel
  rw [hbytes, Attempt.ok_bind, ContentLabel.ofBytes?_toBytes]

/-- The blob of new content is opened as the content. -/
theorem plaintext_blobFor {a : Archiver} (hbuffer : Tee.Bufferable a.branchBuffer)
    (draws : Draws) (c : OfferedContent) (o : ArchiveChoices) :
    ∃ p, plaintext { data := a.blobFor draws c o } (a.unsealingFor draws o) = .ok p ∧
      IsPlaintextOf p c.stream.data := by
  rw [blobFor_of_bufferable hbuffer]
  unfold unsealingFor
  cases a.keyFor draws o with
  | none => exact ⟨.stored _, rfl, rfl, rfl⟩
  | some key =>
      refine ⟨.opened (Frames.decrypt a.cipher.aead key draws.contentNonce
        { data := Frames.frameBytes a.cipher.aead key draws.contentNonce a.chunkSize
            c.stream.data : Source }), ?_, Frames.decrypt_frames rfl rfl⟩
      show (Frames.decryptRecorded a.cipher.id key draws.contentNonce.bytes _).map _ = _
      rw [Frames.decryptRecorded_eq]
      rfl

/-- Whether a store has the blob of new content under its reference. -/
def HasBlob (a : Archiver) (draws : Draws) (c : OfferedContent) (o : ArchiveChoices)
    (s : BlobStore) : Prop :=
  ∃ created, s.root.get? draws.blob.text = some (.file (a.blobFor draws c o) created)

theorem hasBlob_added (a : Archiver) (draws : Draws) (c : OfferedContent) (o : ArchiveChoices)
    (s : BlobStore) : a.HasBlob draws c o (added draws s (a.blobFor draws c o)) :=
  ⟨draws.now, Directory.get?_set_self _ _ _⟩

/-- An entry is opened by every archiver that can open what its own makes. -/
theorem openEntry_continued {e : Entry} {s : BlobStore} (h : b.CanOpen a)
    (hequipped : a.IsEquipped o) (he : e.Continues (a.entryFor draws c o))
    (hblob : a.HasBlob draws c o s) :
    ∃ p, b.openEntry e s = .ok (c.metadata, p, a.hashAlgorithm) ∧
      IsPlaintextOf p c.stream.data := by
  obtain ⟨created, hfile⟩ := hblob
  obtain ⟨p, hplain, hp⟩ := plaintext_blobFor hequipped.buffer draws c o
  have hget : s.get draws.blob.text = .ok { data := a.blobFor draws c o } :=
    BlobStore.get_file (BlobStore.fileName?_text draws.blob) hfile
  have hlabel : openLabel e.record (a.unsealingFor draws o) = .ok c.metadata := by
    -- the label is made of fields that do not change
    have hrecord := a.openLabel_entryFor draws c o
    unfold openLabel labelBytes at hrecord ⊢
    rw [he.metadata_eq, he.metadataNonce_eq, he.id_eq]
    exact hrecord
  have hunsealing : b.unsealing e.record.id (a.entryFor draws c o).content
      = .ok (a.unsealingFor draws o) := unsealing_entryFor h hequipped.key e.record.id
  refine ⟨p, ?_, hp⟩
  unfold openEntry
  rw [he.content_eq]
  show (DigestAlgorithm.ofId a.hashAlgorithm.id >>= _) = _
  rw [DigestAlgorithm.ofId_id, Attempt.ok_bind, hunsealing, Attempt.ok_bind, hlabel,
    Attempt.ok_bind]
  show (s.get draws.blob.text >>= _) = _
  rw [hget, Attempt.ok_bind, hplain, Attempt.ok_bind]
  rfl

/-! ## Restoring -/

/-- The receipt for restored content. -/
def restoreReceipt (a : Archiver) (c : OfferedContent) (verify : Bool) : RestoreReceipt where
  id := c.id
  bytes := c.stream.data.length
  hash := if verify then some (Fingerprint.ofBytes a.hashAlgorithm c.stream.data) else none
  metadata := c.metadata

/-- The content of an entry reaches the sink, or nothing of it if it is to be
    verified without a buffer. -/
theorem deliverEntry_continued {e : Entry} {s : BlobStore} {sink : Sink} (verify : Bool)
    (h : b.CanOpen a) (hequipped : a.IsEquipped o) (he : e.Continues (a.entryFor draws c o))
    (hblob : a.HasBlob draws c o s) :
    (b.CanDeliver verify → sink.Accepts c.stream.data.length →
      b.deliverEntry e sink verify s = (.ok (a.restoreReceipt c verify), c.stream.data)) ∧
    (¬ b.CanDeliver verify → sink.Accepts 0 →
      b.deliverEntry e sink verify s = (.error (.ofProducer .crashed), [])) := by
  obtain ⟨p, hopen, hp⟩ := openEntry_continued h hequipped he hblob
  unfold deliverEntry
  rw [hopen]
  constructor
  · intro hcan hsink
    have hid : e.record.id = c.id := he.id_eq.trans (a.id_entryFor draws c o)
    have hspelled : (Fingerprint.ofBytes a.hashAlgorithm c.stream.data).isSpelled e.content.hash
        = true := by
      rw [he.content_eq]
      exact Fingerprint.isSpelled_self a.hashAlgorithm c.stream.data
    have hdeliver := deliverPlaintext_eq hcan hp (fun _ => hspelled)
      (congrArg Prod.snd (Sink.take_of_accepts hsink))
    simp only [hdeliver, hid]
    rfl
  · intro hcannot hsink
    have hdeliver : b.deliverPlaintext p sink verify a.hashAlgorithm e.content.hash
        = (.error (.ofProducer .crashed), []) := by
      cases p with
      | stored blob => exact deliver_crashed hcannot blob hsink _ _
      | opened stream => exact deliver_crashed hcannot stream hsink _ _
    simp only [hdeliver]

theorem isReadable_entryFor (a : Archiver) {draws : Draws} (c : OfferedContent)
    (o : ArchiveChoices) (h : draws.now.HasPlainYear) : (a.entryFor draws c o).IsReadable := by
  unfold entryFor newEntry newRecord
  cases a.keyFor draws o with
  | none => exact ⟨h, fun hf => nomatch hf⟩
  | some key => exact ⟨h, fun _ hn => nomatch hn⟩

/-- When it was archived makes no difference to what an entry delivers. -/
theorem deliverEntry_shown (b : Archiver) (e : Entry) (sink : Sink) (verify : Bool)
    (s : BlobStore) : b.deliverEntry e.shown sink verify s = b.deliverEntry e sink verify s := rfl

/-- An entry is found that continues the one that content was archived under, as its
    texts show it. -/
theorem find_continued {e : Entry} {s : Stores BlobStore} (he : e.Continues (a.entryFor draws c o))
    (hyear : draws.now.HasPlainYear)
    (hrow : s.records.table.find? c.id = some (Row.ofEntry e)) :
    s.records.find c.id = .ok (some e.shown) := by
  have hreadable := he.isReadable (a.isReadable_entryFor c o hyear)
  rw [RecordStore.find, hrow]
  show (Row.ofEntry e).decode.map some = _
  rw [Row.decode_ofEntry hreadable]
  rfl

/-- Content is restored from an entry that continues the one it was archived
    under, as long as its blob is there and there is a buffer if it is to be
    verified. -/
theorem restore_continued {e : Entry} {s : Stores BlobStore} {sink : Sink} {verify : Bool}
    (h : b.CanOpen a) (hequipped : a.IsEquipped o) (he : e.Continues (a.entryFor draws c o))
    (hyear : draws.now.HasPlainYear)
    (hrow : s.records.table.find? c.id = some (Row.ofEntry e))
    (hblob : a.HasBlob draws c o s.blobs) (hcan : b.CanDeliver verify)
    (hsink : sink.Accepts c.stream.data.length) :
    ∃ records, b.restore c.id sink verify s
        = (.ok (a.restoreReceipt c verify), c.stream.data, { s with records }) ∧
      records.table.rows = s.records.table.rows.map fun r =>
        if r.isFor c.id then r.set .restored (.integer 1) else r := by
  have hfound : s.records.table.find? c.id ≠ none := by
    rw [hrow]
    exact fun hn => nomatch hn
  have hfind := find_continued he hyear hrow
  have hdeliver := (deliverEntry_continued verify h hequipped he hblob).1 hcan hsink
  obtain ⟨records, hnote, hrows⟩ := RecordStore.noteRestored_eq hfound
  refine ⟨records, ?_, hrows⟩
  unfold restore
  rw [hfind]
  simp only [deliverEntry_shown, hdeliver, hsink.flushedLast, hnote]

/-- Where it is to be verified without a buffer, restoring fails. -/
theorem restore_crashed {e : Entry} {s : Stores BlobStore} {sink : Sink} {verify : Bool}
    (h : b.CanOpen a) (hequipped : a.IsEquipped o) (he : e.Continues (a.entryFor draws c o))
    (hyear : draws.now.HasPlainYear)
    (hrow : s.records.table.find? c.id = some (Row.ofEntry e))
    (hblob : a.HasBlob draws c o s.blobs) (hcannot : ¬ b.CanDeliver verify)
    (hsink : sink.Accepts 0) :
    b.restore c.id sink verify s = (.error (.ofProducer .crashed), [], s) := by
  have hdeliver := (deliverEntry_continued verify h hequipped he hblob).2 hcannot hsink
  unfold restore
  rw [find_continued he hyear hrow]
  simp only [deliverEntry_shown, hdeliver]

/-- What one archiver archives, any archiver restores that has the same secret
    and knows the key version, whatever else the two are set to: the sink
    receives the content, and the receipt says what is known of it.  The one
    condition on a tee is that there can be a buffer of its size: without it,
    content is not archived, and what is to be verified is not restored. -/
theorem restore_of_archive (a b : Archiver) (draws : Draws) (c : OfferedContent)
    (o : ArchiveChoices) (s : Stores BlobStore) (sink : Sink) (verify : Bool)
    (hnew : s.records.contains c.id = .ok false) (hclean : c.stream.failure = none)
    (hdeclared : c.IsDeclaredRight)
    (hexpected : ¬ o.Refuses (Fingerprint.ofBytes a.hashAlgorithm c.stream.data))
    (hclock : draws.now.HasPlainYear) (hopen : b.CanOpen a)
    (hsink : sink.Accepts c.stream.data.length) :
    (a.IsEquipped o → ∃ receipt t, a.archive draws c o s = (.ok receipt, t) ∧
      receipt.hash = Fingerprint.ofBytes a.hashAlgorithm c.stream.data ∧
      (b.CanDeliver verify →
        ∃ report u, b.restore c.id sink verify t = (.ok report, c.stream.data, u) ∧
          report.id = c.id ∧ report.bytes = c.stream.data.length ∧
          report.metadata = ⟨c.name, c.mimeType, c.length⟩ ∧
          report.hash = (if verify then some receipt.hash else none)) ∧
      (¬ b.CanDeliver verify →
        b.restore c.id sink verify t = (.error (.ofProducer .crashed), [], t))) ∧
    (¬ a.IsEquipped o → ∃ e t, a.archive draws c o s = (.error e, t) ∧ t.records = s.records) := by
  constructor
  · intro hequipped
    obtain ⟨stage, records, harchive, hrows⟩ :=
      a.archive_of_vouched draws ⟨hnew, hequipped.key⟩ hclean
        ⟨hequipped.buffer, hdeclared, hexpected⟩
    have hrow : Row.ofEntry (a.entryFor draws c o) ∈ records.table.rows := by
      rw [hrows]
      exact List.mem_append_right _ (List.mem_singleton_self _)
    have hfind : records.table.find? c.id = some (Row.ofEntry (a.entryFor draws c o)) := by
      have hfound := Table.find?_of_mem hrow
      rw [id_entryFor] at hfound
      exact hfound
    refine ⟨_, _, harchive, rfl, fun hcan => ?_, fun hcannot => ?_⟩
    · -- the entry that was just made continues itself
      obtain ⟨records', hrestore, -⟩ := restore_continued (s := ⟨_, records⟩) hopen hequipped
        (Entry.Continues.refl _) hclock hfind (a.hasBlob_added draws c o s.blobs) hcan hsink
      exact ⟨_, _, hrestore, rfl, rfl, rfl, rfl⟩
    · exact restore_crashed (s := ⟨_, records⟩) hopen hequipped (Entry.Continues.refl _) hclock
        hfind (a.hasBlob_added draws c o s.blobs) hcannot
        ⟨hsink.flushed, fun _ _ _ => Nat.zero_le _, hsink.flushedLast⟩
  · intro hnot
    rcases a.archive_cases draws c o s with ⟨-, e, harchive⟩ | ⟨-, -, e, harchive⟩
      | ⟨-, -, -, e, harchive⟩ | ⟨hbegins, -, hvouched, -⟩
    · exact ⟨e, _, harchive, rfl⟩
    · exact ⟨e, _, harchive, rfl⟩
    · exact ⟨e, _, harchive, rfl⟩
    · exact absurd ⟨hvouched.1, hbegins.2⟩ hnot

end Archiver

namespace Sample

/-- The same vault after its key was rotated, with all other settings changed. -/
def rotated : Archiver where
  keys := ⟨[(1, .hkdf "content"), (2, .pbkdf2 100000)], 2, by decide, by decide⟩
  secret := archiver.secret
  cipher := .chaCha20Poly1305
  chunkSize := .clamp 1
  hashAlgorithm := .blake3
  branchBuffer := 1

/-- Three bytes that come one by one. -/
def content : OfferedContent :=
  ⟨"report", "report.txt", "text/plain", some 3, none, { data := [104, 105, 33], sizes := [1] }⟩

end Sample

namespace Archiver

/-- What was encrypted before the rotation is restored after it, but not by a
    vault without a buffer, which does not archive it either. -/
theorem restore_after_rotation :
    (∃ receipt t, Sample.archiver.archive Sample.draws Sample.content { encrypt := true }
        Sample.stores = (.ok receipt, t) ∧
      receipt.hash = Fingerprint.ofBytes .sha256 [104, 105, 33] ∧
      (∃ report u, Sample.rotated.restore "report" {} true t = (.ok report, [104, 105, 33], u) ∧
        report.id = "report" ∧ report.bytes = 3 ∧
        report.metadata = ⟨"report.txt", "text/plain", some 3⟩ ∧
        report.hash = some receipt.hash) ∧
      Sample.unbuffered.restore "report" {} true t = (.error (.ofProducer .crashed), [], t)) ∧
    ∃ e t, Sample.unbuffered.archive Sample.draws Sample.content { encrypt := true } Sample.stores
        = (.error e, t) ∧ t.records = Sample.stores.records := by
  have hdeclared : Sample.content.IsDeclaredRight := by
    intro n hn
    cases hn
    rfl
  have hexpected : ∀ hash, ¬ ArchiveChoices.Refuses { encrypt := true } hash := by
    rintro hash ⟨hcheck, -⟩
    cases hcheck
  have hclock : Sample.draws.now.HasPlainYear := ⟨by decide, by decide⟩
  have hsink : Sink.Accepts {} 3 := ⟨rfl, fun _ _ hl => (nomatch hl), rfl⟩
  have hequipped : Sample.archiver.IsEquipped { encrypt := true } := ⟨by decide, Sample.hasKey _⟩
  refine ⟨?_, ?_⟩
  · obtain ⟨receipt, t, harchive, hhash, hrestored, -⟩ := (restore_of_archive Sample.archiver
      Sample.rotated Sample.draws Sample.content { encrypt := true } Sample.stores {} true rfl rfl
      hdeclared (hexpected _) hclock ⟨rfl, rfl⟩ hsink).1 hequipped
    obtain ⟨receipt', t', harchive', -, -, hcrashed⟩ := (restore_of_archive Sample.archiver
      Sample.unbuffered Sample.draws Sample.content { encrypt := true } Sample.stores {} true rfl
      rfl hdeclared (hexpected _) hclock ⟨rfl, rfl⟩ hsink).1 hequipped
    cases harchive.symm.trans harchive'
    exact ⟨receipt, t, harchive, hhash, hrestored fun _ => by decide,
      hcrashed fun h => Sample.not_bufferable_unbuffered (h rfl)⟩
  · exact (restore_of_archive Sample.unbuffered Sample.unbuffered Sample.draws Sample.content
      { encrypt := true } Sample.stores {} true rfl rfl hdeclared (hexpected _) hclock ⟨rfl, rfl⟩
      hsink).2 fun h => Sample.not_bufferable_unbuffered h.buffer

end Archiver

end ContentVault
