import ContentVault.Proofs.Archiver.Restoring
import ContentVault.Proofs.Cipher.Opening

/-! # What a successful restore vouches for

    Rows and blobs may have been changed in any way since content was
    archived.  If restoring succeeds nevertheless, then the sink received what
    the blob holds (`Archiver.Recovers`), all of it and nothing else, its digest
    is the recorded one if that was to be verified, and the one change to the
    stores is the mark in the entry's row.  If it fails, nothing was changed
    (`restore_sound`). -/

namespace ContentVault

open ReaderView

/-! ## Names and nonces -/

/-- A nonce that is read from a record is the one that is kept there. -/
theorem Nonce.bytes_of_ofRecord {bytes : Bytes} {n : Nonce} (h : ofRecord bytes = .ok n) :
    n.bytes = bytes := by
  rw [ofRecord, ofBytes?] at h
  split at h
  · rename_i hsome
    split at hsome
    · cases hsome
      cases h
      rfl
    · cases hsome
  · cases h

theorem Frames.decryptRecorded_ok {σ : Type} [ByteReader σ] {cipher : String} {key : Key}
    {nonce : Bytes} {s : σ} {r : Relay} (h : decryptRecorded cipher key nonce s = .ok r) :
    ∃ suite base, CipherSuite.ofId cipher = .ok suite ∧ base.bytes = nonce ∧
      r = decrypt suite.aead key base s := by
  rw [decryptRecorded, Attempt.bind_eq_ok] at h
  obtain ⟨suite, hsuite, h⟩ := h
  obtain ⟨base, hbase, h⟩ := Attempt.bind_eq_ok.mp h
  cases h
  exact ⟨suite, base, hsuite, Nonce.bytes_of_ofRecord hbase, rfl⟩

/-! ## Blobs and rows -/

/-- A blob that can be read to its end is a file. -/
theorem BlobStore.file_of_get {s : BlobStore} {ref : String} {blob : Source}
    (h : s.get ref = .ok blob) (hclean : blob.failure = none) :
    ∃ name created, fileName? ref = some name ∧ s.root.get? name = some (.file blob.data created) := by
  rw [BlobStore.get] at h
  split at h
  · rename_i bytes created hnode
    obtain ⟨name, hname, hfile⟩ := Option.bind_eq_some_iff.mp hnode
    cases h
    exact ⟨name, created, hname, hfile⟩
  · cases h
    cases hclean
  · cases h

/-- The row of an entry that is marked as restored spells the same entry, so marked. -/
theorem Row.decode_set_restored {r : Row} {e : Entry} (h : r.decode = .ok e) :
    (r.set .restored (.integer 1)).decode
      = .ok { e with record := { e.record with restored := true } } := by
  rw [Row.decode, Attempt.bind_eq_ok] at h
  obtain ⟨raw, hraw, hentry⟩ := h
  have hmarked : (r.set .restored (.integer 1)).raw = .ok { raw with restored := true } := by
    have hmark : (r.set .restored (.integer 1) .restored).asFlag = .ok true := rfl
    simp only [Row.raw, Attempt.bind_eq_ok] at hraw ⊢
    obtain ⟨id, hid, archived, harchived, _, -, hrest⟩ := hraw
    refine ⟨id, hid, archived, harchived, true, hmark, ?_⟩
    obtain ⟨metadata, h1, nonce, h2, tx, h3, ref, h4, algorithm, h5, hash, h6, encrypted, h7,
      version, h8, kdf, h9, cipher, h10, salt, h11, base, h12, hrow⟩ := hrest
    refine ⟨metadata, h1, nonce, h2, tx, h3, ref, h4, algorithm, h5, hash, h6, encrypted, h7,
      version, h8, kdf, h9, cipher, h10, salt, h11, base, h12, ?_⟩
    cases hrow
    rfl
  rw [Row.decode, hmarked, Attempt.ok_bind]
  -- the entry is made of the same fields, in the same order
  simp only [Row.Raw.entry, Attempt.bind_eq_ok] at hentry ⊢
  obtain ⟨time, h1, version, h2, metadataNonce, h3, salt, h4, nonce, h5, hrow⟩ := hentry
  refine ⟨time, h1, version, h2, metadataNonce, h3, salt, h4, nonce, h5, ?_⟩
  split at hrow
  · cases hrow
  · rename_i hsound
    cases hrow
    exact if_neg hsound

/-- What is found under an id that was noted as restored: the entry that was
    there, so marked. -/
theorem RecordStore.find_noteRestored {s t : RecordStore} {id : String} {e : Entry}
    (hnote : s.noteRestored id = .ok t) (hfind : s.find id = .ok (some e)) :
    t.find id = .ok (some { e with record := { e.record with restored := true } }) := by
  have hrows : t.table.rows = s.table.rows.map fun r =>
      if r.isFor id then r.set .restored (.integer 1) else r :=
    rows_of_change hnote nofun nofun
  have hsame : Row.isFor id ∘ (fun r => if r.isFor id then r.set .restored (.integer 1) else r)
      = Row.isFor id := by
    funext r
    by_cases hr : r.isFor id
    · rw [Function.comp_apply, if_pos hr]
      rfl
    · rw [Function.comp_apply, if_neg hr]
  rw [RecordStore.find, Table.find?] at hfind ⊢
  rw [hrows, List.find?_map, hsame]
  split at hfind
  · cases hfind
  · rename_i r hr
    have hid : r.isFor id = true := List.find?_some hr
    obtain ⟨e', hdecode, he⟩ := Attempt.map_eq_ok.mp hfind
    cases he
    rw [hr, Option.map_some, if_pos hid]
    show (Row.decode _).map some = _
    rw [Row.decode_set_restored hdecode]
    rfl

/-! ## Delivering -/

namespace Archiver

/-- A stream that was copied and digested ended cleanly and is all in the sink. -/
theorem eq_of_copyDigested {a : Archiver} {σ : Type} [ByteReader σ] [ReaderView σ] {stream : σ}
    {sink : Sink} {algorithm : DigestAlgorithm} {hash : Fingerprint} {received : Bytes}
    (h : a.copyDigested stream sink algorithm = (.ok hash, received)) :
    ending stream = none ∧ received = content stream ∧
      hash = Fingerprint.ofBytes algorithm received := by
  by_cases hbuffer : Tee.Bufferable a.branchBuffer
  · rw [copyDigested_view hbuffer] at h
    cases htaken : sink.take (content stream) (ending stream) with
    | mk got failure =>
        rw [htaken] at h
        cases failure with
        | some e => cases hend : ending stream <;> rw [hend] at h <;> cases h
        | none =>
            obtain ⟨hend, rfl⟩ := Sink.eq_of_take htaken
            rw [hend] at h
            cases h
            exact ⟨hend, rfl, rfl⟩
  · rw [copyDigested_crashed hbuffer] at h
    cases h

/-- A stream that was delivered ended cleanly and is all in the sink, and its
    digest is spelled by the recorded one if that was asked for. -/
theorem eq_of_deliver (a : Archiver) {σ : Type} [ByteReader σ] [ReaderView σ] {stream : σ}
    {sink : Sink} {verify : Bool} {algorithm : DigestAlgorithm} {recorded : String}
    {hash : Option Fingerprint} {received : Bytes}
    (h : a.deliver stream sink verify algorithm recorded = (.ok hash, received)) :
    ending stream = none ∧ received = content stream ∧
      hash = (if verify then some (Fingerprint.ofBytes algorithm received) else none) ∧
      (verify = true → (Fingerprint.ofBytes algorithm received).isSpelled recorded = true) := by
  rw [deliver] at h
  cases verify with
  | true =>
      rw [if_pos rfl] at h
      split at h
      · cases h
      · rename_i hash' received' hcopied
        obtain ⟨hend, hreceived, rfl⟩ := eq_of_copyDigested hcopied
        split at h
        · rename_i hspelled
          cases h
          exact ⟨hend, hreceived, rfl, fun _ => hspelled⟩
        · cases h
  | false =>
      rw [if_neg Bool.false_ne_true, copy_eq] at h
      split at h
      · cases h
      · rename_i received' htaken
        cases h
        obtain ⟨hend, hreceived⟩ := Sink.eq_of_take htaken
        exact ⟨hend, hreceived, rfl, fun hverify => absurd hverify Bool.false_ne_true⟩

/-! ## Opening an entry -/

variable {a : Archiver} {c : EntryContent}

/-- What it takes to decrypt content that is encrypted. -/
theorem unsealing_ok {id : String} {d : Option Unsealing} (h : a.unsealing id c = .ok d) :
    (c.encrypted = false ∧ d = none) ∨
      (c.encrypted = true ∧ ∃ key cipher nonce, d = some ⟨key, cipher, nonce⟩ ∧
        c.cipher = some cipher ∧ c.nonce = some nonce ∧
        a.keys.derive a.secret c.salt c.keyVersion = .ok key) := by
  rw [unsealing] at h
  cases henc : c.encrypted with
  | false =>
      rw [henc] at h
      cases h
      exact Or.inl ⟨rfl, rfl⟩
  | true =>
      rw [henc, if_pos rfl, Attempt.bind_eq_ok] at h
      obtain ⟨params, -, h⟩ := h
      split at h
      · cases h
      · split at h
        · cases h
        · cases h
        · rename_i cipher nonce hcipher hnonce
          obtain ⟨key, hkey, h⟩ := Attempt.bind_eq_ok.mp h
          cases h
          exact Or.inr ⟨rfl, key, cipher, nonce, rfl, hcipher, hnonce, hkey⟩

/-- What a blob holds by what is recorded of it: the content, if it is not
    encrypted, and otherwise frames all of which open, the final one being the
    last, and the content cut into their chunks. -/
def Recovers (a : Archiver) (c : EntryContent) (blob data : Bytes) : Prop :=
  if c.encrypted then
    ∃ key cipher suite base chunks, a.keys.derive a.secret c.salt c.keyVersion = .ok key ∧
      c.cipher = some cipher ∧ CipherSuite.ofId cipher = .ok suite ∧
      c.nonce = some (Nonce.bytes base) ∧
      Frames.Opens suite.aead key base 0 blob chunks true [] ∧ data = chunks.flatten
  else data = blob

/-- A plaintext that ends cleanly is what its blob holds. -/
theorem recovers_of_plaintext {id : String} {d : Option Unsealing} {blob : Source} {p : Plaintext}
    {data : Bytes} (hd : a.unsealing id c = .ok d) (hp : plaintext blob d = .ok p)
    (hdata : IsPlaintextOf p data) (hblob : blob.failure = none) : a.Recovers c blob.data data := by
  rw [Recovers]
  rcases unsealing_ok hd with ⟨henc, rfl⟩ | ⟨henc, key, cipher, nonce, rfl, hcipher, hnonce, hkey⟩
  · cases hp
    rw [henc]
    exact hdata.1.symm
  · obtain ⟨r, hr, rfl⟩ := Attempt.map_eq_ok.mp hp
    obtain ⟨suite, base, hsuite, rfl, rfl⟩ := Frames.decryptRecorded_ok hr
    obtain ⟨hcontent, hend⟩ := hdata
    obtain ⟨chunks, final, rest, hopens, hchunks, hfinal⟩ :=
      Frames.decrypt_cases suite.aead key base (s := blob) hblob
    rcases hfinal with ⟨rfl, rfl, -⟩ | ⟨-, reason, hbroken⟩
    · rw [henc, if_pos rfl]
      exact ⟨key, cipher, suite, base, chunks, hkey, hcipher, hsuite, hnonce, hopens,
        hcontent.symm.trans hchunks⟩
    · cases hend.symm.trans hbroken

/-- What cannot be read at all is not decrypted to anything. -/
theorem ending_decrypt_of_empty {σ : Type} [ByteReader σ] [ReaderView σ] (cipher : Aead)
    (key : Key) (base : Nonce) {s : σ} {e : IoError} (hc : content s = []) (he : ending s = some e) :
    ending (Frames.decrypt cipher key base s) = some e := by
  have hnext : ∃ s', Frames.next cipher key base 0 s = (.error e, s') := by
    rcases readFilling_cases s Frames.headerSize with ⟨hroom, -⟩ | ⟨-, hnone, -⟩
      | ⟨-, s', e', he', hread⟩
    · rw [hc] at hroom
      cases hroom
    · cases he.symm.trans hnone
    · cases he.symm.trans he'
      refine ⟨s', ?_⟩
      rw [Frames.next, hread]
  obtain ⟨s', hnext⟩ := hnext
  rw [Frames.decrypt, Relay.ending_fresh, Frames.decryptFrom]
  split
  · rename_i hnext'
    cases hnext.symm.trans hnext'
    rfl
  · rename_i hnext'
    cases hnext.symm.trans hnext'

/-- A plaintext that ends cleanly comes from a blob that does. -/
theorem clean_of_plaintext {s : BlobStore} {ref : String} {d : Option Unsealing} {blob : Source}
    {p : Plaintext} {data : Bytes} (hget : s.get ref = .ok blob) (hp : plaintext blob d = .ok p)
    (hdata : IsPlaintextOf p data) : blob.failure = none := by
  cases hfailure : blob.failure with
  | none => rfl
  | some e =>
      have hempty : blob.data = [] := by
        rw [BlobStore.get] at hget
        split at hget
        · cases hget
          cases hfailure
        · cases hget
          rfl
        · cases hget
      cases d with
      | none =>
          cases hp
          exact absurd (hdata.2.symm.trans hfailure) nofun
      | some d =>
          obtain ⟨r, hr, rfl⟩ := Attempt.map_eq_ok.mp hp
          obtain ⟨suite, base, -, -, rfl⟩ := Frames.decryptRecorded_ok hr
          have hend := ending_decrypt_of_empty suite.aead d.key base (s := blob) hempty hfailure
          exact absurd (hdata.2.symm.trans hend) nofun

/-- What opening an entry goes through. -/
theorem openEntry_ok {e : Entry} {s : BlobStore} {metadata : ContentLabel} {p : Plaintext}
    {algorithm : DigestAlgorithm} (h : a.openEntry e s = .ok (metadata, p, algorithm)) :
    DigestAlgorithm.ofId e.content.hashAlgorithm = .ok algorithm ∧
      ∃ d blob, a.unsealing e.record.id e.content = .ok d ∧ openLabel e.record d = .ok metadata ∧
        s.get e.content.contentRef = .ok blob ∧ plaintext blob d = .ok p := by
  rw [openEntry, Attempt.bind_eq_ok] at h
  obtain ⟨algorithm', halgorithm, h⟩ := h
  obtain ⟨d, hd, h⟩ := Attempt.bind_eq_ok.mp h
  obtain ⟨metadata', hmetadata, h⟩ := Attempt.bind_eq_ok.mp h
  obtain ⟨blob, hblob, h⟩ := Attempt.bind_eq_ok.mp h
  obtain ⟨p', hp, h⟩ := Attempt.bind_eq_ok.mp h
  cases h
  exact ⟨halgorithm, d, blob, hd, hmetadata, hblob, hp⟩

/-! ## Restoring -/

/-- What the sink of a successful restore received, by what the entry says. -/
theorem deliverEntry_ok {e : Entry} {s : BlobStore} {sink : Sink} {verify : Bool}
    {report : RestoreReceipt} {received : Bytes}
    (h : a.deliverEntry e sink verify s = (.ok report, received)) :
    report.id = e.record.id ∧ report.bytes = received.length ∧
      (∃ name blob created, BlobStore.fileName? e.content.contentRef = some name ∧
        s.root.get? name = some (.file blob created) ∧ a.Recovers e.content blob received) ∧
      ∃ algorithm, DigestAlgorithm.ofId e.content.hashAlgorithm = .ok algorithm ∧
        report.hash = (if verify then some (Fingerprint.ofBytes algorithm received) else none) ∧
        (verify = true →
          (Fingerprint.ofBytes algorithm received).isSpelled e.content.hash = true) := by
  rw [deliverEntry] at h
  split at h
  · cases h
  · rename_i metadata p algorithm hopen
    obtain ⟨halgorithm, d, blob, hd, -, hget, hp⟩ := openEntry_ok hopen
    split at h
    · cases h
    · rename_i hash got hdeliver
      cases h
      have hdelivered : IsPlaintextOf p received ∧
          hash = (if verify then some (Fingerprint.ofBytes algorithm received) else none) ∧
          (verify = true →
            (Fingerprint.ofBytes algorithm received).isSpelled e.content.hash = true) := by
        cases p with
        | stored blob =>
            obtain ⟨hend, hall, hhash⟩ := a.eq_of_deliver hdeliver
            exact ⟨⟨hall.symm, hend⟩, hhash⟩
        | opened stream =>
            obtain ⟨hend, hall, hhash⟩ := a.eq_of_deliver hdeliver
            exact ⟨⟨hall.symm, hend⟩, hhash⟩
      have hclean := clean_of_plaintext hget hp hdelivered.1
      obtain ⟨name, created, hname, hfile⟩ := BlobStore.file_of_get hget hclean
      exact ⟨rfl, rfl, ⟨name, blob.data, created, hname, hfile,
        recovers_of_plaintext hd hp hdelivered.1 hclean⟩, algorithm, halgorithm, hdelivered.2⟩

/-- Restoring, whatever became of the rows, the blobs and the keys, and
    whatever the sink does: a success vouches for what the sink received and has
    written to the end, and marks the entry and changes nothing else; a failure
    changes nothing. -/
theorem restore_sound (a : Archiver) (id : String) (sink : Sink) (verify : Bool)
    (s : Stores BlobStore) :
    match a.restore id sink verify s with
    | (.error _, _, t) => t = s
    | (.ok report, received, t) =>
      ∃ e, s.records.find id = .ok (some e) ∧ report.bytes = received.length ∧
        sink.lastFlushFailure = none ∧
        (∃ name blob created, BlobStore.fileName? e.content.contentRef = some name ∧
          s.blobs.root.get? name = some (.file blob created) ∧
          a.Recovers e.content blob received) ∧
        (verify = true → ∃ algorithm, DigestAlgorithm.ofId e.content.hashAlgorithm = .ok algorithm ∧
          report.hash = some (Fingerprint.ofBytes algorithm received) ∧
          Text.equalsIgnoringCase (Fingerprint.ofBytes algorithm received).value
            (Text.trim e.content.hash) = true) ∧
        t.blobs = s.blobs ∧
        t.records.table.rows = (s.records.table.rows.map fun r =>
          if r.isFor id then r.set .restored (.integer 1) else r) ∧
        t.records.find id
          = .ok (some { e with record := { e.record with restored := true } }) := by
  rw [restore]
  cases hfind : s.records.find id with
  | error e => rfl
  | ok found =>
      cases found with
      | none => rfl
      | some e =>
          cases hdeliver : a.deliverEntry e sink verify s.blobs with
          | mk result received =>
              cases result with
              | error error => simp only [hdeliver]
              | ok report =>
                  simp only [hdeliver]
                  cases hlast : sink.lastFlushFailure with
                  | some x => rfl
                  | none =>
                      cases hnote : s.records.noteRestored id with
                      | error error => rfl
                      | ok records =>
                          obtain ⟨-, hbytes, hblob, algorithm, halgorithm, hhash, hspelled⟩ :=
                            deliverEntry_ok hdeliver
                          refine ⟨e, rfl, hbytes, rfl, hblob, fun hverify => ?_, rfl,
                            RecordStore.rows_of_change hnote nofun nofun,
                            RecordStore.find_noteRestored hnote hfind⟩
                          rw [if_pos hverify] at hhash
                          exact ⟨algorithm, halgorithm, hhash, hspelled hverify⟩

end Archiver

end ContentVault
