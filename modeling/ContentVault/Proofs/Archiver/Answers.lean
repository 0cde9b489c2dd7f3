import ContentVault.Proofs.Archiver.Restoring
import ContentVault.Proofs.Cipher.Conveying
import ContentVault.Proofs.Stream.Feeds
import ContentVault.Proofs.Stream.Joining

/-! # What the caller is told

    Archiving and verified restoring are each the work of a crew: who supplies
    the stream, the producer of the tee, the task that digests, the one that
    stores or writes, and a task that encrypts if need be.  What the crew comes
    to, archiving and restoring go on with (`concluded`, `returned`).  Whoever
    acts when, the caller is told what went wrong at the root: the failure of
    the source, of the store, or of the sink; and neither is a record made nor
    one marked (`root_cause_of_any_order`). -/

namespace ContentVault

open ByteReader ReaderView

namespace Archiver

/-! ## What archiving and restoring go on with -/

section

variable {β : Type} [BlobStorage β]

/-- What archiving comes to, by what storing and digesting have come to. -/
def concluded (a : Archiver) (draws : Draws) (key : Option Key) (c : OfferedContent)
    (o : ArchiveChoices) (s : Stores β) (blobs : β) :
    Attempt StoredContent → Attempt ArchiveReceipt × Stores β
  | .error e => (.error e, { s with blobs })
  | .ok stored =>
    match checkContent o c stored with
    | .error e => (.error e, { s with blobs })
    | .ok verify =>
      match s.records.save (a.newEntry draws key c stored) with
      | .error e => (.error e, { s with blobs })
      | .ok records => (.ok (a.receipt key c stored verify), ⟨blobs, records⟩)

/-- Storing content joins what is stored, what is digested and what was passed
    on. -/
theorem storeContent_joined (a : Archiver) (draws : Draws) (key : Option Key) (c : OfferedContent)
    (blobs : β) :
    (a.storeContent draws key c blobs).1
      = joined StoredContent.mk
          (a.putContent draws key c.length (Tee.split c.stream a.branchBuffer copyBuffer).2.1
            blobs).1
          (a.digestContent (Tee.split c.stream a.branchBuffer copyBuffer).1)
          (Tee.split c.stream a.branchBuffer copyBuffer).2.2 := by
  rw [storeContent]
  generalize Tee.split c.stream a.branchBuffer copyBuffer = parts
  obtain ⟨toDigest, toBlob, passed⟩ := parts
  dsimp only
  generalize a.putContent draws key c.length toBlob blobs = put
  obtain ⟨stored, blobs'⟩ := put
  cases stored <;> cases a.digestContent toDigest <;> cases passed <;> rfl

/-- Where there is no record yet and the key is there, archiving is concluded by
    what is stored. -/
theorem archive_eq_concluded {a : Archiver} (draws : Draws) {c : OfferedContent}
    {o : ArchiveChoices} {s : Stores β} (hbegins : a.Begins c o s.records) :
    a.archive draws c o s
      = a.concluded draws (a.keyFor draws o) c o s
          (a.storeContent draws (a.keyFor draws o) c s.blobs).2
          (a.storeContent draws (a.keyFor draws o) c s.blobs).1 := by
  rw [archive, hbegins.1]
  dsimp only
  rw [contentKey_eq draws hbegins.2]
  dsimp only
  generalize a.storeContent draws (a.keyFor draws o) c s.blobs = out
  obtain ⟨stored, blobs⟩ := out
  cases stored <;> rfl

/-- What copying and digesting come to, if the digest is to be the recorded one. -/
def verified (recorded : String) : Attempt Fingerprint → Attempt (Option Fingerprint)
  | .error e => .error e
  | .ok hash =>
    if hash.isSpelled recorded then .ok (some hash)
    else .error (.hashMismatch recorded hash.value)

/-- What restoring comes to, by what delivering and the last flush have come to. -/
def returned (id : String) (e : Entry) (metadata : ContentLabel) (s : Stores β)
    (received : Bytes) (last : Option IoError) :
    Attempt (Option Fingerprint) → Attempt RestoreReceipt × Bytes × Stores β
  | .error f => (.error f, received, s)
  | .ok hash =>
    match last with
    | some f => (.error (.ofIo f), received, s)
    | none =>
      match s.records.noteRestored id with
      | .error f => (.error f, received, s)
      | .ok records =>
        (.ok ⟨e.record.id, received.length, hash, metadata⟩, received, { s with records })

omit [BlobStorage β] in
/-- A stream that is to be verified is delivered if copying and digesting it
    comes to the recorded digest. -/
theorem deliver_verified (a : Archiver) {σ : Type} [ByteReader σ] (stream : σ) (sink : Sink)
    (algorithm : DigestAlgorithm) (recorded : String) :
    a.deliver stream sink true algorithm recorded
      = (verified recorded (a.copyDigested stream sink algorithm).1,
          (a.copyDigested stream sink algorithm).2) := by
  rw [deliver, if_pos rfl]
  generalize a.copyDigested stream sink algorithm = out
  obtain ⟨result, received⟩ := out
  cases result with
  | error f => rfl
  | ok hash =>
      dsimp only [verified]
      by_cases hspelled : hash.isSpelled recorded = true
      · rw [if_pos hspelled, if_pos hspelled]
      · rw [if_neg hspelled, if_neg hspelled]

/-- Where an entry can be opened, restoring returns what is delivered. -/
theorem restore_eq_returned (a : Archiver) {id : String} {e : Entry} {s : Stores β}
    {metadata : ContentLabel} {p : Plaintext} {algorithm : DigestAlgorithm} (sink : Sink)
    (verify : Bool) (hfind : s.records.find id = .ok (some e))
    (hopen : a.openEntry e s.blobs = .ok (metadata, p, algorithm)) :
    a.restore id sink verify s
      = returned id e metadata s (a.deliverPlaintext p sink verify algorithm e.content.hash).2
          sink.lastFlushFailure
          (a.deliverPlaintext p sink verify algorithm e.content.hash).1 := by
  rw [restore, hfind]
  dsimp only
  rw [deliverEntry, hopen]
  dsimp only
  generalize a.deliverPlaintext p sink verify algorithm e.content.hash = out
  obtain ⟨result, received⟩ := out
  cases result <;> rfl

end

/-! ## The crews -/

/-- The branch that stores content: its port, behind a task that encrypts if
    there is a key. -/
def storing (a : Archiver) (draws : Draws) (key : Option Key) {α : Type} (p : Port α) : Branch α :=
  match key with
  | some key => p.sealed a.cipher.aead key draws.contentNonce a.chunkSize
  | none => p.direct

/-- The branch that digests. -/
def digesting (algorithm : DigestAlgorithm) : Branch (Attempt Fingerprint) :=
  (Port.collector fun r => DigestTap.drain { inner := r, algorithm }).direct

/-- The port of a store of blobs as files: it has a new file written to the end. -/
def filing (draws : Draws) (s : BlobStore) (length : Option UInt64) : Port (Attempt String) :=
  .collector fun r => (s.put draws.blob draws.now r length).1

/-- Those who archive content. -/
def archiving {σ : Type} (a : Archiver) (draws : Draws) (o : ArchiveChoices) (source : σ)
    (p : Port (Attempt String)) :
    Crew σ (a.storing draws (a.keyFor draws o) p) (digesting a.hashAlgorithm) :=
  .begin _ _ source a.branchBuffer

/-- Those who give a plaintext to a sink and digest it. -/
def restoring {σ : Type} (a : Archiver) (source : σ) (p : Port (Attempt Unit))
    (algorithm : DigestAlgorithm) : Crew σ p.direct (digesting algorithm) :=
  .begin _ _ source a.branchBuffer

/-- A digest gets on. -/
theorem digesting_getsOn (algorithm : DigestAlgorithm) : (digesting algorithm).GetsOn :=
  (Port.lively_collector _).getsOn trivial

/-- A digest is loyal. -/
theorem digesting_loyal (algorithm : DigestAlgorithm) : ∃ Inv, (digesting algorithm).Loyal Inv := by
  refine ⟨_, (Port.loyal_collector fun r x hx => ?_).direct⟩
  rw [DigestTap.drain_eq, hx]

/-- A store of files is loyal. -/
theorem filing_loyal (draws : Draws) (s : BlobStore) (length : Option UInt64) :
    (filing draws s length).Loyal fun (k : Tee.Catch) told => k.ending = told := by
  refine Port.loyal_collector fun r x hx => ?_
  rw [BlobStore.put_eq, hx]

section

variable (a : Archiver) (draws : Draws) (key : Option Key)

theorem storing_settles {α : Type} (p : Port α) : (a.storing draws key p).Settles := by
  cases key with
  | none => exact p.settles_direct
  | some key => exact Sealed.settles p

/-- A port that gets on stores what comes, encrypted or not. -/
theorem storing_getsOn {α : Type} {p : Port α} {Live : p.State → Prop} {rank : p.State → Nat}
    (h : p.Lively Live rank) (hstart : Live p.start) : (a.storing draws key p).GetsOn := by
  cases key with
  | none => exact h.getsOn hstart
  | some key => exact Sealed.getsOn h hstart

/-- A loyal port is told what the source ends with, encrypted or not. -/
theorem storing_loyal {α : Type} {p : Port (Attempt α)} {Inv : p.State → Option Ending → Prop}
    (h : p.Loyal Inv) : ∃ Inv', (a.storing draws key p).Loyal Inv' := by
  cases key with
  | none => exact ⟨_, h.direct⟩
  | some key => exact ⟨_, Sealed.loyal h⟩

end

/-! ## A source that fails -/

/-- Content whose source fails is not archived, and the failure is the error, if
    the source is read at all. -/
theorem archive_of_failing_source {a : Archiver} (draws : Draws) {c : OfferedContent}
    {o : ArchiveChoices} {s : Stores BlobStore} (hnew : s.records.contains c.id = .ok false)
    (hequipped : a.IsEquipped o) {x : IoError} (hfailure : c.stream.failure = some x) :
    a.archive draws c o s
      = (.error (.ofIo x), { s with blobs := discarded draws s.blobs }) := by
  rw [archive_eq_concluded draws ⟨hnew, hequipped.key⟩, storeContent_eq,
    seen_of_bufferable hequipped.buffer, hfailure]
  rfl

/-- Those who archive it come to that failure, whoever acts when. -/
theorem archiving_of_failing_source {a : Archiver} (hbuffer : Tee.Bufferable a.branchBuffer)
    (draws : Draws) (o : ArchiveChoices) {σ : Type} [ByteReader σ] [ReaderView σ] {source : σ}
    {x : IoError} (hsource : ending source = some x) (s : BlobStore) (length : Option UInt64)
    {up : Upstream σ} (heager : up.IsEager) {schedule : Nat → CrewAction}
    (hfair : Crew.Fair schedule) :
    (a.archiving draws o source (filing draws s length)).Concludes up .second StoredContent.mk
      schedule (· = .error (.ofIo x)) := by
  obtain ⟨_, hstoring⟩ :=
    a.storing_loyal draws (a.keyFor draws o) (filing_loyal draws s length)
  obtain ⟨_, hdigesting⟩ := digesting_loyal a.hashAlgorithm
  exact Crew.concludes_of_ending hstoring hdigesting
    (a.storing_getsOn draws _ (Port.lively_collector _) trivial) (digesting_getsOn _)
    ((if_pos hbuffer).trans hsource) heager hfair

/-! ## A store that fails -/

/-- Content is not archived that a store fails to take, and its error is the
    error, unless that only says that a sibling is gone. -/
theorem archive_of_failing_store {β : Type} [BlobStorage β] {a : Archiver} (draws : Draws)
    {c : OfferedContent} {o : ArchiveChoices} {s : Stores β} (hbegins : a.Begins c o s.records)
    {f : VaultFailure} (hf : f.isSiblingClosed = false)
    (hput : (a.putContent draws (a.keyFor draws o) c.length
      (Tee.split c.stream a.branchBuffer copyBuffer).2.1 s.blobs).1 = .error f) :
    ∃ blobs, a.archive draws c o s = (.error f, { s with blobs }) := by
  refine ⟨(a.storeContent draws (a.keyFor draws o) c s.blobs).2, ?_⟩
  rw [archive_eq_concluded draws hbegins, storeContent_joined, hput, joined_of_error _ hf]
  rfl

/-! ## A sink that fails -/

/-- What a sink is given of content: all of it, or nothing if that cannot be
    delivered. -/
def given (a : Archiver) (verify : Bool) (data : Bytes) : Bytes :=
  if verify = true ∧ ¬Tee.Bufferable a.branchBuffer then [] else data

section

variable {a : Archiver} {data : Bytes} {sink : Sink} {x : IoError} {verify : Bool}

/-- Delivering a stream that is whole to a sink that fails comes to that. -/
theorem deliver_of_failing_sink {σ : Type} [ByteReader σ] [ReaderView σ] {stream : σ}
    (hcontent : content stream = data) (hend : ending stream = none)
    (hsink : (sink.take (a.given verify data) none).2 = some x)
    (algorithm : DigestAlgorithm) (recorded : String) :
    (a.deliver stream sink verify algorithm recorded).1 = .error (.ofIo x) := by
  unfold given at hsink
  cases verify with
  | true =>
      rw [deliver_verified]
      by_cases hbuffer : Tee.Bufferable a.branchBuffer
      · rw [if_neg fun h => h.2 hbuffer] at hsink
        rw [copyDigested_view hbuffer, hcontent, hend, hsink]
        rfl
      · rw [if_pos ⟨rfl, hbuffer⟩] at hsink
        rw [copyDigested_crashed hbuffer, hsink]
        rfl
  | false =>
      rw [if_neg fun h => Bool.false_ne_true h.1] at hsink
      rw [deliver, if_neg Bool.false_ne_true, copy_eq, hcontent, hend]
      generalize sink.take data none = taken at hsink
      obtain ⟨received, failure⟩ := taken
      cases hsink
      rfl

variable {β : Type} [BlobStorage β] {id : String} {e : Entry} {s : Stores β}
  {metadata : ContentLabel} {p : Plaintext} {algorithm : DigestAlgorithm}

/-- An entry that is whole is not restored into a sink that fails, the failure
    is the error, and the stores stay as they are. -/
theorem restore_of_failing_sink (hfind : s.records.find id = .ok (some e))
    (hopen : a.openEntry e s.blobs = .ok (metadata, p, algorithm)) (hp : IsPlaintextOf p data)
    (hsink : (sink.take (a.given verify data) none).2 = some x) :
    ∃ received, a.restore id sink verify s = (.error (.ofIo x), received, s) := by
  have hdeliver : (a.deliverPlaintext p sink verify algorithm e.content.hash).1
      = .error (.ofIo x) := by
    cases p with
    | stored blob => exact deliver_of_failing_sink hp.1 hp.2 hsink algorithm _
    | opened stream => exact deliver_of_failing_sink hp.1 hp.2 hsink algorithm _
  exact ⟨_, (a.restore_eq_returned sink verify hfind hopen).trans (by rw [hdeliver]; rfl)⟩

/-- Nor into one that fails at the very end, after all was delivered. -/
theorem restore_of_failing_last_flush (hfind : s.records.find id = .ok (some e))
    (hopen : a.openEntry e s.blobs = .ok (metadata, p, algorithm))
    {hash : Option Fingerprint} {received : Bytes}
    (hdeliver : a.deliverPlaintext p sink verify algorithm e.content.hash = (.ok hash, received))
    (hsink : sink.lastFlushFailure = some x) :
    a.restore id sink verify s = (.error (.ofIo x), received, s) := by
  rw [a.restore_eq_returned sink verify hfind hopen, hdeliver, hsink]
  rfl

end

/-! ## The root of it -/

/-- What went wrong at the root is what the caller is told, at once and after
    every fair schedule of those who work on it, each of which comes to an
    answer; and the records stay as they are.

    * A source that fails, of content that has no record: archiving into a store
      of files comes to the failure of the source, whether the content is
      encrypted or not and whatever was said about it.  There may be a task that
      supplies the source.  It has to be read, so the tee has to have its buffer
      and the key has to be there.
    * A store that fails, wherever its port has come to, with an error that does
      not only say that a sibling is gone: archiving comes to that error, once
      the key is there.
    * A sink that fails, likewise, when the entry can be opened and its
      plaintext is whole: restoring comes to that failure, and marks nothing.
      So it does if the sink fails only at its last flush, when the digest has
      turned out right.  Where the digest is not verified, the sink alone reads
      the plaintext, so there is no order to speak of; a task that decrypts is
      one that supplies the tee. -/
theorem root_cause_of_any_order (a : Archiver) (draws : Draws) :
    (∀ (c : OfferedContent) (o : ArchiveChoices) (s : Stores BlobStore) (x : IoError),
      s.records.contains c.id = .ok false →
        (a.IsEquipped o → c.stream.failure = some x →
          ∃ blobs, a.archive draws c o s = (.error (.ofIo x), { s with blobs })) ∧
        ∀ {σ : Type} [ByteReader σ] [ReaderView σ] (source : σ) (up : Upstream σ)
            (schedule : Nat → CrewAction),
          Tee.Bufferable a.branchBuffer → ending source = some x → up.IsEager →
          Crew.Fair schedule →
          (a.archiving draws o source
              (filing draws s.blobs (blobLength (a.keyFor draws o) c.length))).Concludes
            up .second StoredContent.mk schedule fun r => ∀ blobs,
              a.concluded draws (a.keyFor draws o) c o s blobs r
                = (.error (.ofIo x), { s with blobs })) ∧
    (∀ {β : Type} [BlobStorage β] (c : OfferedContent) (o : ArchiveChoices) (s : Stores β)
        (f : VaultFailure),
      s.records.contains c.id = .ok false → f.isSiblingClosed = false →
        (a.HasKey o → (a.putContent draws (a.keyFor draws o) c.length
            (Tee.split c.stream a.branchBuffer copyBuffer).2.1 s.blobs).1 = .error f →
          ∃ blobs, a.archive draws c o s = (.error f, { s with blobs })) ∧
        ∀ {σ : Type} [ByteReader σ] [ReaderView σ] (source : σ) (p : Port (Attempt String))
            (up : Upstream σ) (schedule : Nat → CrewAction) (m : Nat),
          Crew.Fair schedule →
          (a.storing draws (a.keyFor draws o) p).result?
              ((a.archiving draws o source p).along up .second schedule m).main
            = some (.error f) →
          (a.archiving draws o source p).Concludes up .second StoredContent.mk schedule fun r =>
            ∀ blobs, a.concluded draws (a.keyFor draws o) c o s blobs r
              = (.error f, { s with blobs })) ∧
    (∀ {β : Type} [BlobStorage β] (id : String) (e : Entry) (s : Stores β)
        (metadata : ContentLabel) (content : Plaintext) (algorithm : DigestAlgorithm) (data : Bytes)
        (x : IoError),
      s.records.find id = .ok (some e) →
      a.openEntry e s.blobs = .ok (metadata, content, algorithm) → IsPlaintextOf content data →
      (VaultFailure.ofIo x).isSiblingClosed = false →
        (∀ (sink : Sink) (verify : Bool), (sink.take (a.given verify data) none).2 = some x →
          ∃ received, a.restore id sink verify s = (.error (.ofIo x), received, s)) ∧
        (∀ (sink : Sink) (verify : Bool), a.CanDeliver verify →
          (verify = true → (Fingerprint.ofBytes algorithm data).isSpelled e.content.hash = true) →
          (sink.take data none).2 = none → sink.lastFlushFailure = some x →
          a.restore id sink verify s = (.error (.ofIo x), data, s)) ∧
        ∀ {σ : Type} [ByteReader σ] [ReaderView σ] (source : σ) (p : Port (Attempt Unit))
            (up : Upstream σ) (schedule : Nat → CrewAction) (m : Nat),
          Crew.Fair schedule →
          p.direct.result? ((a.restoring source p algorithm).along up .first schedule m).main
            = some (.error (.ofIo x)) →
          (a.restoring source p algorithm).Concludes up .first (fun _ hash _ => hash) schedule
            fun r => ∀ received last,
              returned id e metadata s received last (verified e.content.hash r)
                = (.error (.ofIo x), received, s)) := by
  refine ⟨fun c o s x hnew => ⟨fun hequipped hfailure => ?_, ?_⟩,
    fun {β} _ c o s f hnew hf =>
      ⟨fun hkey => archive_of_failing_store draws ⟨hnew, hkey⟩ hf, ?_⟩,
    fun {β} _ id e s metadata content algorithm data x hfind hopen hp hx => ⟨?_, ?_, ?_⟩⟩
  · exact ⟨_, archive_of_failing_source draws hnew hequipped hfailure⟩
  · intro σ _ _ source up schedule hbuffer hsource heager hfair
    have hends := archiving_of_failing_source hbuffer draws o hsource s.blobs
      (blobLength (a.keyFor draws o) c.length) heager hfair
    refine ⟨hends.1, fun n r hr blobs => ?_⟩
    rw [hends.2 n r hr]
    rfl
  · intro σ _ _ source p up schedule m hfair hm
    have hends : (a.archiving draws o source p).Concludes up .second StoredContent.mk schedule
        (· = .error f) :=
      Crew.concludes_of_result (a.storing_settles draws _ p) (digesting_getsOn _) source
        a.branchBuffer hfair hm hf
    refine ⟨hends.1, fun n r hr blobs => ?_⟩
    rw [hends.2 n r hr]
    rfl
  · intro sink verify hsink
    exact restore_of_failing_sink hfind hopen hp hsink
  · intro sink verify hcan hspelled hsink hlast
    exact restore_of_failing_last_flush hfind hopen (deliverPlaintext_eq hcan hp hspelled hsink)
      hlast
  · intro σ _ _ source p up schedule m hfair hm
    have hends : (a.restoring source p algorithm).Concludes up .first (fun _ hash _ => hash)
        schedule (· = .error (.ofIo x)) :=
      Crew.concludes_of_result p.settles_direct (digesting_getsOn algorithm) source a.branchBuffer
        hfair hm hx
    refine ⟨hends.1, fun n r hr received last => ?_⟩
    rw [hends.2 n r hr]
    rfl

end Archiver

/-! ## Three failures to look at -/

namespace Sample

/-- Those who act in turn. -/
def everyone : List CrewParty :=
  [.upstream, .producer, .sender .first, .sender .second, .main .stage, .main .port, .digest .stage,
    .digest .port]

/-- The schedule in which everyone acts in turn. -/
def byTurns (n : Nat) : CrewAction := ⟨everyone.getD (n % 8) .producer, false⟩

theorem byTurns_fair : Crew.Fair byTurns := by
  intro party n
  obtain ⟨i, hi, hparty⟩ : ∃ i, i < 8 ∧ everyone.getD i .producer = party := by
    match party with
    | .upstream => exact ⟨0, by decide, rfl⟩
    | .producer => exact ⟨1, by decide, rfl⟩
    | .sender .first => exact ⟨2, by decide, rfl⟩
    | .sender .second => exact ⟨3, by decide, rfl⟩
    | .main .stage => exact ⟨4, by decide, rfl⟩
    | .main .port => exact ⟨5, by decide, rfl⟩
    | .digest .stage => exact ⟨6, by decide, rfl⟩
    | .digest .port => exact ⟨7, by decide, rfl⟩
  refine ⟨8 * n + i, by omega, ?_⟩
  show everyone.getD ((8 * n + i) % 8) .producer = party
  rw [Nat.mul_add_mod, Nat.mod_eq_of_lt hi, hparty]

/-- A byte and then a failure, where five bytes were declared. -/
def broken : OfferedContent :=
  ⟨"report", "report.txt", "text/plain", some 5, none,
    { data := [104], failure := some (.fault (.integrity "bad tag")) }⟩

/-- The failure of a device without room. -/
def deviceFull : IoError := .system .other "No space left on device (os error 28)"

/-- A port that fails once it has read. -/
def fullAfterRead (α : Type) : Port (Attempt α) where
  State := Bool
  start := false
  step
    | false => .ask 4 fun _ => true
    | true => .done (.error (.ofIo deviceFull))

/-- Three bytes that a task supplies in two messages. -/
def supplied : Feed := { relay := { messages := [.chunk [104], .chunk [105, 33]] } }

/-- A byte and then a failure, which a task supplies. -/
def suppliedBroken : Feed :=
  { relay := { messages := [.chunk [104], .failure (.fault (.integrity "bad tag"))] } }

end Sample

namespace Archiver

/-- A source, a store and a sink that fail, at once and by turns.  By turns a
    task supplies the source that fails, and another what the sink is given. -/
theorem three_failures_told :
    (Sample.stores.records.contains "report" = .ok false ∧
      (∃ blobs, Sample.archiver.archive Sample.draws Sample.broken { encrypt := true } Sample.stores
        = (.error (.integrity "bad tag"), { Sample.stores with blobs })) ∧
      (Sample.archiver.archiving Sample.draws { encrypt := true } Sample.suppliedBroken
          (filing Sample.draws Sample.stores.blobs none)).Concludes
        Feed.upstream .second StoredContent.mk Sample.byTurns fun r => ∀ blobs,
          Sample.archiver.concluded Sample.draws
            (Sample.archiver.keyFor Sample.draws { encrypt := true }) Sample.broken
            { encrypt := true } Sample.stores blobs r
              = (.error (.integrity "bad tag"), { Sample.stores with blobs })) ∧
    ((∃ blobs, Sample.archiver.archive Sample.draws Sample.misdeclared {} Sample.stores
        = (.error (.storage "expected 5 bytes, received 3"), { Sample.stores with blobs })) ∧
      (Sample.archiver.archiving Sample.draws {} Sample.content.stream
          (Sample.fullAfterRead String)).Concludes
        (.outside fun _ => true) .second StoredContent.mk Sample.byTurns fun r => ∀ blobs,
          Sample.archiver.concluded Sample.draws (Sample.archiver.keyFor Sample.draws {})
            Sample.content {} Sample.stores blobs r
              = (.error (.io Sample.deviceFull), { Sample.stores with blobs })) ∧
    ∃ (e : Entry) (s : Stores BlobStore), s.records.find "report" = .ok (some e) ∧
      (∀ verify, ∃ received,
        Sample.archiver.restore "report" { limit := some (1, Sample.deviceFull) } verify s
          = (.error (.io Sample.deviceFull), received, s)) ∧
      (∀ verify,
        Sample.archiver.restore "report" { lastFlushFailure := some Sample.deviceFull } verify s
          = (.error (.io Sample.deviceFull), [104, 105, 33], s)) ∧
      (Sample.archiver.restoring Sample.supplied (Sample.fullAfterRead Unit) .sha256).Concludes
        Feed.upstream .first (fun _ hash _ => hash) Sample.byTurns fun r => ∀ received last,
          returned "report" e Sample.content.metadata s received last (verified e.content.hash r)
            = (.error (.io Sample.deviceFull), received, s) := by
  obtain ⟨hsource, hstore, hsink⟩ := root_cause_of_any_order Sample.archiver Sample.draws
  refine ⟨?_, ⟨?_, ?_⟩, ?_⟩
  · obtain ⟨harchive, hconcludes⟩ := hsource Sample.broken { encrypt := true } Sample.stores
      (.fault (.integrity "bad tag")) rfl
    exact ⟨rfl, harchive ⟨by decide, Sample.hasKey _⟩ rfl,
      hconcludes Sample.suppliedBroken _ _ (by decide) rfl Feed.isEager_upstream
        Sample.byTurns_fair⟩
  · -- the store counts three bytes
    refine (hstore Sample.misdeclared {} Sample.stores (.storage "expected 5 bytes, received 3") rfl
      rfl).1 (Sample.hasKey _) ?_
    obtain ⟨toDigest, toBlob, passed, hsplit, -, -, hblob, hend, -⟩ :=
      Sample.archiver.split_seen Sample.misdeclared
    rw [seen_of_bufferable (by decide)] at hblob hend
    rw [hsplit, putContent_eq, hend, hblob]
    rfl
  · exact (hstore Sample.content {} Sample.stores (.io Sample.deviceFull) rfl rfl).2
      Sample.content.stream (Sample.fullAfterRead String) _ _ 24 Sample.byTurns_fair rfl
  · have hequipped : Sample.archiver.IsEquipped {} := ⟨by decide, Sample.hasKey _⟩
    obtain ⟨stage, records, -, hrows⟩ := Sample.archiver.archive_of_vouched Sample.draws
      (c := Sample.content) (o := {}) (s := Sample.stores) ⟨rfl, hequipped.key⟩ rfl
      ⟨hequipped.buffer, fun n hn => by cases hn; rfl, fun h => by cases h.1⟩
    have hrow : Row.ofEntry (Sample.archiver.entryFor Sample.draws Sample.content {})
        ∈ records.table.rows := by
      rw [hrows]
      exact List.mem_append_right _ (List.mem_singleton_self _)
    have hfound := Table.find?_of_mem hrow
    rw [id_entryFor] at hfound
    have hfind := find_continued
      (s := ⟨added Sample.draws .empty (Sample.archiver.blobFor Sample.draws Sample.content {}),
        records⟩) (.refl _) ⟨by decide, by decide⟩ hfound
    obtain ⟨p, hopen, hp⟩ := openEntry_continued (b := Sample.archiver) ⟨rfl, rfl⟩ hequipped
      (.refl _) (Sample.archiver.hasBlob_added Sample.draws Sample.content {} Sample.stores.blobs)
    obtain ⟨hrestore, hlast, hconcludes⟩ := hsink "report" _ ⟨_, records⟩ _ p _ _ Sample.deviceFull
      hfind hopen hp rfl
    have hgiven : ∀ verify, Sample.archiver.given verify Sample.content.stream.data = [104, 105, 33] :=
      fun verify => if_neg fun h => h.2 hequipped.buffer
    exact ⟨_, _, hfind, fun verify => hrestore _ verify ((hgiven verify).symm ▸ rfl),
      fun verify => hlast _ verify (fun _ => hequipped.buffer)
        (fun _ => Fingerprint.isSpelled_self .sha256 [104, 105, 33]) rfl rfl,
      hconcludes Sample.supplied (Sample.fullAfterRead Unit) _ _ 40 Sample.byTurns_fair rfl⟩

end Archiver

end ContentVault
