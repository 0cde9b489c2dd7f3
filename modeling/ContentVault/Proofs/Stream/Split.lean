import ContentVault.Proofs.Stream.View
import ContentVault.Stream.Tee

/-! # What the outputs of a tee give

    As long as no output is dropped, what an output has still to give can be
    read off the machine at any moment: the rest of its reader, the messages
    on their way to it, and what the producer has not read yet.  Neither a
    step of the producer nor a read on the other output changes it, and a read
    on the output itself takes off what it gives (`step_sound`, `read_sound`).
    So the order of steps and reads cannot show in what arrives.

    Reading both outputs in turn never waits for ever (`drainTogether_eq`),
    and each of them gives the stream that went in (`split_eq`).  Without a
    buffer both of them are empty (`split_crashed`). -/

namespace ContentVault

open ByteReader ReaderView

/-! ## Messages in a row -/

namespace Outlet

/-- The bytes of the chunks among messages, and more after them unless a
    failure comes first. -/
def bytesThen : List Message → Bytes → Bytes
  | [], more => more
  | .failure _ :: _, _ => []
  | .chunk bytes :: messages, more => bytes ++ bytesThen messages more

theorem bytesThen_append (q r : List Message) (more : Bytes) :
    bytesThen (q ++ r) more = bytesThen q (bytesThen r more) := by
  induction q with
  | nil => rfl
  | cons m q ih =>
      cases m with
      | failure e => rfl
      | chunk bytes => exact congrArg (bytes ++ ·) ih

theorem failure?_append (q r : List Message) :
    failure? (q ++ r) = (failure? q).or (failure? r) := by
  induction q with
  | nil => rfl
  | cons m q ih =>
      cases m with
      | failure e => rfl
      | chunk bytes => exact ih

theorem chunkBytes_chunks (chunks : List Bytes) (rest : List Message) :
    chunkBytes (chunks.map .chunk ++ rest) = chunks.flatten ++ chunkBytes rest := by
  induction chunks with
  | nil => rfl
  | cons c chunks ih => simp [chunkBytes, ih]

theorem failure?_chunks (chunks : List Bytes) (rest : List Message) :
    failure? (chunks.map .chunk ++ rest) = failure? rest := by
  induction chunks with
  | nil => rfl
  | cons c chunks ih => exact ih

end Outlet

namespace Tee

open Outlet

variable {σ : Type} [ByteReader σ] [ReaderView σ]

/-! ## What is still to come -/

/-- What the producer has in hand for an output. -/
def inHand (t : Tee σ) (side : Side) : List Message :=
  match t.phase with
  | .sending .first m => [m]
  | .sending .second m => if side = .second then [m] else []
  | _ => []

/-- The messages on their way to an output. -/
def onTheWay (t : Tee σ) (side : Side) : List Message :=
  (t.output side).queue ++ t.inHand side

/-- The bytes that the producer has not read yet. -/
def unread (t : Tee σ) : Bytes :=
  match t.phase with
  | .reading => content t.source
  | .sending _ (.chunk _) => content t.source
  | _ => []

/-- How the source ends, as far as the producer knows or will find out. -/
def verdict (t : Tee σ) : Ending :=
  match t.phase with
  | .reading => ending t.source
  | .sending _ (.chunk _) => ending t.source
  | .sending _ (.failure e) => some e
  | .exited (.error (.stream e)) => some e
  | .exited _ => none

/-- The bytes of the source, counted by what was passed on and what was not. -/
def counted (t : Tee σ) : Nat :=
  match t.phase with
  | .reading => t.total + (content t.source).length
  | .sending _ (.chunk bytes) => t.total + bytes.length + (content t.source).length
  | .exited (.ok n) => n
  | _ => t.total

/-- The bytes that an output has still to give. -/
def comingBytes (t : Tee σ) (side : Side) : Bytes :=
  (t.output side).reader.pending ++
    if (t.output side).reader.state = .active then bytesThen (t.onTheWay side) t.unread else []

/-- How an output is going to end. -/
def comingEnd (t : Tee σ) (side : Side) : Ending :=
  match (t.output side).reader.state with
  | .active => (failure? (t.onTheWay side)).or t.verdict
  | .ended => none
  | .failed => some .alreadyFailed

/-- Whether an output was told that the source failed. -/
def Told (t : Tee σ) (side : Side) (e : IoError) : Prop :=
  t.phase = .exited (.error (.stream e)) ∨ (side = .first ∧ t.phase = .sending .second (.failure e))

/-- A tee over a source of `n` bytes that ends with `e`, both outputs of which
    are held. -/
structure Sound (t : Tee σ) (n : Nat) (e : Ending) : Prop where
  buffer_pos : 0 < t.buffer
  alive : t.phase ≠ .exited (.error .crashed)
  held : ∀ side, (t.output side).dropped = false
  quiet : t.aborted = false
  verdict_eq : t.verdict = e
  counted_eq : t.counted = n
  /-- No chunk is empty, so a chunk that is read is progress. -/
  solid : ∀ side, Message.chunk [] ∉ t.onTheWay side
  /-- A failure waits in a queue from the moment the output is told of it. -/
  told : ∀ side e, (t.output side).reader.state = .active →
    (failure? (t.output side).queue = some e ↔ t.Told side e)
  ended : ∀ side, (t.output side).reader.state = .ended → ∃ k, t.phase = .exited (.ok k)
  broken : ∀ side, (t.output side).reader.state = .failed → ∃ e, t.Told side e

omit [ByteReader σ] [ReaderView σ] in
/-- A tee that has its buffer begins by reading. -/
theorem ofSource_of_bufferable (source : σ) {buffer : Nat} (h : Bufferable buffer) :
    ofSource source buffer = { source, buffer := max 1 buffer } := by
  rw [ofSource, if_pos h]

theorem sound_ofSource (source : σ) {buffer : Nat} (hbuffer : Bufferable buffer) :
    (ofSource source buffer).Sound (content source).length (ending source) := by
  rw [ofSource_of_bufferable source hbuffer]
  exact {
    buffer_pos := Nat.lt_of_lt_of_le Nat.zero_lt_one (Nat.le_max_left 1 buffer)
    alive := nofun
    held := fun side => by cases side <;> rfl
    quiet := rfl
    verdict_eq := rfl
    counted_eq := Nat.zero_add _
    solid := fun side => by cases side <;> exact List.not_mem_nil
    told := fun side e _ => by
      refine iff_of_false ?_ ?_
      · cases side <;> exact fun h => nomatch h
      · rintro (h | ⟨-, h⟩) <;> cases h
    ended := fun side h => by cases side <;> cases h
    broken := fun side h => by cases side <;> cases h }

theorem coming_ofSource (source : σ) {buffer : Nat} (hbuffer : Bufferable buffer) (side : Side) :
    (ofSource source buffer).comingBytes side = content source ∧
      (ofSource source buffer).comingEnd side = ending source := by
  rw [ofSource_of_bufferable source hbuffer]
  cases side <;> exact ⟨rfl, rfl⟩

/-! ## The producer -/

/-- What a step keeps: the tee stays sound, and the readers and what they have
    still to give stay as they are. -/
structure Keeps (t u : Tee σ) (n : Nat) (e : Ending) : Prop where
  sound : u.Sound n e
  reader : ∀ side, (u.output side).reader = (t.output side).reader
  bytes : ∀ side, u.comingBytes side = t.comingBytes side
  ends : ∀ side, u.comingEnd side = t.comingEnd side

omit [ByteReader σ] [ReaderView σ] in
theorem not_told_of_reading {t : Tee σ} (hp : t.phase = .reading) (side : Side) (e : IoError) :
    ¬ t.Told side e := by
  rintro (h | ⟨-, h⟩) <;> cases hp.symm.trans h

/-- While the producer reads, no reader that goes on has a failure waiting. -/
theorem Sound.failure?_of_reading {t : Tee σ} {n : Nat} {e : Ending} (h : t.Sound n e)
    (hp : t.phase = .reading) {side : Side}
    (hactive : (t.output side).reader.state = .active) :
    failure? (t.output side).queue = none := by
  cases hf : failure? (t.output side).queue with
  | none => rfl
  | some e' => exact absurd ((h.told side e' hactive).mp hf) (not_told_of_reading hp side e')

/-- Nobody has seen the end while the producer reads. -/
theorem Sound.active_of_reading {t : Tee σ} {n : Nat} {e : Ending} (h : t.Sound n e)
    (hp : t.phase = .reading) (side : Side) : (t.output side).reader.state = .active := by
  cases hs : (t.output side).reader.state with
  | active => rfl
  | ended =>
      obtain ⟨k, hk⟩ := h.ended side hs
      cases hp.symm.trans hk
  | failed =>
      obtain ⟨e', ht⟩ := h.broken side hs
      exact absurd ht (not_told_of_reading hp side e')

/-- What the producer may turn to while it reads: it has messages in hand for
    both outputs, and they stand for all that it had still to read. -/
theorem Sound.keeps_of_reading {t u : Tee σ} {n : Nat} {e : Ending} (h : t.Sound n e)
    (hp : t.phase = .reading) (hand : List Message) (halive : u.phase ≠ .exited (.error .crashed))
    (hout : ∀ side, u.output side = t.output side) (hbuffer : u.buffer = t.buffer)
    (hquiet : u.aborted = t.aborted) (hhand : ∀ side, u.inHand side = hand)
    (hsolid : Message.chunk [] ∉ hand) (htold : ∀ side e', ¬ u.Told side e')
    (hcounted : u.counted = t.counted) (hverdict : u.verdict = ending t.source)
    (hbytes : bytesThen hand u.unread = content t.source)
    (hend : (failure? hand).or u.verdict = ending t.source) : t.Keeps u n e := by
  have hactive := h.active_of_reading hp
  have hclear : ∀ side, failure? (t.output side).queue = none :=
    fun side => h.failure?_of_reading hp (hactive side)
  have hway : ∀ side, t.onTheWay side = (t.output side).queue := by
    intro side
    simp only [onTheWay, inHand, hp, List.append_nil]
  have hway' : ∀ side, u.onTheWay side = (t.output side).queue ++ hand := by
    intro side
    simp only [onTheWay, hout, hhand]
  -- before, nothing was in hand and everything was unread
  have hverdict_t : t.verdict = ending t.source := by simp only [verdict, hp]
  have hunread_t : t.unread = content t.source := by simp only [unread, hp]
  constructor
  case sound =>
    constructor
    case buffer_pos =>
      rw [hbuffer]
      exact h.buffer_pos
    case alive => exact halive
    case held =>
      intro side
      rw [hout]
      exact h.held side
    case quiet =>
      rw [hquiet]
      exact h.quiet
    case verdict_eq =>
      rw [hverdict, ← hverdict_t]
      exact h.verdict_eq
    case counted_eq =>
      rw [hcounted]
      exact h.counted_eq
    case solid =>
      intro side hmem
      rw [hway'] at hmem
      rcases List.mem_append.mp hmem with hq | hm
      · exact h.solid side (List.mem_append_left _ hq)
      · exact hsolid hm
    case told =>
      intro side e' _
      refine iff_of_false ?_ (htold side e')
      rw [hout, hclear]
      exact fun hf => nomatch hf
    case ended =>
      intro side hs
      rw [hout] at hs
      cases (hactive side).symm.trans hs
    case broken =>
      intro side hs
      rw [hout] at hs
      cases (hactive side).symm.trans hs
  case reader =>
    intro side
    rw [hout]
  case bytes =>
    intro side
    simp only [comingBytes, hway, hway', hout, hactive, if_true, bytesThen_append, hbytes,
      hunread_t]
  case ends =>
    intro side
    simp only [comingEnd, hway, hway', hout, hactive, failure?_append, hclear,
      Option.none_or, hend, hverdict_t]

theorem readSource_keeps {t : Tee σ} {n : Nat} {e : Ending} (h : t.Sound n e)
    (hp : t.phase = .reading) : t.Keeps t.readSource n e := by
  have hcounted : t.counted = t.total + (content t.source).length := by
    simp only [counted, hp]
  unfold readSource
  split
  · -- the failure is in hand for both outputs
    rename_i e' source hread
    obtain ⟨hc, he⟩ := read_failure h.buffer_pos hread
    refine h.keeps_of_reading hp [.failure e'] ?_ (fun _ => rfl) rfl rfl
      (fun _ => rfl) (by simp) ?_ ?_ he.symm hc.symm he.symm
    · exact TeePhase.noConfusion
    · rintro side e'' (ht | ⟨-, ht⟩) <;> cases ht
    · rw [hcounted, hc]
      rfl
  · rename_i bytes source hread
    split
    · -- at the end nothing is sent, and the producer exits
      rename_i hnil
      subst hnil
      obtain ⟨hc, he, -⟩ := read_end h.buffer_pos hread
      refine h.keeps_of_reading hp [] ?_ (fun _ => rfl) rfl rfl
        (fun _ => rfl) List.not_mem_nil ?_ ?_ he.symm hc.symm he.symm
      · intro hcrashed
        cases hcrashed
      · rintro side e'' (ht | ⟨-, ht⟩) <;> cases ht
      · rw [hcounted, hc]
        rfl
    · rename_i hne
      obtain ⟨hc, he⟩ := read_bytes h.buffer_pos hne hread
      refine h.keeps_of_reading hp [.chunk bytes] ?_ (fun _ => rfl) rfl rfl
        (fun _ => rfl) ?_ ?_ ?_ he ?_ he
      · exact TeePhase.noConfusion
      · intro hmem
        cases List.mem_singleton.mp hmem
        exact hne rfl
      · rintro side e'' (ht | ⟨-, ht⟩) <;> cases ht
      · rw [hcounted, hc, List.length_append, ← Nat.add_assoc]
        rfl
      · rw [hc]
        rfl

/-- A message that is put into a channel was on its way before. -/
theorem Sound.keeps_of_sending {t u : Tee σ} {n : Nat} {e : Ending} (h : t.Sound n e)
    (hbuffer : u.buffer = t.buffer) (halive : u.phase ≠ .exited (.error .crashed))
    (hquiet : u.aborted = t.aborted)
    (hheld : ∀ side, (u.output side).dropped = (t.output side).dropped)
    (hreader : ∀ side, (u.output side).reader = (t.output side).reader)
    (hway : ∀ side, u.onTheWay side = t.onTheWay side) (hunread : u.unread = t.unread)
    (hverdict : u.verdict = t.verdict) (hcounted : u.counted = t.counted)
    (htold : ∀ side e', (t.output side).reader.state = .active →
      (failure? (u.output side).queue = some e' ↔ u.Told side e'))
    (hover : ∀ side, (t.output side).reader.state ≠ .ended)
    (hbroken : ∀ side e', t.Told side e' → u.Told side e') : t.Keeps u n e := by
  constructor
  case sound =>
    constructor
    case buffer_pos =>
      rw [hbuffer]
      exact h.buffer_pos
    case alive => exact halive
    case held =>
      intro side
      rw [hheld]
      exact h.held side
    case quiet =>
      rw [hquiet]
      exact h.quiet
    case verdict_eq =>
      rw [hverdict]
      exact h.verdict_eq
    case counted_eq =>
      rw [hcounted]
      exact h.counted_eq
    case solid =>
      intro side
      rw [hway]
      exact h.solid side
    case told =>
      intro side e' hs
      rw [hreader] at hs
      exact htold side e' hs
    case ended =>
      intro side hs
      rw [hreader] at hs
      exact absurd hs (hover side)
    case broken =>
      intro side hs
      rw [hreader] at hs
      obtain ⟨e', ht⟩ := h.broken side hs
      exact ⟨e', hbroken side e' ht⟩
  case reader => exact hreader
  case bytes =>
    intro side
    simp only [comingBytes, hway, hreader, hunread]
  case ends =>
    intro side
    simp only [comingEnd, hway, hreader, hverdict]

/-- Whoever has a message still to come has not seen the end. -/
theorem Sound.not_ended_of_sending {t : Tee σ} {n : Nat} {e : Ending} (h : t.Sound n e)
    {target : Side} {m : Message} (hp : t.phase = .sending target m) (side : Side) :
    (t.output side).reader.state ≠ .ended := by
  intro hs
  obtain ⟨k, hk⟩ := h.ended side hs
  cases hp.symm.trans hk

theorem send_keeps {t u : Tee σ} {n : Nat} {e : Ending} {target : Side} {m : Message}
    (h : t.Sound n e) (hp : t.phase = .sending target m) (hs : t.send target m = some u) :
    t.Keeps u n e := by
  have hended := h.not_ended_of_sending hp
  have htold := h.told
  unfold send at hs
  rw [h.held target, if_neg Bool.false_ne_true] at hs
  split at hs
  · rename_i hq
    cases hs
    obtain ⟨source, buffer, phase, total, aborted, first, second⟩ := t
    change phase = _ at hp
    subst hp
    cases target with
    | first =>
        -- the message moves into the first queue and is in hand for the second
        change first.queue = [] at hq
        refine h.keeps_of_sending rfl ?_ rfl ?_ ?_ ?_ ?_ ?_ ?_ ?_ hended ?_
        · exact TeePhase.noConfusion
        · intro side
          cases side <;> rfl
        · intro side
          cases side <;> rfl
        · intro side
          cases side with
          | first => simp [onTheWay, inHand, afterSending, push, setOutput, output, hq]
          | second => rfl
        · cases m <;> rfl
        · cases m <;> rfl
        · cases m <;> rfl
        · intro side e' hactive
          have ht := htold side e' hactive
          cases side <;> cases m <;>
            simp_all [Told, afterSending, push, setOutput, output, failure?]
        · intro side e' ht
          rcases ht with ht | ⟨-, ht⟩ <;> cases ht
    | second =>
        -- after a chunk the producer reads again, after a failure it has exited
        change second.queue = [] at hq
        refine h.keeps_of_sending ?_ ?_ ?_ ?_ ?_ ?_ ?_ ?_ ?_ ?_ hended ?_
        · cases m <;> rfl
        · intro hcrashed
          cases m <;> cases hcrashed
        · cases m <;> rfl
        · intro side
          cases side <;> cases m <;> rfl
        · intro side
          cases side <;> cases m <;> rfl
        · intro side
          cases side <;> cases m <;>
            simp [onTheWay, inHand, afterSending, push, setOutput, output, hq]
        · cases m <;> rfl
        · cases m <;> rfl
        · cases m <;> rfl
        · intro side e' hactive
          have ht := htold side e' hactive
          cases side <;> cases m <;>
            simp_all [Told, afterSending, push, setOutput, output, failure?]
        · intro side e' ht
          rcases ht with ht | ⟨-, ht⟩
          · cases ht
          · cases ht
            exact Or.inl rfl
  · cases hs

/-- A step of the producer changes nothing that an output has still to give. -/
theorem step_sound {t u : Tee σ} {n : Nat} {e : Ending} (h : t.Sound n e)
    (hs : t.step true = some u) : t.Keeps u n e := by
  unfold step at hs
  split at hs
  · rename_i hp
    have hheld : t.someDropped = false := by
      show (t.first.dropped || t.second.dropped) = false
      rw [show t.first.dropped = false from h.held .first,
        show t.second.dropped = false from h.held .second]
      rfl
    rw [hheld, Bool.and_false, if_neg Bool.false_ne_true] at hs
    cases hs
    exact readSource_keeps h hp
  · rename_i target m hp
    exact send_keeps h hp hs
  · cases hs

theorem Keeps.trans {t u v : Tee σ} {n : Nat} {e : Ending} (h : t.Keeps u n e)
    (k : u.Keeps v n e) : t.Keeps v n e :=
  ⟨k.sound, fun side => (k.reader side).trans (h.reader side),
    fun side => (k.bytes side).trans (h.bytes side),
    fun side => (k.ends side).trans (h.ends side)⟩

/-- However far the producer gets, an output has the same still to give. -/
theorem settle_sound {t : Tee σ} {n : Nat} {e : Ending} (h : t.Sound n e) :
    t.Keeps t.settle n e := by
  fun_induction settle t with
  | case1 t u hstep ih => exact (step_sound h hstep).trans (ih (step_sound h hstep).sound)
  | case2 t hstep => exact ⟨h, fun _ => rfl, fun _ => rfl, fun _ => rfl⟩

omit [ReaderView σ] in
/-- A producer that can make no step has exited, or waits for room in a
    channel. -/
theorem settle_stuck (t : Tee σ) (h : ∀ side, (t.settle.output side).dropped = false) :
    (∃ result, t.settle.phase = .exited result) ∨
    (∃ side m, t.settle.phase = .sending side m ∧ (t.settle.output side).queue ≠ []) := by
  fun_induction settle t with
  | case1 t u hstep ih => exact ih h
  | case2 t hstep =>
      unfold step at hstep
      split at hstep
      · split at hstep <;> cases hstep
      · rename_i target m hp
        refine Or.inr ⟨target, m, hp, fun hq => ?_⟩
        unfold send at hstep
        rw [h target, if_neg Bool.false_ne_true, if_pos hq] at hstep
        cases hstep
      · rename_i result hp
        exact Or.inl ⟨result, hp⟩

/-! ## Reading an output -/

section

variable (t : Tee σ) (side : Side) (out : Output)

omit [ByteReader σ] [ReaderView σ] in
@[simp] theorem phase_setOutput : (t.setOutput side out).phase = t.phase := by cases side <;> rfl

omit [ByteReader σ] [ReaderView σ] in
@[simp] theorem inHand_setOutput (other : Side) :
    (t.setOutput side out).inHand other = t.inHand other := by cases side <;> rfl

omit [ByteReader σ] [ReaderView σ] in
@[simp] theorem told_setOutput (other : Side) (e : IoError) :
    (t.setOutput side out).Told other e ↔ t.Told other e := by cases side <;> exact Iff.rfl

@[simp] theorem verdict_setOutput : (t.setOutput side out).verdict = t.verdict := by
  cases side <;> rfl

@[simp] theorem counted_setOutput : (t.setOutput side out).counted = t.counted := by
  cases side <;> rfl

end

/-- A tee stays sound when one of its outputs is replaced by one that fits to
    what the producer is at. -/
theorem Sound.setOutput {t : Tee σ} {n : Nat} {e : Ending} (h : t.Sound n e) {side : Side}
    {out : Output} (hheld : out.dropped = false)
    (hsolid : Message.chunk [] ∉ out.queue ++ t.inHand side)
    (htold : ∀ e', out.reader.state = .active → (failure? out.queue = some e' ↔ t.Told side e'))
    (hover : out.reader.state = .ended → ∃ k, t.phase = .exited (.ok k))
    (hbroken : out.reader.state = .failed → ∃ e', t.Told side e') :
    (t.setOutput side out).Sound n e := by
  have hother : ∀ other, (t.setOutput side out).output other
      = if other = side then out else t.output other := by
    intro other
    by_cases ho : other = side
    · rw [if_pos ho, ho, output_setOutput]
    · rw [if_neg ho, output_setOutput_of_ne t out ho]
  constructor
  case buffer_pos => cases side <;> exact h.buffer_pos
  case alive =>
    rw [phase_setOutput]
    exact h.alive
  case held =>
    intro other
    rw [hother]
    split
    · exact hheld
    · exact h.held other
  case quiet => cases side <;> exact h.quiet
  case verdict_eq =>
    rw [verdict_setOutput]
    exact h.verdict_eq
  case counted_eq =>
    rw [counted_setOutput]
    exact h.counted_eq
  case solid =>
    intro other
    rw [onTheWay, hother, inHand_setOutput]
    split
    · rename_i ho
      rw [ho]
      exact hsolid
    · exact h.solid other
  case told =>
    intro other e' hs
    rw [hother] at hs ⊢
    rw [told_setOutput]
    split at hs
    · rename_i ho
      rw [if_pos ho, ho]
      exact htold e' hs
    · rename_i ho
      rw [if_neg ho]
      exact h.told other e' hs
  case ended =>
    intro other hs
    rw [hother] at hs
    rw [phase_setOutput]
    split at hs
    · exact hover hs
    · exact h.ended other hs
  case broken =>
    intro other hs
    rw [hother] at hs
    simp only [told_setOutput]
    split at hs
    · rename_i ho
      rw [ho]
      exact hbroken hs
    · exact h.broken other hs

/-- A read on one output, seen from the other. -/
theorem coming_setOutput_of_ne (t : Tee σ) {side other : Side} (out : Output) (h : other ≠ side) :
    (t.setOutput side out).comingBytes other = t.comingBytes other ∧
      (t.setOutput side out).comingEnd other = t.comingEnd other := by
  cases side <;> cases other <;> first | exact ⟨rfl, rfl⟩ | exact absurd rfl h

omit [ByteReader σ] [ReaderView σ] in
theorem phase_of_result? {t : Tee σ} {result : Except ProducerFailure Nat}
    (h : t.result? = some result) : t.phase = .exited result := by
  unfold result? at h
  split at h
  · rename_i r hp
    rw [hp, Option.some.inj h]
  · cases h

/-- What an output has still to give, after it was replaced. -/
theorem coming_setOutput (t : Tee σ) (side : Side) (out : Output) :
    (t.setOutput side out).comingBytes side = out.reader.pending ++
      if out.reader.state = .active then bytesThen (out.queue ++ t.inHand side) t.unread
      else [] := by
  cases side <;> rfl

/-- What a read that need not wait comes to: the next of what the output has
    still to give, or how the output ends. -/
inductive Serves (t u : Tee σ) (side : Side) : Option ReadResult → Prop where
  | bytes {bs : Bytes} (solid : bs ≠ [])
      (given : t.comingBytes side = bs ++ u.comingBytes side)
      (ends : u.comingEnd side = t.comingEnd side)
      (state : (u.output side).reader.state = (t.output side).reader.state) :
      Serves t u side (some (.ok bs))
  | finished (nothing : t.comingBytes side = []) (ends : t.comingEnd side = none)
      (state : (u.output side).reader.state ≠ .active) : Serves t u side (some (.ok []))
  | failure {e : IoError} (nothing : t.comingBytes side = []) (ends : t.comingEnd side = some e)
      (state : (u.output side).reader.state ≠ .active) : Serves t u side (some (.error e))

/-- The first part of a chunk is served, and the output keeps the rest. -/
theorem serves_chunk {t : Tee σ} {side : Side} {room : Nat} (hroom : 0 < room)
    {queue : List Message} {b : UInt8} {bs : Bytes} {state : OutletState} {dropped : Bool}
    (hstate : (t.output side).reader.state = state)
    (hbytes : t.comingBytes side
      = b :: bs ++ (t.setOutput side ⟨queue, ⟨[], state⟩, dropped⟩).comingBytes side)
    (hend : (t.setOutput side ⟨queue, ⟨[], state⟩, dropped⟩).comingEnd side = t.comingEnd side) :
    t.Serves (t.setOutput side ⟨queue, ⟨(b :: bs).drop room, state⟩, dropped⟩) side
      (some (.ok ((b :: bs).take room))) := by
  constructor
  · intro hnil
    rcases List.take_eq_nil_iff.mp hnil with hzero | hnone
    · exact absurd hzero (Nat.ne_of_gt hroom)
    · cases hnone
  · rw [hbytes, coming_setOutput, coming_setOutput, List.nil_append, ← List.append_assoc,
      List.take_append_drop]
  · rw [← hend]
    cases side <;> rfl
  · rw [output_setOutput, hstate]

omit [ByteReader σ] [ReaderView σ] in
theorem setOutput_self {t : Tee σ} {side : Side} {out : Output} (h : t.output side = out) :
    t.setOutput side out = t := by
  rw [← h]
  cases side <;> rfl

omit [ByteReader σ] [ReaderView σ] in
/-- A read on an output that is known by its parts. -/
theorem read_eq {t : Tee σ} {side : Side} {out : Output} (hout : t.output side = out)
    (hquiet : t.aborted = false) (room : Nat) :
    t.read side room =
      ((out.reader.read ⟨out.queue, t.result?.isSome, false⟩ room).1,
        t.setOutput side { out with
          reader := (out.reader.read ⟨out.queue, t.result?.isSome, false⟩ room).2.1
          queue := (out.reader.read ⟨out.queue, t.result?.isSome, false⟩ room).2.2.queue }) := by
  unfold read
  rw [hout, hquiet]

/-- A read by a reader that goes on and has nothing left of a chunk: it takes
    the next message, or finds the producer done, or waits. -/
theorem read_next_sound {t : Tee σ} {n : Nat} {e : Ending} (h : t.Sound n e) {side : Side}
    {room : Nat} (hroom : 0 < room) {queue : List Message} {dropped : Bool}
    (hout : t.output side = ⟨queue, ⟨[], .active⟩, dropped⟩) :
    (t.read side room = (none, t) ∧ queue = [] ∧ t.result? = none) ∨
    (∃ r out, t.read side room = (r, t.setOutput side out) ∧ (t.setOutput side out).Sound n e ∧
      t.Serves (t.setOutput side out) side r) := by
  have hread := read_eq hout h.quiet room
  have hsame := setOutput_self hout
  have hbytes := coming_setOutput t side ⟨queue, ⟨[], .active⟩, dropped⟩
  have hstate : (t.output side).reader.state = .active := by rw [hout]
  have hend : t.comingEnd side = (failure? (queue ++ t.inHand side)).or t.verdict := by
    unfold comingEnd onTheWay
    rw [hstate, hout]
  have hheld := h.held side
  have hsolid := h.solid side
  have htold := fun e' => h.told side e' hstate
  rw [hout] at hheld
  rw [onTheWay, hout] at hsolid
  simp only [hout] at htold
  rw [hsame, if_pos rfl, List.nil_append] at hbytes
  cases queue with
  | nil =>
      cases hr : t.result? with
      | none =>
          -- nothing has arrived, and more may
          refine Or.inl ⟨?_, rfl, rfl⟩
          rw [hread, hr]
          exact congrArg (Prod.mk none) hsame
      | some result =>
          have hp := phase_of_result? hr
          have hhand : t.inHand side = [] := by simp only [inHand, hp]
          have hunread : t.unread = [] := by simp only [unread, hp]
          cases result with
          | error failure =>
              cases failure with
              | crashed => exact absurd hp h.alive
              | stream e' =>
                  -- the failure would still be in the queue
                  cases (htold e').mpr (Or.inl hp)
          | ok k =>
              rw [hr] at hread
              rw [hhand, hunread] at hbytes
              rw [hhand] at hend
              refine Or.inr ⟨_, _, hread, h.setOutput hheld hsolid (fun _ ha => nomatch ha)
                (fun _ => ⟨k, hp⟩) (fun hf => nomatch hf), .finished hbytes ?_ ?_⟩
              · rw [hend, verdict, hp]
                rfl
              · rw [output_setOutput]
                exact fun ha => nomatch ha
  | cons m queue =>
      have hrest : Message.chunk [] ∉ queue ++ t.inHand side :=
        fun hm => hsolid (List.mem_cons_of_mem _ hm)
      cases m with
      | failure e' =>
          have ht := (htold e').mp rfl
          refine Or.inr ⟨_, _, hread, h.setOutput hheld hrest (fun _ ha => nomatch ha)
            (fun ho => nomatch ho) (fun _ => ⟨e', ht⟩), .failure hbytes hend ?_⟩
          rw [output_setOutput]
          exact fun ha => nomatch ha
      | chunk bytes =>
          cases bytes with
          | nil => exact absurd (List.mem_cons_self ..) hsolid
          | cons b bs =>
              refine Or.inr ⟨_, _, hread, h.setOutput hheld hrest (fun e' _ => htold e')
                (fun ho => nomatch ho) (fun hf => nomatch hf), serves_chunk hroom hstate ?_ ?_⟩
              · rw [hbytes, coming_setOutput]
                rfl
              · rw [hend]
                cases side <;> rfl

/-- What a read on an output comes to.  If it has to wait, nothing is lost and
    the channel is empty; else the output serves it. -/
theorem read_sound {t : Tee σ} {n : Nat} {e : Ending} (h : t.Sound n e) (side : Side)
    {room : Nat} (hroom : 0 < room) :
    (t.read side room = (none, t) ∧ (t.output side).queue = [] ∧ t.result? = none) ∨
    (∃ r out, t.read side room = (r, t.setOutput side out) ∧ (t.setOutput side out).Sound n e ∧
      t.Serves (t.setOutput side out) side r) := by
  obtain ⟨⟨queue, ⟨pending, state⟩, dropped⟩, hout⟩ : ∃ out, t.output side = out := ⟨_, rfl⟩
  have hread := read_eq hout h.quiet room
  have hsame := setOutput_self hout
  have hstate : (t.output side).reader.state = state := by rw [hout]
  have hbytes := coming_setOutput t side ⟨queue, ⟨pending, state⟩, dropped⟩
  have hsound : ∀ rest, (t.setOutput side ⟨queue, ⟨rest, state⟩, dropped⟩).Sound n e := by
    intro rest
    have hheld := h.held side
    have hsolid := h.solid side
    have htold := h.told side
    have hended := h.ended side
    have hbroken := h.broken side
    rw [onTheWay] at hsolid
    simp only [hout] at hheld hsolid htold hended hbroken
    exact h.setOutput hheld hsolid htold hended hbroken
  rw [hsame] at hbytes
  cases pending with
  | cons b bs =>
      -- the rest of the last chunk comes first
      refine Or.inr ⟨_, _, hread, hsound _, serves_chunk hroom hstate ?_ ?_⟩
      · rw [hbytes, coming_setOutput]
        rfl
      · have hend := congrArg (fun t => t.comingEnd side) hsame
        rw [← hend]
        cases side <;> rfl
  | nil =>
      have hend : ∀ {e' : Ending}, (state = .ended ∧ e' = none) ∨
          (state = .failed ∧ e' = some .alreadyFailed) → t.comingEnd side = e' := by
        unfold comingEnd
        rw [hstate]
        rintro e' (⟨rfl, rfl⟩ | ⟨rfl, rfl⟩) <;> rfl
      cases state with
      | ended =>
          refine Or.inr ⟨_, _, hread, hsound [], .finished hbytes (hend (Or.inl ⟨rfl, rfl⟩)) ?_⟩
          rw [output_setOutput]
          exact fun ha => nomatch ha
      | failed =>
          refine Or.inr ⟨_, _, hread, hsound [], .failure hbytes (hend (Or.inr ⟨rfl, rfl⟩)) ?_⟩
          rw [output_setOutput]
          exact fun ha => nomatch ha
      | active =>
          rw [hout]
          exact read_next_sound h hroom hout

/-! ## Reading with the producer running -/

/-- The other output does not notice what is done with one. -/
def SameFor (t u : Tee σ) (side : Side) : Prop :=
  (u.output side).reader = (t.output side).reader ∧ u.comingBytes side = t.comingBytes side ∧
    u.comingEnd side = t.comingEnd side

/-- What serves a read now would have served it before, if nobody noticed
    anything in between. -/
theorem Serves.before {t u v : Tee σ} {side : Side} {r : Option ReadResult}
    (h : u.Serves v side r) (hsame : t.SameFor u side) : t.Serves v side r := by
  obtain ⟨hreader, hbytes, hend⟩ := hsame
  cases h with
  | bytes solid given ends state =>
      rw [hbytes] at given
      rw [hend] at ends
      rw [hreader] at state
      exact .bytes solid given ends state
  | finished nothing ends state =>
      exact .finished (hbytes.symm.trans nothing) (hend.symm.trans ends) state
  | failure nothing ends state =>
      exact .failure (hbytes.symm.trans nothing) (hend.symm.trans ends) state

/-- What a read comes to if the producer runs in case it has to wait.  It
    waits for ever only if the channel of the other output is full. -/
theorem demand_sound {t : Tee σ} {n : Nat} {e : Ending} (h : t.Sound n e) (side : Side)
    {room : Nat} (hroom : 0 < room) :
    ∃ r, ∃ u : Tee σ, t.demand side room = (r, u) ∧ u.Sound n e ∧
      (∀ other, other ≠ side → t.SameFor u other) ∧
      (t.Serves u side r ∨
        (r = none ∧ t.SameFor u side ∧ (t.output side).queue = [] ∧
          ∃ other m, other ≠ side ∧ u.phase = .sending other m ∧ (u.output other).queue ≠ [])) := by
  have hsame : ∀ (v : Tee σ) (out : Output) other, other ≠ side →
      v.SameFor (v.setOutput side out) other := by
    intro v out other ho
    refine ⟨?_, coming_setOutput_of_ne v out ho⟩
    rw [output_setOutput_of_ne v out ho]
  rcases read_sound h side hroom with ⟨hread, hq, -⟩ | ⟨r, out, hread, hsound, hserves⟩
  · -- the reader waits, so the producer runs
    have hdemand : t.demand side room = t.settle.read side room := by
      rw [demand, hread]
    have hkeeps := settle_sound h
    have hkept : ∀ other, t.SameFor t.settle other :=
      fun other => ⟨hkeeps.reader other, hkeeps.bytes other, hkeeps.ends other⟩
    rcases read_sound hkeeps.sound side hroom with ⟨hread', hq', hres⟩
      | ⟨r, out, hread', hsound, hserves⟩
    · -- it still waits, and the producer has neither exited nor anything for it
      refine ⟨none, t.settle, hdemand.trans hread', hkeeps.sound, fun other _ => hkept other,
        Or.inr ⟨rfl, hkept side, hq, ?_⟩⟩
      rcases settle_stuck t hkeeps.sound.held with ⟨result, hp⟩ | ⟨other, m, hp, hne⟩
      · rw [result?, hp] at hres
        cases hres
      · refine ⟨other, m, ?_, hp, hne⟩
        rintro rfl
        exact hne hq'
    · refine ⟨r, t.settle.setOutput side out, hdemand.trans hread', hsound, ?_,
        Or.inl (hserves.before (hkept side))⟩
      intro other ho
      obtain ⟨h1, h2, h3⟩ := hsame t.settle out other ho
      obtain ⟨k1, k2, k3⟩ := hkept other
      exact ⟨h1.trans k1, h2.trans k2, h3.trans k3⟩
  · -- something was there
    have hdemand : t.demand side room = (r, t.setOutput side out) := by
      rw [demand, hread]
      cases hserves <;> rfl
    exact ⟨r, t.setOutput side out, hdemand, hsound, hsame t out, Or.inl hserves⟩

/-- A full channel has bytes in it as long as the producer has more to send. -/
theorem Sound.bytes_of_stuck {t : Tee σ} {n : Nat} {e : Ending} (h : t.Sound n e) {side : Side}
    {m : Message} (hp : t.phase = .sending side m) (hq : (t.output side).queue ≠ []) :
    (t.output side).reader.state = .active ∧ t.comingBytes side ≠ [] := by
  have hnot : ∀ e', ¬ t.Told side e' := by
    intro e' ht
    rcases ht with ht | ⟨hs, ht⟩
    · cases hp.symm.trans ht
    · rw [hs] at hp
      cases hp.symm.trans ht
  have hactive : (t.output side).reader.state = .active := by
    cases hs : (t.output side).reader.state with
    | active => rfl
    | ended =>
        obtain ⟨k, hk⟩ := h.ended side hs
        cases hp.symm.trans hk
    | failed =>
        obtain ⟨e', ht⟩ := h.broken side hs
        exact absurd ht (hnot e')
  refine ⟨hactive, fun hnil => ?_⟩
  rw [comingBytes, hactive, if_pos rfl] at hnil
  have hway := (List.append_eq_nil_iff.mp hnil).2
  have hsolid := h.solid side
  have htold := fun e' => h.told side e' hactive
  rw [onTheWay] at hway hsolid
  -- the first message of the queue is neither a failure nor an empty chunk
  cases hqueue : (t.output side).queue with
  | nil => exact hq hqueue
  | cons m' queue =>
      rw [hqueue] at hway hsolid htold
      cases m' with
      | failure e' => exact hnot e' ((htold e').mp rfl)
      | chunk bytes =>
          have hb : bytes = [] := (List.append_eq_nil_iff.mp hway).1
          rw [hb] at hsolid
          exact hsolid (List.mem_cons_self ..)

/-! ## Both outputs in turn -/

/-- What was caught of an output and what it has still to give are together
    `d`, ending with `e`. -/
def Tracks (t : Tee σ) (side : Side) (c : Catch) (d : Bytes) (e : Ending) : Prop :=
  (c.ending = none ∧ (t.output side).reader.state = .active ∧
    c.bytes ++ t.comingBytes side = d ∧ t.comingEnd side = e) ∨
  (c.ending = some e ∧ (t.output side).reader.state ≠ .active ∧ c.bytes = d)

theorem Tracks.same {t u : Tee σ} {side : Side} {c : Catch} {d : Bytes} {e : Ending}
    (h : t.Tracks side c d e) (hsame : t.SameFor u side) : u.Tracks side c d e := by
  obtain ⟨h1, h2, h3⟩ := hsame
  rw [Tracks, h1, h2, h3]
  exact h

theorem Catch.bytes_note (c : Catch) {bytes : Bytes} (h : bytes ≠ []) :
    (c.note (some (.ok bytes))).bytes = c.bytes ++ bytes ∧
      (c.note (some (.ok bytes))).ending = c.ending := by
  cases bytes with
  | nil => exact absurd rfl h
  | cons b bs =>
      refine ⟨?_, rfl⟩
      show (((b :: bs) :: c.chunks).reverse).flatten = c.chunks.reverse.flatten ++ b :: bs
      simp

/-- One turn of an output: it goes on to track the stream, and either it gave
    something, or it is over, or it waits for the other one. -/
theorem demandUnlessEnded_sound {t : Tee σ} {n : Nat} {e : Ending} (h : t.Sound n e)
    (side : Side) {room : Nat} (hroom : 0 < room) {c : Catch} {d : Bytes} {e' : Ending}
    (hc : t.Tracks side c d e') :
    ∃ r u, t.demandUnlessEnded side room c = (r, u) ∧ u.Sound n e ∧
      u.Tracks side (c.note r) d e' ∧ (∀ other, other ≠ side → t.SameFor u other) ∧
      (given r ≠ [] ∨
        ((c.note r).ending = some e' ∧ (c.ending = none → t.comingBytes side = [])) ∨
        ((t.output side).queue = [] ∧ ∃ other m, other ≠ side ∧ u.phase = .sending other m ∧
          (u.output other).queue ≠ [])) := by
  rcases hc with ⟨hopen, hactive, hd, he⟩ | ⟨hended, hstate, hd⟩
  · have hunfold : t.demandUnlessEnded side room c = t.demand side room := by
      rw [demandUnlessEnded, hopen]
      rfl
    rw [hunfold]
    obtain ⟨r, u, hdemand, hsound, hothers, hserves | ⟨rfl, ⟨h1, h2, h3⟩, hq, hstuck⟩⟩ :=
      demand_sound h side hroom
    · refine ⟨r, u, hdemand, hsound, ?_⟩
      cases hserves with
      | @bytes bs solid given ends state =>
          obtain ⟨hbytes, hending⟩ := Catch.bytes_note c solid
          refine ⟨Or.inl ⟨hending.trans hopen, state.trans hactive, ?_, ends.trans he⟩, hothers,
            Or.inl solid⟩
          rw [hbytes, List.append_assoc, ← given]
          exact hd
      | finished nothing ends state =>
          have hend : (c.note (some (.ok []))).ending = some e' :=
            congrArg some (ends.symm.trans he)
          rw [nothing, List.append_nil] at hd
          exact ⟨Or.inr ⟨hend, state, hd⟩, hothers, Or.inr (Or.inl ⟨hend, fun _ => nothing⟩)⟩
      | failure nothing ends state =>
          have hend : (c.note (some (.error _))).ending = some e' :=
            congrArg some (ends.symm.trans he)
          rw [nothing, List.append_nil] at hd
          exact ⟨Or.inr ⟨hend, state, hd⟩, hothers, Or.inr (Or.inl ⟨hend, fun _ => nothing⟩)⟩
    · -- nothing came, so nothing was caught
      refine ⟨none, u, hdemand, hsound, Or.inl ⟨hopen, ?_, ?_, ?_⟩, hothers,
        Or.inr (Or.inr ⟨hq, hstuck⟩)⟩
      · rw [h1]
        exact hactive
      · rw [h2]
        exact hd
      · rw [h3]
        exact he
  · -- the output has ended, and nobody asks it again
    refine ⟨none, t, ?_, h, Or.inr ⟨hended, hstate, hd⟩,
      fun _ _ => ⟨rfl, rfl, rfl⟩,
      Or.inr (Or.inl ⟨hended, fun hopen => nomatch hended.symm.trans hopen⟩)⟩
    rw [demandUnlessEnded, hended]
    rfl

/-- Whoever has seen the end is not waited for. -/
theorem Tracks.open_of_active {t : Tee σ} {side : Side} {c : Catch} {d : Bytes} {e : Ending}
    (h : t.Tracks side c d e) (hactive : (t.output side).reader.state = .active) :
    c.ending = none := by
  rcases h with ⟨hopen, -⟩ | ⟨-, hstate, -⟩
  · exact hopen
  · exact absurd hactive hstate

/-- The result of a producer that has read a stream of `n` bytes. -/
def resultOf (n : Nat) : Ending → Except ProducerFailure Nat
  | none => .ok n
  | some e => .error (.stream e)

/-- The result of a producer whose second output has seen the end. -/
theorem Sound.result_of_over {t : Tee σ} {n : Nat} {e : Ending} (h : t.Sound n e)
    (hstate : (t.output .second).reader.state ≠ .active) :
    t.result? = some (resultOf n e) := by
  have hp : ∃ result, t.phase = .exited result := by
    cases hs : (t.output .second).reader.state with
    | active => exact absurd hs hstate
    | ended =>
        obtain ⟨k, hk⟩ := h.ended .second hs
        exact ⟨_, hk⟩
    | failed =>
        obtain ⟨e', ht⟩ := h.broken .second hs
        rcases ht with ht | ⟨hside, -⟩
        · exact ⟨_, ht⟩
        · cases hside
  obtain ⟨result, hp⟩ := hp
  have hverdict := h.verdict_eq
  have hcounted := h.counted_eq
  unfold verdict at hverdict
  unfold counted at hcounted
  unfold result?
  rw [hp] at hverdict hcounted ⊢
  cases result with
  | error failure =>
      cases failure with
      | crashed => exact absurd hp h.alive
      | stream e' => exact hverdict ▸ rfl
  | ok k => exact hverdict ▸ hcounted ▸ rfl

/-- A turn of both outputs in which neither gives anything is the last one:
    neither can be waiting for the other. -/
theorem turn_progress {t u v : Tee σ} {n : Nat} {e : Ending} {room : Nat} (hroom : 0 < room)
    {c c' : Catch} {d d' : Bytes} (h : t.Sound n e) (hc : t.Tracks .first c d e)
    (hc' : t.Tracks .second c' d' e) {r q : Option ReadResult}
    (hone : t.demandUnlessEnded .first room c = (r, u))
    (htwo : u.demandUnlessEnded .second room c' = (q, v)) :
    v.Sound n e ∧ v.Tracks .first (c.note r) d e ∧ v.Tracks .second (c'.note q) d' e ∧
      (given r ++ given q = [] →
        (c.note r).ending = some e ∧ (c'.note q).ending = some e) := by
  obtain ⟨_, _, hone', hu, hcu, hothers, hprogress⟩ := demandUnlessEnded_sound h .first hroom hc
  cases hone'.symm.trans hone
  have hcu' : u.Tracks .second c' d' e := hc'.same (hothers .second (fun ho => nomatch ho))
  obtain ⟨_, _, htwo', hv, hcv', hothers', hprogress'⟩ :=
    demandUnlessEnded_sound hu .second hroom hcu'
  cases htwo'.symm.trans htwo
  have hcv : v.Tracks .first (c.note r) d e := hcu.same (hothers' .first (fun ho => nomatch ho))
  refine ⟨hv, hcv, hcv', fun hnone => ?_⟩
  obtain ⟨hr, hq⟩ := List.append_eq_nil_iff.mp hnone
  have hfirst : (c.note r).ending = some e := by
    rcases hprogress with hne | ⟨hend, -⟩ | ⟨-, other, m, hother, hp, hfull⟩
    · exact absurd hr hne
    · exact hend
    · -- the first waits for the second, but that one can read
      cases other with
      | first => exact absurd rfl hother
      | second =>
          obtain ⟨hactive, hbytes⟩ := hu.bytes_of_stuck hp hfull
          rcases hprogress' with hne | ⟨-, hnil⟩ | ⟨hready, -⟩
          · exact absurd hq hne
          · exact absurd (hnil (hcu'.open_of_active hactive)) hbytes
          · exact absurd hready hfull
  refine ⟨hfirst, ?_⟩
  rcases hprogress' with hne | ⟨hend, -⟩ | ⟨-, other, m, hother, hp, hfull⟩
  · exact absurd hq hne
  · exact hend
  · -- the second waits for the first, but that one has seen the end
    cases other with
    | second => exact absurd rfl hother
    | first =>
        obtain ⟨hactive, -⟩ := hv.bytes_of_stuck hp hfull
        cases hfirst.symm.trans (hcv.open_of_active hactive)

/-- Reading both outputs in turn catches the whole stream on both of them. -/
theorem drainTogether_eq {t : Tee σ} {n : Nat} {e : Ending} {room : Nat} (hroom : 0 < room)
    {c c' : Catch} {d d' : Bytes} (h : t.Sound n e) (hc : t.Tracks .first c d e)
    (hc' : t.Tracks .second c' d' e) :
    ∃ b b' u, t.drainTogether room c c' = (b, b', u) ∧ b.bytes = d ∧ b.ending = some e ∧
      b'.bytes = d' ∧ b'.ending = some e ∧ u.result? = some (resultOf n e) := by
  have hover : ∀ {v : Tee σ} {side : Side} {b : Catch} {d : Bytes},
      v.Tracks side b d e → b.ending = some e →
      (v.output side).reader.state ≠ .active ∧ b.bytes = d := by
    intro v side b d hb hend
    rcases hb with ⟨hopen, -⟩ | ⟨-, hstate, hbytes⟩
    · cases hend.symm.trans hopen
    · exact ⟨hstate, hbytes⟩
  fun_induction drainTogether t room c c' with
  | case1 t c c' one two hnone =>
      -- a turn without bytes ends the loop, and by then both have seen the end
      obtain ⟨hv, hcv, hcv', hlast⟩ := turn_progress hroom h hc hc' (r := one.1) (u := one.2)
        (q := two.1) (v := two.2) rfl rfl
      obtain ⟨hend, hend'⟩ := hlast hnone
      exact ⟨_, _, _, rfl, (hover hcv hend).2, hend, (hover hcv' hend').2, hend',
        hv.result_of_over (hover hcv' hend').1⟩
  | case2 t c c' one two hsome ih =>
      obtain ⟨hv, hcv, hcv', -⟩ := turn_progress hroom h hc hc' (r := one.1) (u := one.2)
        (q := two.1) (v := two.2) rfl rfl
      exact ih hv hcv hcv'

/-- What was caught up to an ending can be read again. -/
theorem Catch.content_relay (c : Catch) {e : Ending} (h : c.ending = some e) :
    ReaderView.content c.relay = c.bytes ∧ ReaderView.ending c.relay = e := by
  unfold Catch.relay
  rw [Relay.content_fresh, Relay.ending_fresh, chunkBytes_chunks, failure?_chunks, h]
  cases e with
  | none => exact ⟨List.append_nil _, rfl⟩
  | some e => exact ⟨List.append_nil _, rfl⟩

/-- Both outputs of a tee that has its buffer give the stream that went in, and
    the producer counts it. -/
theorem split_eq (source : σ) {buffer : Nat} (hbuffer : Bufferable buffer) {room : Nat}
    (hroom : 0 < room) :
    ∃ r r', split source buffer room
        = (r, r', resultOf (content source).length (ending source)) ∧
      content r = content source ∧ ending r = ending source ∧
      content r' = content source ∧ ending r' = ending source := by
  have htracks : ∀ side, (ofSource source buffer).Tracks side {} (content source)
      (ending source) := by
    intro side
    obtain ⟨hbytes, hend⟩ := coming_ofSource source hbuffer side
    refine Or.inl ⟨rfl, ?_, hbytes, hend⟩
    rw [ofSource_of_bufferable source hbuffer]
    cases side <;> rfl
  obtain ⟨b, b', u, hdrain, hb, he, hb', he', hresult⟩ := drainTogether_eq hroom
    (sound_ofSource source hbuffer) (htracks .first) (htracks .second)
  obtain ⟨h1, h2⟩ := b.content_relay he
  obtain ⟨h3, h4⟩ := b'.content_relay he'
  refine ⟨b.relay, b'.relay, ?_, h1.trans hb, h2, h3.trans hb', h4⟩
  unfold split
  rw [hdrain]
  simp only [hresult]
  rfl

omit [ReaderView σ] in
/-- The outputs of a tee whose producer crashed end at once, as if the stream
    had nothing in it. -/
theorem split_crashed (source : σ) {buffer : Nat} (hbuffer : ¬Bufferable buffer) (room : Nat) :
    split source buffer room = ({ messages := [] }, { messages := [] }, .error .crashed) := by
  have hstart : ofSource source buffer
      = { source, buffer := max 1 buffer, phase := .exited (.error .crashed) } := by
    rw [ofSource, if_neg hbuffer]
  -- either output is asked once, and finds its channel closed
  have hone : (ofSource source buffer).demandUnlessEnded .first room {}
      = (some (.ok []), (ofSource source buffer).setOutput .first ⟨[], ⟨[], .ended⟩, false⟩) := by
    rw [hstart]
    rfl
  have htwo : ((ofSource source buffer).setOutput .first
        ⟨[], ⟨[], .ended⟩, false⟩).demandUnlessEnded .second room {}
      = (some (.ok []), ((ofSource source buffer).setOutput .first
          ⟨[], ⟨[], .ended⟩, false⟩).setOutput .second ⟨[], ⟨[], .ended⟩, false⟩) := by
    rw [hstart]
    rfl
  rw [split, drainTogether.eq_def]
  simp only [hone, htwo]
  rw [hstart]
  rfl

end Tee

end ContentVault
