import ContentVault.Proofs.Cipher.Tasks
import ContentVault.Proofs.Stream.Causes

/-! # What goes through a task that encrypts

    A task that encrypts is told how its output ends and passes that on: the
    last frame of the ciphertext if the output ends cleanly, else the failure.
    The port hears of it behind everything that was sent before (`Conveys`).  So
    the branch is loyal to its output if the port is loyal to the ciphertext
    (`Sealed.loyal`). -/

namespace ContentVault

open ByteReader ReaderView Outlet Session

/-! ## What messages tell -/

/-- What a message tells of how a stream ends, if it is the last one or not. -/
def Message.tells (last : Bool) : Message → Option Ending
  | .failure x => some (some x)
  | .chunk _ => if last then some none else none

/-- Whether a task can be at this when it was told that of its output. -/
def Frames.SealingPhase.Follows (told : Option Ending) : SealingPhase → Prop
  | .filling _ _ => told = none
  | .sending _ m last => told = m.tells last ∧ (last = false → told = none)
  | _ => told ≠ none

theorem Port.toldBy_of_bytes {bytes : Bytes} (h : bytes ≠ []) : Port.toldBy (.ok bytes) = none := by
  match bytes with
  | [] => exact absurd rfl h
  | b :: bs => rfl

/-- What the task goes on with tells what the read told it. -/
theorem Frames.follows_filledWith (a : Aead) (key : Key) (base : Nonce) (size : ChunkSize)
    (index : Nat) (filled : Bytes) (r : ReadResult) :
    (filledWith a key base size index filled r).Follows (Port.toldBy r) ∧
      ∀ x, Port.toldBy r = some (some x) →
        Message.failure x ∈ (filledWith a key base size index filled r).hand := by
  rcases filledWith_cases a key base size index filled r with ⟨rfl, hto⟩ | ⟨e, rfl, hto⟩
    | ⟨bytes, hne, rfl, -, hto⟩ | ⟨bytes, hne, rfl, hto⟩
  · rw [hto]
    exact ⟨⟨rfl, nofun⟩, nofun⟩
  · rw [hto]
    refine ⟨⟨rfl, nofun⟩, fun x hx => ?_⟩
    cases hx
    exact List.mem_singleton_self _
  · rw [hto, Port.toldBy_of_bytes hne]
    exact ⟨rfl, nofun⟩
  · rw [hto, Port.toldBy_of_bytes hne]
    exact ⟨⟨rfl, fun _ => rfl⟩, nofun⟩

/-! ## What the port hears -/

namespace Sealed

open Frames

variable {α : Type} {p : Port (Attempt α)} {a : Aead} {key : Key} {base : Nonce}
  {size : ChunkSize} {Inv : p.State → Option Ending → Prop} {k k' : SealingTask p.State}
  {told heard : Option Ending} {watchful : Bool} {deed : Deed (SealingTask p.State)}

/-- How what the port has heard of the end of the ciphertext comes from what the
    task was told of the end of its output: the same, if anything, and a failure
    that it has not heard of is on its way. -/
structure Conveys (size : ChunkSize) (Inv : p.State → Option Ending → Prop)
    (told heard : Option Ending) (k : SealingTask p.State) : Prop where
  sound : k.Sound size
  port : Inv k.port heard
  left : k.left = true → heard ≠ none
  said : ∀ e, heard = some e → told = some e
  listening : heard = none → k.reader.state = .active
  phase : k.phase.Follows told
  queued : ∀ x, Message.failure x ∈ k.queue → told = some (some x)
  coming : ∀ x, heard = none → told = some (some x) →
    Message.failure x ∈ k.queue ++ k.phase.hand

/-- The task conveys what it was told, whatever it does but read. -/
theorem Conveys.task (h : Conveys size Inv told heard k)
    (hcase : SealingCase a key base size k watchful deed) (hleads : deed.Leads k')
    (hread : ∀ room fed otherwise, deed ≠ .read room fed otherwise) :
    Conveys size Inv told heard k' := by
  have hsound := h.sound.task hcase hleads
  have hsaid : heard ≠ none → told ≠ none := by
    intro hheard htold
    obtain ⟨e, he⟩ := Option.ne_none_iff_exists'.mp hheard
    cases htold.symm.trans (h.said e he)
  have hfollows := h.phase
  cases hcase with
  | notices phase left =>
      rw [phase] at hfollows
      exact absurd hfollows (hsaid (h.left left))
  | fills => exact absurd rfl (hread _ _ _)
  | refused phase left =>
      cases hleads
      exact ⟨hsound, h.port, h.left, h.said, h.listening, hsaid (h.left left), h.queued,
        fun x hnone => absurd hnone (h.left left)⟩
  | @sends index m last phase held empty =>
      cases hleads
      rw [phase] at hfollows
      obtain ⟨htold, hlast⟩ := hfollows
      have hcoming := h.coming
      rw [phase, empty] at hcoming
      refine ⟨hsound, h.port, h.left, h.said, h.listening, ?_, fun x hx => ?_,
        fun x hheard hx => ?_⟩
      · cases last with
        | false => exact hlast rfl
        | true =>
            show told ≠ none
            rw [htold]
            cases m <;> nofun
      · rw [htold, ← List.mem_singleton.mp hx]
        rfl
      · exact List.mem_append_left _ (hcoming x hheard hx)
  | closes phase | leaves phase =>
      cases hleads
      rw [phase] at hfollows
      have hcoming := h.coming
      rw [phase] at hcoming
      exact ⟨hsound, h.port, h.left, h.said, h.listening, hfollows, h.queued, hcoming⟩
  | full | idle => cases hleads

/-- What the port does keeps what it has heard in step with what the task was
    told. -/
theorem Conveys.ported (hp : p.Loyal Inv) (h : Conveys size Inv told heard k)
    (hcase : PortCase p k deed) (hleads : deed.Leads k') :
    ∃ heard', Conveys size Inv told heard' k' := by
  have hsound := h.sound.ported hcase hleads
  cases hcase with
  | @asks room fed r reader box step held hread =>
      cases hleads
      obtain ⟨rfl, hroom, hfed⟩ := hp.ask h.port step
      have hactive := h.listening rfl
      have hreads := reads_of_read hread h.sound.queue
      have hqueued := fun x hx => h.queued x (hreads.subset hx)
      -- bytes leave what the port has heard as it was
      have hgoes : ∀ {bytes : Bytes}, bytes ≠ [] → r = .ok bytes → reader.state = .active →
          (∀ x, Message.failure x ∈ k.queue → Message.failure x ∈ box.queue) →
          ∃ heard', Conveys size Inv told heard'
            { k with queue := box.queue, reader, port := fed r, left := false } := by
        rintro bytes hne rfl hstate hkept
        have hport := hfed (.ok bytes)
        rw [Port.toldBy_of_bytes hne] at hport
        refine ⟨none, hsound, hport, nofun, nofun, fun _ => hstate, h.phase, hqueued, ?_⟩
        intro x _ hx
        rcases List.mem_append.mp (h.coming x rfl hx) with hmem | hmem
        · exact List.mem_append_left _ (hkept x hmem)
        · exact List.mem_append_right _ hmem
      have hover : ∀ {e : Ending}, Port.toldBy r = some e → told = some e →
          ∃ heard', Conveys size Inv told heard'
            { k with queue := box.queue, reader, port := fed r, left := false } := by
        intro e he htold
        have hport := hfed r
        rw [he] at hport
        exact ⟨some e, hsound, hport, nofun, fun _ he' => htold.trans he', nofun, h.phase,
          hqueued, nofun⟩
      generalize box.queue = queue' at hreads hgoes hover
      generalize hq : k.queue = queue at hreads hgoes
      generalize hr : k.reader = reader' at hreads hactive
      cases hreads with
      | rest => exact hgoes (Books.take_cons_ne_nil hroom) rfl hactive fun _ => id
      | ended | failed => cases hactive
      | chunk =>
          refine hgoes (Books.take_cons_ne_nil hroom) rfl rfl fun x hx => ?_
          rcases List.mem_cons.mp hx with hx | hx
          · cases hx
          · exact hx
      | @failure x queue' => exact hover rfl (h.queued x (hq ▸ List.mem_cons_self))
      | ends isClosed =>
          -- the sending end is gone, so the task was told, and not of a failure
          have hclosed := h.sound.closed.mp isClosed
          have hnone : k.phase.hand = [] ∧ told ≠ none := by
            have hfollows := h.phase
            rcases hclosed with hphase | hphase <;> rw [hphase] at hfollows ⊢ <;>
              exact ⟨rfl, hfollows⟩
          obtain ⟨e, he⟩ := Option.ne_none_iff_exists'.mp hnone.2
          cases e with
          | none => exact hover rfl he
          | some x =>
              have hmem := h.coming x rfl he
              rw [hq, hnone.1] at hmem
              cases hmem
  | works step =>
      cases hleads
      exact ⟨heard, hsound, hp.work h.port step, h.left, h.said, h.listening, h.phase, h.queued,
        h.coming⟩
  | leaves step => exact absurd step (hp.stays h.port)
  | done step =>
      cases hleads
      obtain ⟨e, rfl, -⟩ := hp.done h.port step
      exact ⟨some e, hsound, h.port, fun _ => nofun, h.said, nofun, h.phase, h.queued, nofun⟩
  | waits | mute | idle => cases hleads

/-- A branch with a task that encrypts is loyal to its output if the port is
    loyal to the ciphertext. -/
theorem loyal (hp : p.Loyal Inv) :
    (p.sealed a key base size).Loyal fun k told => ∃ heard, Conveys size Inv told heard k := by
  constructor
  case start =>
    exact ⟨none, sound_start p.start size, hp.start, nofun, nofun, fun _ => rfl, rfl, nofun, nofun⟩
  case work =>
    rintro (k : SealingTask p.State) (k' : SealingTask p.State) told t watchful ⟨heard, h⟩ hnext
    rcases p.sealed_cases a key base size hnext with hcase | hcase
    · exact ⟨heard, h.task hcase .work fun _ _ _ => nofun⟩
    · exact h.ported hp hcase .work
  case leave =>
    rintro (k : SealingTask p.State) (k' : SealingTask p.State) told t watchful ⟨heard, h⟩ hnext
    rcases p.sealed_cases a key base size hnext with hcase | hcase
    · exact ⟨heard, h.task hcase .leave fun _ _ _ => nofun⟩
    · exact h.ported hp hcase .leave
  case read =>
    rintro (k : SealingTask p.State) told t watchful room fed otherwise ⟨heard, h⟩ hnext
    rcases p.sealed_cases a key base size hnext with hcase | hcase
    · have htask := fun r => h.sound.task hcase (.fed r)
      cases hcase with
      | @fills index filled _ phase other =>
          have hfollows := h.phase
          rw [phase] at hfollows
          obtain rfl : told = none := hfollows
          obtain rfl : heard = none := by
            by_contra hheard
            obtain ⟨e, he⟩ := Option.ne_none_iff_exists'.mp hheard
            cases h.said e he
          have hheld : k.left = false := Bool.eq_false_iff.mpr fun hleft => h.left hleft rfl
          have hlen := h.sound.filling index filled phase
          refine ⟨rfl, by omega,
            fun r => ⟨none, htask r, h.port, h.left, nofun, h.listening, ?_, ?_, ?_⟩, ?_⟩
          · exact (follows_filledWith a key base size index filled r).1
          · intro x hx
            cases h.queued x hx
          · intro x _ hx
            exact List.mem_append_right _
              ((follows_filledWith a key base size index filled r).2 x hx)
          · intro k' hk'
            rw [hheld, if_neg Bool.false_ne_true] at other
            cases other.symm.trans hk'
    · cases hcase
  case left =>
    rintro (k : SealingTask p.State) told ⟨heard, h⟩ hgone
    have hfollows := h.phase
    change k.phase.isGone = true at hgone
    cases hphase : k.phase with
    | gone =>
        rw [hphase] at hfollows
        exact hfollows
    | filling | sending | closing | leaving =>
        rw [hphase] at hgone
        cases hgone
  case result =>
    rintro (k : SealingTask p.State) told r ⟨heard, h⟩ hr
    obtain ⟨e, he, hfailure⟩ := hp.done h.port (Port.result_eq_some_iff.mp hr)
    exact ⟨e, h.said e he, hfailure⟩

end Sealed

end ContentVault
