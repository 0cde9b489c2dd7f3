import ContentVault.Proofs.Positions
import ContentVault.Proofs.Store.Uploads
import Mathlib.Data.Finmap

/-! # Places where blobs are kept

    Blobs are uploaded side by side and a file operation at a time, and in between
    others read, delete and list.  The directory is one place where this can happen,
    a finite map from UUIDs to bytes another one: of all the steps of an upload the
    map takes note of the last one only, when the file gets its name.

    How an upload goes on depends on neither (`Has.step`), and with enough steps it
    ends whatever happens in between (`Has.after`). -/

namespace ContentVault

open ReaderView

/-! ## What happens to a store of blobs -/

/-- What happens to a store of blobs. -/
inductive BlobEvent (σ : Type) where
  /-- A stream is stored with nothing in between. -/
  | put (d : Upload σ) (now : Timestamp)
  /-- An upload begins. -/
  | call (d : Upload σ)
  /-- The upload that began as the `i`-th takes its next step. -/
  | work (i : Nat) (now : Timestamp)
  | get (ref : String)
  | delete (ref : String)
  | list

/-- What comes of it; a list is given in no order. -/
inductive BlobAnswer where
  /-- The result of an upload, if it has ended. -/
  | stored (result : Option (Attempt String))
  | fetched (result : Attempt Source)
  | deleted (result : Attempt Unit)
  | listed (blobs : Multiset FoundBlob)

namespace BlobEvent

variable {σ : Type}

/-- The UUID that an event takes for a new blob. -/
def fresh? : BlobEvent σ → Option Uuid
  | put d _ => some d.id
  | call d => some d.id
  | _ => none

/-- Whether an event is a step of the `i`-th upload. -/
def isWorkOn (i : Nat) : BlobEvent σ → Bool
  | work j _ => j == i
  | _ => false

end BlobEvent

/-- What can be done where blobs are kept. -/
class KeepsBlobs (β : Type) where
  put : {σ : Type} → [ByteReader σ] → [ReaderView σ] → β → Upload σ → Timestamp →
    Attempt String × β
  perform : β → Uuid → FileChange → β
  get : β → String → Attempt Source
  delete : β → String → Attempt Unit × β
  list : β → Multiset FoundBlob

instance : KeepsBlobs BlobStore where
  put s d now := s.put d.id now d.stream d.length
  perform := BlobStore.perform
  get := BlobStore.get
  delete := BlobStore.delete
  list s := s.list

/-- Bytes by UUIDs, with the time when they came. -/
abbrev BlobMap := Finmap fun _ : Uuid => Bytes × Timestamp

namespace BlobMap

/-- What is bound to a reference. -/
def get (m : BlobMap) (ref : String) : Attempt Source :=
  match (Uuid.parse? ref).bind fun u => m.lookup u with
  | some (bytes, _) => .ok { data := bytes }
  | none => .error (BlobStore.unknown ref)

/-- Removes what is bound to a reference. -/
def delete (m : BlobMap) (ref : String) : Attempt Unit × BlobMap :=
  match Uuid.parse? ref with
  | none => (.error (BlobStore.unknown ref), m)
  | some u => if u ∈ m then (.ok (), m.erase u) else (.error (BlobStore.unknown ref), m)

/-- All that is bound, under the references that were given out. -/
def list (m : BlobMap) : Multiset FoundBlob := m.entries.map fun b => ⟨b.1.text, b.2.2⟩

/-- Of the steps of an upload, only the last one of a blob that is complete counts. -/
def perform (m : BlobMap) (id : Uuid) : FileChange → BlobMap
  | .publish bytes created => m.insert id (bytes, created)
  | _ => m

/-- Binds the content of a stream, if it ends cleanly and has the right length. -/
def put {σ : Type} [ByteReader σ] [ReaderView σ] (m : BlobMap) (d : Upload σ)
    (now : Timestamp) : Attempt String × BlobMap :=
  match d.verdict with
  | .ok ref => (.ok ref, m.insert d.id (content d.stream, now))
  | .error e => (.error e, m)

end BlobMap

instance : KeepsBlobs BlobMap where
  put := BlobMap.put
  perform := BlobMap.perform
  get := BlobMap.get
  delete := BlobMap.delete
  list := BlobMap.list

/-- Blobs that are kept, and all uploads so far. -/
structure Depository (σ β : Type) where
  kept : β
  uploads : List (Upload σ × UploadStage σ) := []

namespace Depository

/-- Whether the upload that began as the `i`-th is at a stage. -/
def Has {σ β : Type} (x : Depository σ β) (i : Nat) (d : Upload σ) (stage : UploadStage σ) :
    Prop := x.uploads[i]? = some (d, stage)

/-- A depository in which an upload has gone on. -/
def moved {σ β : Type} (x : Depository σ β) (kept : β) (i : Nat) (d : Upload σ)
    (next : UploadStage σ) : Depository σ β := ⟨kept, x.uploads.set i (d, next)⟩

/-- A depository with one more upload. -/
def joined {σ β : Type} (x : Depository σ β) (kept : β) (d : Upload σ)
    (stage : UploadStage σ) : Depository σ β := ⟨kept, x.uploads ++ [(d, stage)]⟩

variable {σ β : Type} [ByteReader σ] [ReaderView σ] [KeepsBlobs β]

/-- What comes of an event. -/
def step (x : Depository σ β) : BlobEvent σ → BlobAnswer × Depository σ β
  | .put d now =>
    let (result, kept) := KeepsBlobs.put x.kept d now
    (.stored (some result), x.joined kept d (.ended result))
  | .call d => (.stored none, x.joined x.kept d .called)
  | .work i now =>
    match x.uploads[i]? with
    | none => (.stored none, x)
    | some (d, stage) =>
      let (next, change) := d.advance now stage
      (.stored next.result?, x.moved (KeepsBlobs.perform x.kept d.id change) i d next)
  | .get ref => (.fetched (KeepsBlobs.get x.kept ref), x)
  | .delete ref =>
    let (result, kept) := KeepsBlobs.delete x.kept ref
    (.deleted result, { x with kept })
  | .list => (.listed (KeepsBlobs.list x.kept), x)

/-- What is there after one event after the other. -/
def after (x : Depository σ β) (events : List (BlobEvent σ)) : Depository σ β :=
  events.foldl (fun x e => (x.step e).2) x

/-- What comes of one event after the other. -/
def answers (x : Depository σ β) : List (BlobEvent σ) → List BlobAnswer
  | [] => []
  | e :: events => (x.step e).1 :: answers (x.step e).2 events

theorem after_append (x : Depository σ β) (events more : List (BlobEvent σ)) :
    x.after (events ++ more) = (x.after events).after more := List.foldl_append

end Depository

/-! ## Uploads by their numbers -/

namespace Depository

variable {σ β : Type} {x : Depository σ β} {kept : β} {i j : Nat} {d e : Upload σ}
  {stage next other : UploadStage σ}

theorem Has.moved_self (h : x.Has i d stage) : (x.moved kept i d next).Has i d next :=
  Positions.set_self h

theorem Has.moved_of_ne (h : x.Has j e other) (hne : j ≠ i) :
    (x.moved kept i d next).Has j e other :=
  Positions.set_of_ne h hne

theorem has_of_moved (h : (x.moved kept i d next).Has j e other) :
    (j = i ∧ e = d ∧ other = next) ∨ (j ≠ i ∧ x.Has j e other) := by
  rcases Positions.of_set h with ⟨hj, heq⟩ | ⟨hj, h⟩
  · obtain ⟨rfl, rfl⟩ := Prod.mk.inj heq
    exact Or.inl ⟨hj, rfl, rfl⟩
  · exact Or.inr ⟨hj, h⟩

/-- The uploads are the same as before. -/
theorem Has.exists_of_moved (hi : x.Has i d stage) (h : (x.moved kept i d next).Has j e other) :
    ∃ before, x.Has j e before := by
  rcases has_of_moved h with ⟨rfl, rfl, -⟩ | ⟨-, h⟩
  · exact ⟨stage, hi⟩
  · exact ⟨other, h⟩

theorem Has.exists_moved (hi : x.Has i d stage) (h : x.Has j e other) :
    ∃ after, (x.moved kept i d next).Has j e after := by
  by_cases hj : j = i
  · subst hj
    obtain ⟨rfl, -⟩ := Prod.mk.inj (Option.some.inj (hi.symm.trans h))
    exact ⟨next, hi.moved_self⟩
  · exact ⟨other, h.moved_of_ne hj⟩

theorem Has.joined (h : x.Has j e other) : (x.joined kept d stage).Has j e other :=
  Positions.concat h

theorem has_joined : (x.joined kept d stage).Has x.uploads.length d stage :=
  List.getElem?_concat_length

theorem has_of_joined (h : (x.joined kept d stage).Has j e other) :
    x.Has j e other ∨ (j = x.uploads.length ∧ e = d ∧ other = stage) := by
  rcases Positions.of_concat h with h | ⟨hj, heq⟩
  · exact Or.inl h
  · obtain ⟨rfl, rfl⟩ := Prod.mk.inj heq
    exact Or.inr ⟨hj, rfl, rfl⟩

/-! ### Uploads in a run -/

variable [ByteReader σ] [ReaderView σ] [KeepsBlobs β]

/-- An upload is an older one, or its UUID is fresh. -/
theorem fresh_of_step {event : BlobEvent σ} (h : (x.step event).2.Has i d stage) :
    (∃ before, x.Has i d before) ∨ event.fresh? = some d.id := by
  cases event with
  | put e now =>
      rcases has_of_joined h with h | ⟨-, rfl, -⟩
      · exact Or.inl ⟨stage, h⟩
      · exact Or.inr rfl
  | call e =>
      rcases has_of_joined h with h | ⟨-, rfl, -⟩
      · exact Or.inl ⟨stage, h⟩
      · exact Or.inr rfl
  | work j now =>
      rw [step] at h
      cases hj : x.uploads[j]? with
      | none =>
          rw [hj] at h
          exact Or.inl ⟨stage, h⟩
      | some reached =>
          rw [hj] at h
          have hhas : x.Has j reached.1 reached.2 := hj
          exact Or.inl (hhas.exists_of_moved h)
  | get ref => exact Or.inl ⟨stage, h⟩
  | delete ref => exact Or.inl ⟨stage, h⟩
  | list => exact Or.inl ⟨stage, h⟩

/-- An upload goes on with its own steps, and with nothing else. -/
theorem Has.step (h : x.Has i d stage) (event : BlobEvent σ) :
    ∃ next, (x.step event).2.Has i d next ∧
      d.rank next ≤ d.rank stage - (if event.isWorkOn i then 1 else 0) := by
  cases event with
  | put e now => exact ⟨stage, h.joined, Nat.le_refl _⟩
  | call e => exact ⟨stage, h.joined, Nat.le_refl _⟩
  | work j now =>
      rw [Depository.step]
      by_cases hj : j = i
      · subst hj
        rw [show x.uploads[j]? = some (d, stage) from h, BlobEvent.isWorkOn, beq_self_eq_true]
        exact ⟨_, h.moved_self, d.rank_advance_le now stage⟩
      · rw [BlobEvent.isWorkOn, beq_false_of_ne hj]
        refine ⟨stage, ?_, Nat.le_refl _⟩
        cases hfound : x.uploads[j]? with
        | none => exact h
        | some reached => exact h.moved_of_ne (Ne.symm hj)
  | get ref => exact ⟨stage, h, Nat.le_refl _⟩
  | delete ref => exact ⟨stage, h, Nat.le_refl _⟩
  | list => exact ⟨stage, h, Nat.le_refl _⟩

/-- An upload with enough steps ends, whatever happens in between. -/
theorem Has.after (h : x.Has i d stage) {events : List (BlobEvent σ)}
    (hwork : d.rank stage ≤ events.countP (BlobEvent.isWorkOn i)) :
    ∃ result, (x.after events).Has i d (.ended result) := by
  induction events generalizing x stage with
  | nil =>
      obtain ⟨result, rfl⟩ := d.ended_of_rank (Nat.le_zero.mp hwork)
      exact ⟨result, h⟩
  | cons event events ih =>
      obtain ⟨next, hnext, hrank⟩ := h.step event
      refine ih hnext ?_
      rw [List.countP_cons] at hwork
      omega

end Depository

end ContentVault
