import ContentVault.Proofs.Store.Depository

/-! # The blob store as a map

    The directory is a way to keep a finite map from UUIDs to bytes.  Whatever
    happens to it, the answers are those of a map that learns of a blob only when its
    file gets its name (`Mirrors.step`).  Up to then there is a file with a name that
    no reference leads to.

    A reference leads to one name at most, and this is made of digits and hyphens,
    so no reference leads out of the directory (`IsPlainName`).

    Main statement: `blobs_act_as_map`. -/

namespace ContentVault

open ReaderView

/-! ## Names and lists -/

namespace BlobStore

theorem temporaryName_injective {u v : Uuid} (h : temporaryName u = temporaryName v) : u = v := by
  have hlist := congrArg String.toList h
  rw [toList_temporaryName, toList_temporaryName] at hlist
  have hchars := List.append_inj_left' (List.cons.inj hlist).2 rfl
  exact Uuid.text_injective (congrArg String.ofList hchars)

theorem contentRef_of_blobInfo? {e : String × Node} {b : FoundBlob} (h : blobInfo? e = some b) :
    b.contentRef = e.1 := by
  obtain ⟨name, node⟩ := e
  cases node with
  | folder => cases h
  | file bytes created =>
      rw [blobInfo?] at h
      split at h
      · cases h
        rfl
      · cases h

/-- No blob is listed twice. -/
theorem nodup_list (s : BlobStore) : s.list.Nodup := by
  have hsublist : ∀ entries : List (String × Node),
      ((entries.filterMap blobInfo?).map FoundBlob.contentRef).Sublist (entries.map Prod.fst) := by
    intro entries
    induction entries with
    | nil => exact List.Sublist.slnil
    | cons e rest ih =>
        rw [List.filterMap_cons]
        cases hinfo : blobInfo? e with
        | none => exact ih.cons _
        | some b =>
            rw [List.map_cons, List.map_cons, contentRef_of_blobInfo? hinfo]
            exact ih.cons_cons _
  exact List.Nodup.of_map _ (s.root.nodup.sublist (hsublist s.root.entries))

end BlobStore

/-! ## A directory that mirrors a map -/

/-- Whether a directory keeps what a map binds, and apart from that the files of
    uploads under way only. -/
structure Mirrors {σ : Type} [ByteReader σ] [ReaderView σ] (x : Depository σ BlobStore)
    (y : Depository σ BlobMap) : Prop where
  uploads : y.uploads = x.uploads
  apart : ∀ (i j : Nat) (d e : Upload σ) (stage other : UploadStage σ), x.Has i d stage →
    x.Has j e other → d.id = e.id → i = j
  sound : ∀ (i : Nat) (d : Upload σ) (stage : UploadStage σ), x.Has i d stage → d.IsAt stage
  bound : ∀ u : Uuid, x.kept.root.get? u.text
    = (y.kept.lookup u).map fun b => Node.file b.1 b.2
  pending : ∀ (i : Nat) (d : Upload σ) (stage : UploadStage σ), x.Has i d stage →
    x.kept.root.get? (BlobStore.temporaryName d.id) = stage.file?
  nothingElse : ∀ (name : String) (node : Node), x.kept.root.get? name = some node →
    (∃ u : Uuid, name = u.text) ∨ ∃ i d stage, x.Has i d stage ∧
      name = BlobStore.temporaryName d.id
  stored : ∀ (u : Uuid) (b : Bytes × Timestamp), y.kept.lookup u = some b →
    ∃ i d, x.Has i d (.ended (.ok u.text)) ∧ d.id = u ∧ b.1 = content d.stream

namespace Mirrors

variable {σ : Type} [ByteReader σ] [ReaderView σ] {x : Depository σ BlobStore}
  {y : Depository σ BlobMap}

theorem empty : Mirrors (⟨.empty, []⟩ : Depository σ BlobStore) ⟨∅, []⟩ where
  uploads := rfl
  apart := fun _ _ _ _ _ _ h => nomatch h
  sound := fun _ _ _ h => nomatch h
  bound := fun u => by
    rw [Finmap.lookup_empty]
    rfl
  pending := fun _ _ _ h => nomatch h
  nothingElse := fun _ _ h => nomatch h
  stored := fun u b h => by
    rw [Finmap.lookup_empty] at h
    cases h

/-- There is no file under the name for writing of a fresh UUID. -/
theorem get?_temporaryName (h : Mirrors x y) {u : Uuid}
    (hnew : ∀ (i : Nat) (e : Upload σ) (other : UploadStage σ), x.Has i e other → e.id ≠ u) :
    x.kept.root.get? (BlobStore.temporaryName u) = none := by
  cases hnode : x.kept.root.get? (BlobStore.temporaryName u) with
  | none => rfl
  | some node =>
      rcases h.nothingElse _ _ hnode with ⟨v, hv⟩ | ⟨i, e, other, he, hname⟩
      · exact absurd hv.symm (BlobStore.text_ne_temporaryName v u)
      · exact absurd (BlobStore.temporaryName_injective hname).symm (hnew i e other he)

/-- There are the files of what is bound, and of uploads under way. -/
theorem directory_iff (h : Mirrors x y) (name : String) (node : Node) :
    x.kept.root.get? name = some node ↔
    (∃ u b, y.kept.lookup u = some b ∧ name = u.text ∧ node = .file b.1 b.2) ∨
    ∃ i d stage, x.Has i d stage ∧ name = BlobStore.temporaryName d.id ∧
      stage.file? = some node := by
  constructor
  · intro hnode
    rcases h.nothingElse name node hnode with ⟨u, rfl⟩ | ⟨i, d, stage, hi, rfl⟩
    · obtain ⟨b, hb, rfl⟩ := Option.map_eq_some_iff.mp ((h.bound u).symm.trans hnode)
      exact Or.inl ⟨u, b, hb, rfl, rfl⟩
    · exact Or.inr ⟨i, d, stage, hi, rfl, (h.pending i d stage hi).symm.trans hnode⟩
  · rintro (⟨u, b, hb, rfl, rfl⟩ | ⟨i, d, stage, hi, rfl, hfile⟩)
    · exact (h.bound u).trans (Option.map_eq_some_iff.mpr ⟨b, hb, rfl⟩)
    · exact (h.pending i d stage hi).trans hfile

/-! ### Reading, deleting and listing -/

/-- The same bytes are read from both. -/
theorem get_eq (h : Mirrors x y) (ref : String) : x.kept.get ref = y.kept.get ref := by
  rw [BlobStore.get, BlobMap.get, BlobStore.fileName?]
  cases Uuid.parse? ref with
  | none => rfl
  | some u =>
      rw [Option.map_some, Option.bind_eq_bind, Option.bind_some, Option.bind_some, h.bound]
      cases y.kept.lookup u with
      | none => rfl
      | some b => rfl

/-- The same blobs are listed. -/
theorem list_eq (h : Mirrors x y) : (x.kept.list : Multiset FoundBlob) = y.kept.list := by
  have hmap : y.kept.list.Nodup := by
    refine Multiset.Nodup.map_on ?_ y.kept.nodup_entries
    rintro ⟨u, b⟩ hu ⟨v, c⟩ hv heq
    have huv : u = v := Uuid.text_injective (congrArg FoundBlob.contentRef heq)
    subst huv
    rw [← Finmap.lookup_eq_some_iff] at hu hv
    cases hu.symm.trans hv
    rfl
  refine (Multiset.Nodup.ext (Multiset.coe_nodup.mpr x.kept.nodup_list) hmap).mpr fun b => ?_
  rw [Multiset.mem_coe, BlobStore.mem_list_iff, BlobMap.list, Multiset.mem_map]
  constructor
  · rintro ⟨⟨bytes, hfile⟩, name, hname⟩
    -- a file whose name spells a UUID is none that is being written
    rcases h.nothingElse _ _ hfile with ⟨u, hu⟩ | ⟨i, d, stage, -, htemporary⟩
    · rw [hu, h.bound] at hfile
      obtain ⟨c, hc, hnode⟩ := Option.map_eq_some_iff.mp hfile
      obtain ⟨-, hcreated⟩ := Node.file.inj hnode
      refine ⟨⟨u, c⟩, Finmap.lookup_eq_some_iff.mp hc, ?_⟩
      rw [← hu, hcreated]
    · obtain ⟨u, hu, -⟩ := BlobStore.fileName?_eq_some_iff.mp hname
      rw [htemporary, BlobStore.parse?_temporaryName] at hu
      cases hu
  · rintro ⟨⟨u, c⟩, hmem, rfl⟩
    rw [← Finmap.lookup_eq_some_iff] at hmem
    refine ⟨⟨c.1, ?_⟩, u.text, BlobStore.fileName?_text u⟩
    rw [h.bound, hmem]
    rfl

/-- The same is answered to a deletion, and it takes the same away. -/
theorem delete (h : Mirrors x y) (ref : String) :
    (x.kept.delete ref).1 = (y.kept.delete ref).1 ∧
    Mirrors { x with kept := (x.kept.delete ref).2 } { y with kept := (y.kept.delete ref).2 } := by
  rw [BlobStore.delete, BlobMap.delete, BlobStore.fileName?]
  cases Uuid.parse? ref with
  | none => exact ⟨rfl, h⟩
  | some u =>
      have hbound := h.bound u
      simp only [Option.map_some]
      cases hlookup : y.kept.lookup u with
      | none =>
          have hfile : x.kept.root.get? u.text = none := by
            rw [hbound, hlookup]
            rfl
          rw [if_neg (Finmap.lookup_eq_none.mp hlookup)]
          simp only [hfile]
          exact ⟨trivial, h⟩
      | some b =>
          have hfile : x.kept.root.get? u.text = some (.file b.1 b.2) := by
            rw [hbound, hlookup]
            rfl
          rw [if_pos (Finmap.mem_of_lookup_eq_some hlookup)]
          simp only [hfile]
          refine ⟨trivial, h.uploads, h.apart, h.sound, fun v => ?_, fun i d stage hd => ?_,
            fun name node hnode => ?_, fun v c hc => ?_⟩
          · show (x.kept.root.erase u.text).get? v.text = ((y.kept.erase u).lookup v).map _
            by_cases hv : v = u
            · subst hv
              rw [Directory.get?_erase_self, Finmap.lookup_erase]
              rfl
            · rw [Directory.get?_erase_of_ne _ fun heq => hv (Uuid.text_injective heq),
                Finmap.lookup_erase_ne hv, h.bound]
          · refine Eq.trans ?_ (h.pending i d stage hd)
            exact Directory.get?_erase_of_ne _ (BlobStore.text_ne_temporaryName u d.id).symm
          · have hne : name ≠ u.text := by
              rintro rfl
              cases (Directory.get?_erase_self _ _).symm.trans hnode
            exact h.nothingElse name node ((Directory.get?_erase_of_ne _ hne).symm.trans hnode)
          · have hne : v ≠ u := by
              rintro rfl
              cases (Finmap.lookup_erase v y.kept).symm.trans hc
            exact h.stored v c ((Finmap.lookup_erase_ne hne).symm.trans hc)

/-! ### Storing -/

/-- An upload goes on, and only its file changes. -/
theorem move (h : Mirrors x y) {i : Nat} {d : Upload σ} {stage next : UploadStage σ}
    (hi : x.Has i d stage) (hat : d.IsAt next)
    (hended : ∀ result, stage = .ended result → next = .ended result) {root : Directory}
    (hsame : ∀ name, name ≠ BlobStore.temporaryName d.id → root.get? name = x.kept.root.get? name)
    (hfile : root.get? (BlobStore.temporaryName d.id) = next.file?) :
    Mirrors (x.moved ⟨root⟩ i d next) (y.moved y.kept i d next) where
  uploads := congrArg (List.set · i (d, next)) h.uploads
  apart := by
    intro j k e f other other' he hf hid
    obtain ⟨before, he⟩ := hi.exists_of_moved he
    obtain ⟨before', hf⟩ := hi.exists_of_moved hf
    exact h.apart j k e f before before' he hf hid
  sound := by
    intro j e other he
    rcases Depository.has_of_moved he with ⟨-, rfl, rfl⟩ | ⟨-, he⟩
    · exact hat
    · exact h.sound j e other he
  bound := by
    intro u
    exact (hsame _ (BlobStore.text_ne_temporaryName u d.id)).trans (h.bound u)
  pending := by
    intro j e other he
    rcases Depository.has_of_moved he with ⟨-, rfl, rfl⟩ | ⟨hj, he⟩
    · exact hfile
    · refine (hsame _ fun heq => hj ?_).trans (h.pending j e other he)
      exact h.apart j i e d other stage he hi (BlobStore.temporaryName_injective heq)
  nothingElse := by
    intro name node hnode
    by_cases hname : name = BlobStore.temporaryName d.id
    · exact Or.inr ⟨i, d, next, hi.moved_self, hname⟩
    · rcases h.nothingElse name node ((hsame name hname).symm.trans hnode)
        with htext | ⟨j, e, other, he, hname⟩
      · exact Or.inl htext
      · obtain ⟨after, he⟩ := hi.exists_moved he
        exact Or.inr ⟨j, e, after, he, hname⟩
  stored := by
    intro u b hb
    obtain ⟨j, e, he, hid, hbytes⟩ := h.stored u b hb
    by_cases hj : j = i
    · subst hj
      obtain ⟨rfl, hstage⟩ := Prod.mk.inj (Option.some.inj (hi.symm.trans he))
      have hnext := hended _ hstage
      subst hnext
      exact ⟨j, d, hi.moved_self, hid, hbytes⟩
    · exact ⟨j, e, he.moved_of_ne hj, hid, hbytes⟩

/-- An upload begins that has no file. -/
theorem join (h : Mirrors x y) {d : Upload σ} {stage : UploadStage σ}
    (hnew : ∀ i e other, x.Has i e other → e.id ≠ d.id) (hat : d.IsAt stage)
    (hfile : stage.file? = none) :
    Mirrors (x.joined x.kept d stage) (y.joined y.kept d stage) where
  uploads := congrArg (· ++ [(d, stage)]) h.uploads
  apart := by
    intro i j e f other other' he hf hid
    rcases Depository.has_of_joined he with hold | ⟨rfl, rfl, -⟩
    · rcases Depository.has_of_joined hf with hold' | ⟨-, rfl, -⟩
      · exact h.apart i j e f other other' hold hold' hid
      · exact absurd hid (hnew i e other hold)
    · rcases Depository.has_of_joined hf with hold' | ⟨rfl, -⟩
      · exact absurd hid.symm (hnew j f other' hold')
      · rfl
  sound := by
    intro i e other he
    rcases Depository.has_of_joined he with he | ⟨-, rfl, rfl⟩
    · exact h.sound i e other he
    · exact hat
  bound := h.bound
  pending := by
    intro i e other he
    rcases Depository.has_of_joined he with he | ⟨-, rfl, rfl⟩
    · exact h.pending i e other he
    · exact (h.get?_temporaryName hnew).trans hfile.symm
  nothingElse := by
    intro name node hnode
    rcases h.nothingElse name node hnode with htext | ⟨i, e, other, he, hname⟩
    · exact Or.inl htext
    · exact Or.inr ⟨i, e, other, he.joined, hname⟩
  stored := by
    intro u b hb
    obtain ⟨i, e, he, hid, hbytes⟩ := h.stored u b hb
    exact ⟨i, e, he.joined, hid, hbytes⟩

/-- An upload that has succeeded is bound in both. -/
theorem bind (h : Mirrors x y) {i : Nat} {d : Upload σ}
    (hi : x.Has i d (.ended (.ok d.id.text))) (created : Timestamp) :
    Mirrors { x with kept := ⟨x.kept.root.set d.id.text (.file (content d.stream) created)⟩ }
      { y with kept := y.kept.insert d.id (content d.stream, created) } where
  uploads := h.uploads
  apart := h.apart
  sound := h.sound
  bound := by
    intro u
    show (x.kept.root.set d.id.text _).get? u.text = ((y.kept.insert d.id _).lookup u).map _
    by_cases hu : u = d.id
    · subst hu
      rw [Directory.get?_set_self, Finmap.lookup_insert]
      rfl
    · rw [Directory.get?_set_of_ne _ _ fun heq => hu (Uuid.text_injective heq),
        Finmap.lookup_insert_of_ne _ hu, h.bound]
  pending := by
    intro j e other he
    refine Eq.trans ?_ (h.pending j e other he)
    exact Directory.get?_set_of_ne _ _ (BlobStore.text_ne_temporaryName d.id e.id).symm
  nothingElse := by
    intro name node hnode
    by_cases hname : name = d.id.text
    · exact Or.inl ⟨d.id, hname⟩
    · exact h.nothingElse name node ((Directory.get?_set_of_ne _ _ hname).symm.trans hnode)
  stored := by
    intro u b hb
    by_cases hu : u = d.id
    · subst hu
      obtain rfl := Option.some.inj ((Finmap.lookup_insert y.kept).symm.trans hb)
      exact ⟨i, d, hi, rfl, rfl⟩
    · exact h.stored u b ((Finmap.lookup_insert_of_ne _ hu).symm.trans hb)

/-- A stream that is stored with nothing in between is bound in both or in none. -/
theorem put (h : Mirrors x y) {d : Upload σ} (hnew : ∀ i e other, x.Has i e other → e.id ≠ d.id)
    (now : Timestamp) :
    (x.kept.put d.id now d.stream d.length).1 = (y.kept.put d now).1 ∧
    Mirrors (x.joined (x.kept.put d.id now d.stream d.length).2 d
        (.ended (x.kept.put d.id now d.stream d.length).1))
      (y.joined (y.kept.put d now).2 d (.ended (y.kept.put d now).1)) := by
  have hunused := Directory.erase_of_get? (h.get?_temporaryName hnew)
  have hjoin : Mirrors (x.joined x.kept d (.ended d.verdict))
      (y.joined y.kept d (.ended d.verdict)) := h.join hnew rfl rfl
  rw [d.put_eq_verdict, BlobMap.put, hunused]
  cases hverdict : d.verdict with
  | error e =>
      rw [hverdict] at hjoin
      exact ⟨rfl, hjoin⟩
  | ok ref =>
      obtain ⟨rfl, -⟩ := (d.verdict_eq_ok_iff ref).mp hverdict
      rw [hverdict] at hjoin
      exact ⟨rfl, hjoin.bind Depository.has_joined now⟩

/-- The next step of an upload is one of both. -/
theorem work (h : Mirrors x y) {i : Nat} {d : Upload σ} {stage : UploadStage σ}
    (hi : x.Has i d stage) (now : Timestamp) :
    Mirrors (x.moved (x.kept.perform d.id (d.advance now stage).2) i d (d.advance now stage).1)
      (y.moved (y.kept.perform d.id (d.advance now stage).2) i d (d.advance now stage).1) := by
  have hat := h.sound i d stage hi
  have hnext := d.isAt_advance now hat
  have hfile := h.pending i d stage hi
  cases stage with
  | called =>
      exact h.move hi hnext (fun _ heq => nomatch heq)
        (fun name hname => Directory.get?_set_of_ne _ _ hname) (Directory.get?_set_self _ _ _)
  | writing rest written created =>
      rcases d.advance_writing now rest written created with ⟨e, rest', -, hstep⟩
        | ⟨rest', e, -, -, hstep⟩ | ⟨rest', -, -, hstep⟩ | ⟨bytes, rest', -, -, hstep⟩
      · rw [hstep] at hnext ⊢
        exact h.move hi hnext (fun _ heq => nomatch heq) (fun _ _ => rfl) hfile
      · rw [hstep] at hnext ⊢
        exact h.move hi hnext (fun _ heq => nomatch heq) (fun _ _ => rfl) hfile
      · rw [hstep] at hnext ⊢
        exact h.move hi hnext (fun _ heq => nomatch heq) (fun _ _ => rfl) hfile
      · rw [hstep] at hnext ⊢
        have happend := Directory.append_of_get? hfile bytes
        refine h.move hi hnext (fun _ heq => nomatch heq) (fun name hname => ?_) ?_
        · rw [happend]
          exact Directory.get?_set_of_ne _ _ hname
        · rw [happend]
          exact Directory.get?_set_self _ _ _
  | complete written created =>
      obtain ⟨rfl, -⟩ := hat
      -- the file loses its name for writing, and then its blob is bound
      have hmove : Mirrors
          (x.moved ⟨x.kept.root.erase (BlobStore.temporaryName d.id)⟩ i d (.ended (.ok d.id.text)))
          (y.moved y.kept i d (.ended (.ok d.id.text))) :=
        h.move hi hnext (fun _ heq => nomatch heq)
          (fun name hname => Directory.get?_erase_of_ne _ hname) (Directory.get?_erase_self _ _)
      have hbind := hmove.bind hi.moved_self created
      have hrename : x.kept.root.rename (BlobStore.temporaryName d.id) d.id.text
          = (x.kept.root.erase (BlobStore.temporaryName d.id)).set d.id.text
            (.file (content d.stream) created) := by
        rw [Directory.rename, hfile]
        rfl
      show Mirrors (x.moved ⟨x.kept.root.rename _ _⟩ i d _) _
      rw [hrename]
      exact hbind
  | failed e written created =>
      exact h.move hi hnext (fun _ heq => nomatch heq)
        (fun name hname => Directory.get?_erase_of_ne _ hname) (Directory.get?_erase_self _ _)
  | ended result => exact h.move hi hnext (fun _ heq => heq) (fun _ _ => rfl) hfile

/-! ### Any event -/

/-- An event comes to the same in both. -/
theorem step (h : Mirrors x y) (e : BlobEvent σ)
    (hnew : ∀ u, e.fresh? = some u → ∀ i d stage, x.Has i d stage → d.id ≠ u) :
    (x.step e).1 = (y.step e).1 ∧ Mirrors (x.step e).2 (y.step e).2 := by
  cases e with
  | put d now =>
      obtain ⟨hanswer, hafter⟩ := h.put (hnew d.id rfl) now
      exact ⟨congrArg (fun r => BlobAnswer.stored (some r)) hanswer, hafter⟩
  | call d => exact ⟨rfl, h.join (hnew d.id rfl) trivial rfl⟩
  | work i now =>
      rw [Depository.step, Depository.step, h.uploads]
      cases hi : x.uploads[i]? with
      | none => exact ⟨rfl, h⟩
      | some reached => exact ⟨rfl, h.work hi now⟩
  | get ref => exact ⟨congrArg BlobAnswer.fetched (h.get_eq ref), h⟩
  | delete ref =>
      obtain ⟨hanswer, hafter⟩ := h.delete ref
      exact ⟨congrArg BlobAnswer.deleted hanswer, hafter⟩
  | list => exact ⟨congrArg BlobAnswer.listed h.list_eq, h⟩

/-- One event after the other comes to the same in both, as long as the UUIDs are
    fresh. -/
theorem run (h : Mirrors x y) {events : List (BlobEvent σ)}
    (hnodup : (events.filterMap BlobEvent.fresh?).Nodup)
    (hnew : ∀ u ∈ events.filterMap BlobEvent.fresh?, ∀ i d stage, x.Has i d stage → d.id ≠ u) :
    x.answers events = y.answers events ∧ Mirrors (x.after events) (y.after events) := by
  induction events generalizing x y with
  | nil => exact ⟨rfl, h⟩
  | cons e events ih =>
      have hfirst : ∀ u, e.fresh? = some u → u ∈ (e :: events).filterMap BlobEvent.fresh? :=
        fun u hu => List.mem_filterMap.mpr ⟨e, List.mem_cons_self, hu⟩
      obtain ⟨hanswer, hstep⟩ := h.step e fun u hu => hnew u (hfirst u hu)
      have hrest : (events.filterMap BlobEvent.fresh?).Nodup ∧
          ∀ u, e.fresh? = some u → u ∉ events.filterMap BlobEvent.fresh? := by
        rw [List.filterMap_cons] at hnodup
        cases hfresh : e.fresh? with
        | none =>
            rw [hfresh] at hnodup
            exact ⟨hnodup, fun u hu => nomatch hu⟩
        | some v =>
            rw [hfresh] at hnodup
            obtain ⟨hv, hnodup⟩ := List.nodup_cons.mp hnodup
            exact ⟨hnodup, fun u hu => Option.some.inj hu ▸ hv⟩
      obtain ⟨hanswers, hafter⟩ := ih hstep hrest.1 fun u hu i d stage hd => by
        rcases Depository.fresh_of_step hd with ⟨before, hd⟩ | hfresh
        · have hmem : u ∈ (e :: events).filterMap BlobEvent.fresh? := by
            obtain ⟨f, hf, hfu⟩ := List.mem_filterMap.mp hu
            exact List.mem_filterMap.mpr ⟨f, List.mem_cons_of_mem e hf, hfu⟩
          exact hnew u hmem i d before hd
        · rintro rfl
          exact hrest.2 _ hfresh hu
      refine ⟨?_, hafter⟩
      rw [Depository.answers, Depository.answers, hanswer, hanswers]

end Mirrors

/-! ## Names -/

/-- Whether a name has 36 digits and hyphens, so that it is one in the directory and
    not a way out of it. -/
def IsPlainName (name : String) : Prop :=
  name.toList.length = 36 ∧ ∀ c ∈ name.toList, c = '-' ∨ c ∈ "0123456789abcdef".toList

theorem Uuid.mem_hyphenated {cs : List Char} {c : Char} (h : c ∈ hyphenated cs) :
    c = '-' ∨ c ∈ cs := by
  simp only [hyphenated, List.mem_append, List.mem_cons] at h
  rcases h with (((h | h | h) | h | h) | h | h) | h | h
  · exact Or.inr (List.mem_of_mem_take h)
  · exact Or.inl h
  · exact Or.inr (List.mem_of_mem_drop (List.mem_of_mem_take h))
  · exact Or.inl h
  · exact Or.inr (List.mem_of_mem_drop (List.mem_of_mem_take h))
  · exact Or.inl h
  · exact Or.inr (List.mem_of_mem_drop (List.mem_of_mem_take h))
  · exact Or.inl h
  · exact Or.inr (List.mem_of_mem_drop h)

theorem isPlainName_text (u : Uuid) : IsPlainName u.text := by
  rw [IsPlainName, Uuid.text, String.toList_ofList]
  refine ⟨u.length_chars, fun c hc => ?_⟩
  exact (Uuid.mem_hyphenated hc).imp_right Text.hexChars_mem

/-- Whether reading and deleting by a reference is about one plain name at most. -/
structure BlobStore.Confines (s : BlobStore) (ref : String) : Prop where
  none : Uuid.parse? ref = none →
    s.get ref = .error (unknown ref) ∧ s.delete ref = (.error (unknown ref), s)
  plain : ∀ u, Uuid.parse? ref = some u → IsPlainName u.text
  read : ∀ u (t : BlobStore), Uuid.parse? ref = some u → t.root.get? u.text = s.root.get? u.text →
    t.get ref = s.get ref ∧ (t.delete ref).1 = (s.delete ref).1
  changed : ∀ u name, Uuid.parse? ref = some u → name ≠ u.text →
    (s.delete ref).2.root.get? name = s.root.get? name

theorem BlobStore.confines (s : BlobStore) (ref : String) : s.Confines ref := by
  constructor
  case none =>
    intro h
    rw [get, delete, fileName?, h]
    exact ⟨rfl, rfl⟩
  case plain => exact fun u _ => isPlainName_text u
  case read =>
    intro u t h hsame
    rw [get, get, delete, delete, fileName?, h, Option.map_some, Option.bind_eq_bind,
      Option.bind_some, Option.bind_some, hsame]
    refine ⟨rfl, ?_⟩
    simp only [hsame]
    cases s.root.get? u.text with
    | none => rfl
    | some node =>
        cases node with
        | folder => rfl
        | file bytes created => rfl
  case changed =>
    intro u name h hne
    rcases s.delete_cases ref with ⟨name', _, _, hname, -, hdelete⟩ | ⟨-, e, hdelete⟩
    · rw [hdelete]
      rw [fileName?, h] at hname
      cases hname
      exact Directory.get?_erase_of_ne _ hne
    · rw [hdelete]

/-! ## The store and the map -/

/-- Whether a stream ends cleanly, and has the length that was declared if one was. -/
def Upload.IsWhole {σ : Type} [ByteReader σ] [ReaderView σ] (d : Upload σ) : Prop :=
  ending d.stream = none ∧ ∀ n, d.length = some n → (content d.stream).length = n.toNat

/-- Whether storing a stream should have this result. -/
def Upload.Deserves {σ : Type} [ByteReader σ] [ReaderView σ] (d : Upload σ) :
    Attempt String → Prop
  | .ok ref => d.IsWhole ∧ ref = d.id.text
  | .error _ => ¬ d.IsWhole

theorem Upload.deserves_verdict {σ : Type} [ByteReader σ] [ReaderView σ] (d : Upload σ) :
    d.Deserves d.verdict := by
  cases hverdict : d.verdict with
  | ok ref =>
      obtain ⟨href, hwhole⟩ := (d.verdict_eq_ok_iff ref).mp hverdict
      exact ⟨hwhole, href⟩
  | error e =>
      intro hwhole
      cases hverdict.symm.trans ((d.verdict_eq_ok_iff _).mpr ⟨rfl, hwhole⟩)

/-- Only a step of an upload that is complete binds anything. -/
theorem BlobMap.perform_eq_self {σ : Type} [ByteReader σ] (m : BlobMap) (d : Upload σ)
    {stage : UploadStage σ} (h : ∀ written created, stage ≠ .complete written created)
    (now : Timestamp) :
    m.perform d.id (d.advance now stage).2 = m := by
  cases stage with
  | called => rfl
  | complete written created => exact absurd rfl (h written created)
  | failed e written created => rfl
  | ended result => rfl
  | writing rest written created =>
      rcases d.advance_writing now rest written created with ⟨e, rest', -, hstep⟩
        | ⟨rest', e, -, -, hstep⟩ | ⟨rest', -, -, hstep⟩ | ⟨bytes, rest', -, -, hstep⟩
      all_goals
        rw [hstep]
        rfl

section Run

variable {σ : Type} [ByteReader σ] [ReaderView σ]

/-- The UUIDs that events take for new blobs. -/
def freshIn (events : List (BlobEvent σ)) : List Uuid := events.filterMap BlobEvent.fresh?

/-- The directory and all uploads after these events, and none before. -/
def directoryAfter (events : List (BlobEvent σ)) : Depository σ BlobStore :=
  (⟨.empty, []⟩ : Depository σ BlobStore).after events

/-- What the map binds after these events, and none before. -/
def boundAfter (events : List (BlobEvent σ)) : BlobMap :=
  ((⟨∅, []⟩ : Depository σ BlobMap).after events).kept

/-- What the store makes of a sequence of events. -/
structure BlobsActAsMap (events : List (BlobEvent σ)) : Prop where
  /-- The answers are those of a map. -/
  answers : (⟨.empty, []⟩ : Depository σ BlobStore).answers events
    = (⟨∅, []⟩ : Depository σ BlobMap).answers events
  /-- There are the files of what is bound, and of uploads under way. -/
  directory : ∀ (name : String) (node : Node),
    (directoryAfter events).kept.root.get? name = some node ↔
    (∃ u b, (boundAfter events).lookup u = some b ∧ name = u.text ∧ node = .file b.1 b.2) ∨
    ∃ i d stage, (directoryAfter events).Has i d stage ∧
      name = BlobStore.temporaryName d.id ∧ stage.file? = some node
  /-- What is bound is all of a stream that was stored under the reference. -/
  whole : ∀ (u : Uuid) (b : Bytes × Timestamp), (boundAfter events).lookup u = some b →
    ∃ i d, (directoryAfter events).Has i d (.ended (.ok u.text)) ∧ d.id = u ∧
      d.IsWhole ∧ b.1 = content d.stream
  /-- Storing under a fresh UUID binds all of the stream, or leaves the directory as
  it was. -/
  put : ∀ (d : Upload σ) (now : Timestamp), d.id ∉ freshIn events →
    d.Deserves ((directoryAfter events).kept.put d.id now d.stream d.length).1 ∧
    (boundAfter events).lookup d.id = none ∧
    (d.IsWhole → boundAfter (events ++ [.put d now])
      = (boundAfter events).insert d.id (content d.stream, now)) ∧
    (¬ d.IsWhole → boundAfter (events ++ [.put d now]) = boundAfter events ∧
      ((directoryAfter events).kept.put d.id now d.stream d.length).2
        = (directoryAfter events).kept)
  /-- Storing a stream step by step with nothing in between is storing it. -/
  steps : ∀ (d : Upload σ) now k, ByteReader.left d.stream + 3 ≤ k →
    d.proceed now k (.called, (directoryAfter events).kept)
      = (.ended ((directoryAfter events).kept.put d.id now d.stream d.length).1,
        ((directoryAfter events).kept.put d.id now d.stream d.length).2)
  /-- With enough steps and whatever in between, an upload ends as it should. -/
  ends : ∀ (i : Nat) (d : Upload σ) (stage : UploadStage σ) (more : List (BlobEvent σ)),
    (directoryAfter events).Has i d stage →
    (freshIn (events ++ more)).Nodup → d.rank stage ≤ more.countP (BlobEvent.isWorkOn i) →
    ∃ result, (directoryAfter (events ++ more)).Has i d (.ended result) ∧ d.Deserves result
  /-- No step of an upload is seen but the one that gives a complete file its name. -/
  unseen : ∀ (i : Nat) (d : Upload σ) (stage : UploadStage σ) (now : Timestamp),
    (directoryAfter events).Has i d stage →
    (∀ written created, stage ≠ .complete written created) →
    boundAfter (events ++ [.work i now]) = boundAfter events ∧
    (∀ ref, (directoryAfter (events ++ [.work i now])).kept.get ref
      = (directoryAfter events).kept.get ref) ∧
    ((directoryAfter (events ++ [.work i now])).kept.list : Multiset FoundBlob)
      = (directoryAfter events).kept.list
  /-- This one binds all of the stream to a reference that was not bound. -/
  seen : ∀ (i : Nat) (d : Upload σ) (written : Bytes) (created now : Timestamp),
    (directoryAfter events).Has i d (.complete written created) →
    d.IsWhole ∧ (boundAfter events).lookup d.id = none ∧
    boundAfter (events ++ [.work i now])
      = (boundAfter events).insert d.id (content d.stream, created)
  /-- No reference leads out of the directory. -/
  confined : ∀ ref, (directoryAfter events).kept.Confines ref

theorem mirrors_after {events : List (BlobEvent σ)} (h : (freshIn events).Nodup) :
    Mirrors (directoryAfter events) ((⟨∅, []⟩ : Depository σ BlobMap).after events) :=
  (Mirrors.empty.run h fun _ _ _ _ _ hd => nomatch hd).2

/-- The UUIDs of all uploads were taken by events. -/
theorem Depository.Has.mem_freshIn {events : List (BlobEvent σ)} {i : Nat} {d : Upload σ}
    {stage : UploadStage σ} (h : (directoryAfter events).Has i d stage) :
    d.id ∈ freshIn events := by
  induction events using List.reverseRecOn generalizing stage with
  | nil => cases h
  | append_singleton events event ih =>
      rw [freshIn, List.filterMap_append, List.mem_append]
      rw [directoryAfter, Depository.after_append] at h
      rcases Depository.fresh_of_step h with ⟨before, h⟩ | hfresh
      · exact Or.inl (ih h)
      · exact Or.inr (List.mem_filterMap.mpr ⟨event, List.mem_singleton_self _, hfresh⟩)

theorem boundAfter_concat (events : List (BlobEvent σ)) (event : BlobEvent σ) :
    boundAfter (events ++ [event])
      = (((⟨∅, []⟩ : Depository σ BlobMap).after events).step event).2.kept := by
  rw [boundAfter, Depository.after_append]
  rfl

/-- What a step of an upload binds is told by its change. -/
theorem boundAfter_work {events : List (BlobEvent σ)} (h : (freshIn events).Nodup) {i : Nat}
    {d : Upload σ} {stage : UploadStage σ} (hi : (directoryAfter events).Has i d stage)
    (now : Timestamp) :
    boundAfter (events ++ [.work i now])
      = BlobMap.perform (boundAfter events) d.id (d.advance now stage).2 := by
  have hi' : ((⟨∅, []⟩ : Depository σ BlobMap).after events).uploads[i]? = some (d, stage) :=
    (mirrors_after h).uploads ▸ hi
  rw [boundAfter_concat, Depository.step, hi']
  rfl

/-- What no upload was stored under is not bound. -/
theorem lookup_boundAfter_eq_none {events : List (BlobEvent σ)} (h : (freshIn events).Nodup)
    {u : Uuid} (hnot : ∀ i d, (directoryAfter events).Has i d (.ended (.ok u.text)) → d.id ≠ u) :
    (boundAfter events).lookup u = none := by
  cases hlookup : (boundAfter events).lookup u with
  | none => rfl
  | some b =>
      obtain ⟨i, d, hi, hid, -⟩ := (mirrors_after h).stored u b hlookup
      exact absurd hid (hnot i d hi)

/-- Storing under a fresh UUID binds all of the stream, or leaves the directory as it
    was. -/
theorem put_after {events : List (BlobEvent σ)} (h : (freshIn events).Nodup) {d : Upload σ}
    (hfresh : d.id ∉ freshIn events) (now : Timestamp) :
    d.Deserves ((directoryAfter events).kept.put d.id now d.stream d.length).1 ∧
    (boundAfter events).lookup d.id = none ∧
    (d.IsWhole → boundAfter (events ++ [.put d now])
      = (boundAfter events).insert d.id (content d.stream, now)) ∧
    (¬ d.IsWhole → boundAfter (events ++ [.put d now]) = boundAfter events ∧
      ((directoryAfter events).kept.put d.id now d.stream d.length).2
        = (directoryAfter events).kept) := by
  have hnew : ∀ i e stage, (directoryAfter events).Has i e stage → e.id ≠ d.id :=
    fun i e stage he heq => hfresh (heq ▸ he.mem_freshIn)
  have hunused := Directory.erase_of_get? ((mirrors_after h).get?_temporaryName hnew)
  rw [d.put_eq_verdict, boundAfter_concat]
  refine ⟨d.deserves_verdict, lookup_boundAfter_eq_none h fun i e he => hnew i e _ he, ?_, ?_⟩
  · intro hwhole
    show (BlobMap.put (boundAfter events) d now).2 = _
    rw [BlobMap.put, (d.verdict_eq_ok_iff d.id.text).mpr ⟨rfl, hwhole⟩]
  · intro hpart
    have hdeserves := d.deserves_verdict
    show (BlobMap.put (boundAfter events) d now).2 = _ ∧ _
    rw [BlobMap.put]
    cases hverdict : d.verdict with
    | ok ref =>
        rw [hverdict] at hdeserves
        exact absurd hdeserves.1 hpart
    | error e => exact ⟨rfl, congrArg BlobStore.mk hunused⟩

/-- A step of an upload that is not complete is not seen. -/
theorem unseen_after {events : List (BlobEvent σ)} (h : (freshIn events).Nodup) {i : Nat}
    {d : Upload σ} {stage : UploadStage σ} (hi : (directoryAfter events).Has i d stage)
    (hstage : ∀ written created, stage ≠ .complete written created) (now : Timestamp) :
    boundAfter (events ++ [.work i now]) = boundAfter events ∧
    (∀ ref, (directoryAfter (events ++ [.work i now])).kept.get ref
      = (directoryAfter events).kept.get ref) ∧
    ((directoryAfter (events ++ [.work i now])).kept.list : Multiset FoundBlob)
      = (directoryAfter events).kept.list := by
  have hmirrors := mirrors_after h
  have hfresh : (freshIn (events ++ [.work i now])).Nodup := by
    rw [freshIn, List.filterMap_append]
    exact (List.append_nil (freshIn events)).symm ▸ h
  have hnext := mirrors_after hfresh
  have hbound : boundAfter (events ++ [.work i now]) = boundAfter events := by
    rw [boundAfter_work h hi now, BlobMap.perform_eq_self _ d hstage now]
  refine ⟨hbound, fun ref => ?_, ?_⟩
  · exact (hnext.get_eq ref).trans ((congrArg (BlobMap.get · ref) hbound).trans
      (hmirrors.get_eq ref).symm)
  · exact hnext.list_eq.trans ((congrArg BlobMap.list hbound).trans hmirrors.list_eq.symm)

/-- The last step of an upload that is complete binds all of its stream. -/
theorem seen_after {events : List (BlobEvent σ)} (h : (freshIn events).Nodup) {i : Nat}
    {d : Upload σ} {written : Bytes} {created : Timestamp}
    (hi : (directoryAfter events).Has i d (.complete written created)) (now : Timestamp) :
    d.IsWhole ∧ (boundAfter events).lookup d.id = none ∧
    boundAfter (events ++ [.work i now])
      = (boundAfter events).insert d.id (content d.stream, created) := by
  have hmirrors := mirrors_after h
  obtain ⟨hwritten, hverdict⟩ : written = content d.stream ∧ d.verdict = .ok d.id.text :=
    hmirrors.sound i d _ hi
  refine ⟨((d.verdict_eq_ok_iff _).mp hverdict).2,
    lookup_boundAfter_eq_none h fun j e he hid => ?_, ?_⟩
  · -- it would be the same upload, which has not ended
    obtain rfl := hmirrors.apart i j d e _ _ hi he hid.symm
    cases hi.symm.trans he
  · rw [boundAfter_work h hi now, hwritten]
    rfl

/-- The store acts as a map in which a blob appears when its file gets its name. -/
theorem blobs_act_as_map (events : List (BlobEvent σ)) (h : (freshIn events).Nodup) :
    BlobsActAsMap events where
  answers := (Mirrors.empty.run h fun _ _ _ _ _ hd => nomatch hd).1
  directory := (mirrors_after h).directory_iff
  whole := by
    intro u b hb
    obtain ⟨i, d, hi, hid, hbytes⟩ := (mirrors_after h).stored u b hb
    have hverdict : .ok u.text = d.verdict := (mirrors_after h).sound i d _ hi
    exact ⟨i, d, hi, hid, ((d.verdict_eq_ok_iff _).mp hverdict.symm).2, hbytes⟩
  put := fun _ now hfresh => put_after h hfresh now
  steps := fun d now _ hk => d.proceed_eq_put _ now hk
  ends := by
    intro i d stage more hi hnodup hwork
    obtain ⟨result, hresult⟩ := hi.after hwork
    rw [directoryAfter, ← Depository.after_append] at hresult
    have hverdict : result = d.verdict := (mirrors_after hnodup).sound i d _ hresult
    exact ⟨result, hresult, hverdict ▸ d.deserves_verdict⟩
  unseen := fun _ _ _ now hi hstage => unseen_after h hi hstage now
  seen := fun _ _ _ _ now hi => seen_after h hi now
  confined := fun ref => BlobStore.confines _ ref

end Run

namespace Sample

/-- When everything happens. -/
def someDay : Timestamp := .midnight ⟨2021, 5, 17, by decide, by decide, by decide⟩

/-- Two bytes that come one by one. -/
def note : Upload Source := ⟨.ofNat 1, { data := [104, 105], sizes := [1] }, some 2⟩

/-- Two bytes where three were declared. -/
def cutOff : Upload Source := ⟨.ofNat 2, { data := [104, 105] }, some 3⟩

/-- A blob is read, listed and deleted, while another one is stored and then is not. -/
def sharing : List (BlobEvent Source) :=
  [.call cutOff, .work 0 someDay, .put note someDay, .work 0 someDay, .list, .get "x",
    .work 0 someDay, .work 0 someDay, .delete note.id.text, .delete note.id.text]

end Sample

/-- The blob is there from when it is stored until it is deleted, and the other one
    never is. -/
theorem blobs_act_as_map_of_sharing :
    (freshIn Sample.sharing).Nodup ∧ BlobsActAsMap Sample.sharing ∧
    (⟨.empty, []⟩ : Depository Source BlobStore).answers Sample.sharing =
      [.stored none, .stored none, .stored (some (.ok Sample.note.id.text)), .stored none,
        .listed {⟨Sample.note.id.text, Sample.someDay⟩}, .fetched (.error (.notFound "blob x")),
        .stored none, .stored (some (.error (.storage "expected 3 bytes, received 2"))),
        .deleted (.ok ()), .deleted (.error (.notFound ("blob " ++ Sample.note.id.text)))] := by
  have hfresh : (freshIn Sample.sharing).Nodup := by decide
  have hmap := blobs_act_as_map Sample.sharing hfresh
  exact ⟨hfresh, hmap, hmap.answers.trans rfl⟩

end ContentVault
