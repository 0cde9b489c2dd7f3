import ContentVault.Archiver.Basic
import ContentVault.Jobs.Rules
import ContentVault.Proofs.Configuration.Validation
import ContentVault.Proofs.Derivation.Keys
import Mathlib.Data.List.Induction

/-! # What is accepted can be used as it is configured

    The rules for settings are kept in several places: validation goes through the
    key versions as they are listed, a key table through those that are left when
    of a repeated one the last counts, the derivation functions have limits of
    their own, and sizes that are out of range are changed into the next that is
    not.  For settings that are accepted none of these finds anything to refuse or
    to change (`IsUsable`).

    A table holds the last entry of each version (`get?_ofList`), so with versions
    that do not repeat it holds what is listed (`get?_ofList_eq_some_iff`).  Where a
    version repeats, the entries before the last one count for nothing
    (`get?_ofList_cons`), whatever their parameters: only validation sees them.

    Main statement: `usable_if_accepted`. -/

namespace ContentVault

/-! ## Tables of key versions -/

namespace KeyVersions

theorem lookup_cons_eq (version : UInt32) (p : DerivationParameters)
    (entries : List (UInt32 × DerivationParameters)) (v : UInt32) :
    List.lookup v ((version, p) :: entries) = if v = version then some p else entries.lookup v := by
  rw [List.lookup_cons]
  by_cases hv : v = version
  · rw [if_pos hv, beq_iff_eq.mpr hv]
  · rw [if_neg hv, beq_false_of_ne hv]

/-- What is registered for a version counts for this one. -/
theorem get?_insert (version : UInt32) (p : DerivationParameters) (versions : KeyVersions)
    (v : UInt32) :
    (insert version p versions).get? v = if v = version then some p else versions.get? v := by
  unfold get?
  induction versions with
  | nil => exact lookup_cons_eq version p [] v
  | cons entry rest ih =>
      obtain ⟨w, q⟩ := entry
      rw [insert]
      by_cases hlt : version < w
      · rw [if_pos hlt, lookup_cons_eq]
      · rw [if_neg hlt]
        by_cases heq : version = w
        · subst heq
          rw [if_pos rfl, lookup_cons_eq, lookup_cons_eq]
          by_cases hv : v = version
          · rw [if_pos hv, if_pos hv]
          · rw [if_neg hv, if_neg hv, if_neg hv]
        · rw [if_neg heq, lookup_cons_eq, lookup_cons_eq, ih]
          by_cases hv : v = version
          · subst hv
            rw [if_neg heq, if_pos rfl, if_pos rfl]
          · rw [if_neg hv, if_neg hv]

theorem mem_insert {version : UInt32} {p : DerivationParameters} {versions : KeyVersions}
    {entry : UInt32 × DerivationParameters} (h : entry ∈ insert version p versions) :
    entry = (version, p) ∨ entry ∈ versions := by
  induction versions with
  | nil => exact Or.inl (List.mem_singleton.mp h)
  | cons first rest ih =>
      obtain ⟨w, q⟩ := first
      rw [insert] at h
      split at h
      · exact List.mem_cons.mp h
      · split at h
        · exact (List.mem_cons.mp h).imp_right (List.mem_cons_of_mem _)
        · rcases List.mem_cons.mp h with h | h
          · exact Or.inr (h ▸ List.mem_cons_self)
          · exact (ih h).imp_right (List.mem_cons_of_mem _)

theorem ofList_concat (entries : List (UInt32 × DerivationParameters)) (version : UInt32)
    (p : DerivationParameters) :
    ofList (entries ++ [(version, p)]) = insert version p (ofList entries) :=
  List.foldl_append

/-- Of a repeated version the last entry counts. -/
theorem get?_ofList (entries : List (UInt32 × DerivationParameters)) (version : UInt32) :
    (ofList entries).get? version = entries.reverse.lookup version := by
  induction entries using List.reverseRecOn with
  | nil => rfl
  | append_singleton entries entry ih =>
      obtain ⟨v, p⟩ := entry
      rw [ofList_concat, get?_insert, ih, List.reverse_append]
      exact (lookup_cons_eq v p entries.reverse version).symm

/-- If no version is repeated, a table holds what is listed. -/
theorem get?_ofList_eq_some_iff {entries : List (UInt32 × DerivationParameters)}
    (h : (entries.map Prod.fst).Nodup) (version : UInt32) (p : DerivationParameters) :
    (ofList entries).get? version = some p ↔ (version, p) ∈ entries := by
  induction entries using List.reverseRecOn with
  | nil => exact iff_of_false (fun h => nomatch h) (fun h => nomatch h)
  | append_singleton entries entry ih =>
      obtain ⟨v, q⟩ := entry
      rw [List.map_append, List.nodup_append] at h
      rw [ofList_concat, get?_insert, List.mem_append, List.mem_singleton]
      by_cases hv : version = v
      · subst hv
        have hnot : (version, p) ∉ entries := fun hmem =>
          h.2.2 version (List.mem_map_of_mem hmem) version (List.mem_singleton_self _) rfl
        rw [if_pos rfl, or_iff_right hnot, Option.some.injEq, Prod.mk.injEq]
        exact ⟨fun heq => ⟨rfl, heq.symm⟩, fun heq => heq.2.symm⟩
      · rw [if_neg hv, ih h.1]
        exact (or_iff_left fun heq => hv (Prod.mk.inj heq).1).symm

/-! Versions stand in ascending order, so each entry is the one that counts. -/

theorem ascending_insert {versions : KeyVersions} (h : versions.Pairwise (·.1 < ·.1))
    (version : UInt32) (p : DerivationParameters) :
    (insert version p versions).Pairwise (·.1 < ·.1) := by
  induction versions with
  | nil => exact List.pairwise_singleton _ _
  | cons first rest ih =>
      obtain ⟨w, q⟩ := first
      obtain ⟨hleast, hrest⟩ := List.pairwise_cons.mp h
      rw [insert]
      split
      case isTrue hlt =>
        refine List.pairwise_cons.mpr ⟨fun e he => ?_, h⟩
        rcases List.mem_cons.mp he with rfl | he
        · exact hlt
        · exact UInt32.lt_trans hlt (hleast e he)
      case isFalse hge =>
        split
        case isTrue heq =>
          subst heq
          exact List.pairwise_cons.mpr ⟨hleast, hrest⟩
        case isFalse hne =>
          refine List.pairwise_cons.mpr ⟨fun e he => ?_, ih hrest⟩
          rcases mem_insert he with rfl | he
          · exact UInt32.lt_of_le_of_ne (UInt32.not_lt.mp hge) (Ne.symm hne)
          · exact hleast e he

theorem ascending_ofList (entries : List (UInt32 × DerivationParameters)) :
    (ofList entries).Pairwise (·.1 < ·.1) := by
  induction entries using List.reverseRecOn with
  | nil => exact List.Pairwise.nil
  | append_singleton entries last ih =>
      rw [ofList_concat]
      exact ascending_insert ih last.1 last.2

theorem get?_of_mem {versions : KeyVersions} (h : versions.Pairwise (·.1 < ·.1))
    {version : UInt32} {p : DerivationParameters} (hmem : (version, p) ∈ versions) :
    versions.get? version = some p := by
  obtain ⟨before, after, rfl⟩ := List.append_of_mem hmem
  refine List.lookup_eq_some_iff.mpr ⟨before, after, rfl, fun e he => ?_⟩
  have hlt := (List.pairwise_append.mp h).2.2 e he _ List.mem_cons_self
  exact bne_iff_ne.mpr (UInt32.ne_of_lt hlt).symm

/-- A table has no complaint exactly if what is registered has none. -/
theorem complaint?_ofList_iff (entries : List (UInt32 × DerivationParameters)) :
    (ofList entries).complaint? = none ↔
      ∀ version p, (ofList entries).get? version = some p → p.complaint? = none := by
  rw [complaint?, List.findSome?_eq_none_iff]
  constructor
  · intro h version p hget
    obtain ⟨before, after, hsplit, -⟩ := List.lookup_eq_some_iff.mp hget
    exact h (version, p) (hsplit ▸ List.mem_append_right _ List.mem_cons_self)
  · exact fun h e he => h e.1 e.2 (get?_of_mem (ascending_ofList entries) he)

/-- An entry before others with its version counts for nothing. -/
theorem get?_ofList_cons {entries : List (UInt32 × DerivationParameters)} {version : UInt32}
    (h : version ∈ entries.map Prod.fst) (p : DerivationParameters) (v : UInt32) :
    (ofList ((version, p) :: entries)).get? v = (ofList entries).get? v := by
  rw [get?_ofList, get?_ofList, List.reverse_cons, List.lookup_append]
  by_cases hv : v = version
  · subst hv
    cases hlookup : entries.reverse.lookup v with
    | some q => rfl
    | none =>
        obtain ⟨e, he, hfirst⟩ := List.mem_map.mp h
        have hother := List.lookup_eq_none_iff.mp hlookup e (List.mem_reverse.mpr he)
        exact absurd hfirst.symm (bne_iff_ne.mp hother)
  · have hnot : List.lookup v [(version, p)] = none := by
      rw [lookup_cons_eq, if_neg hv]
      rfl
    rw [hnot, Option.or_none]

end KeyVersions

/-- Entries without complaints that have the active version make a table. -/
theorem KeyTable.exists_ofEntries {entries : List (UInt32 × DerivationParameters)}
    {active : UInt32} (hsound : (KeyVersions.ofList entries).complaint? = none)
    (hknown : ((KeyVersions.ofList entries).get? active).isSome) :
    ∃ t, ofEntries entries active = .ok t := by
  refine ⟨⟨KeyVersions.ofList entries, active, hsound, hknown⟩, ?_⟩
  unfold ofEntries
  dsimp only
  split
  · rename_i reason hreason
    cases hsound.symm.trans hreason
  · rw [dif_pos hknown]

theorem KeyTable.versions_of_ofEntries {entries : List (UInt32 × DerivationParameters)}
    {active : UInt32} {t : KeyTable} (h : ofEntries entries active = .ok t) :
    t.versions = KeyVersions.ofList entries ∧ t.active = active := by
  unfold ofEntries at h
  dsimp only at h
  split at h
  · cases h
  · split at h
    · cases h
      exact ⟨rfl, rfl⟩
    · cases h

/-- What is registered is what the table gives for a version. -/
theorem KeyTable.parameters_eq_ok_iff (t : KeyTable) (version : UInt32)
    (p : DerivationParameters) :
    t.parameters version = .ok p ↔ t.versions.get? version = some p := by
  rw [parameters]
  cases t.versions.get? version with
  | none => exact iff_of_false (fun h => nomatch h) (fun h => nomatch h)
  | some q =>
      rw [Option.some.injEq]
      exact ⟨fun h => Except.ok.inj h, congrArg Except.ok⟩

/-! ## Sizes -/

/-- A size that is in range is not changed. -/
theorem ChunkSize.val_clamp {n : Nat} (hpos : 0 < n) (hle : n ≤ largestChunk) :
    (clamp n).val = n := by
  show max 1 (min n largestChunk) = n
  rw [Nat.min_eq_left hle, Nat.max_eq_right hpos]

theorem UInt64.toNat_pos_of_ne_zero {n : UInt64} (h : n ≠ 0) : 0 < n.toNat :=
  Nat.pos_of_ne_zero fun h0 => h (UInt64.toNat_inj.mp h0)

namespace Configuration

/-- What a configuration promises to those who use it. -/
structure IsUsable (c : Configuration) (t : KeyTable) : Prop where
  table : c.keyTable = .ok t
  active : t.active = c.activeKeyVersion
  resolved : ∃ p, t.parameters c.activeKeyVersion = .ok p
  parameters : ∀ version p, t.parameters version = .ok p ↔ ⟨version, p⟩ ∈ c.keyVersions
  unlisted : ∀ version, version ∉ c.keyVersions.map KeyVersion.version →
    t.parameters version
      = .error (.unsupportedAlgorithm ("key version " ++ toString version))
  /-- Every entry gives a key of 32 bytes, and nothing on the way to it refuses but
  for a length that its function does not take. -/
  keys : ∀ e ∈ c.keyVersions, ∀ secret salt : Bytes, leastSaltLength ≤ salt.length →
    ∃ key : Key, key.bytes.length = keyLength ∧
      (e.kdf.derive secret salt = .ok key ↔ e.kdf.Takes secret salt) ∧
      (¬e.kdf.Takes secret salt →
        ∃ reason, e.kdf.derive secret salt = .error (.keyDerivationFailed reason))
  chunk : c.chunkSize.val = c.cipherChunkSize.toNat
  workers : (JobRules.ofConfig c).workers = c.workerCount.toNat
  archiver : ∀ secret, ∃ a, Archiver.ofConfig c secret = .ok a ∧ a.keys = t ∧
    a.secret = secret ∧ a.cipher = c.cipher ∧ a.chunkSize.val = c.cipherChunkSize.toNat ∧
    a.hashAlgorithm = c.hashAlgorithm ∧ a.branchBuffer = c.teeBufferSize.toNat

/-- What a key table is made from. -/
def entries (c : Configuration) : List (UInt32 × DerivationParameters) :=
  c.keyVersions.map fun e => (e.version, e.kdf)

theorem entries_versions (c : Configuration) :
    c.entries.map Prod.fst = c.keyVersions.map KeyVersion.version :=
  List.map_map

theorem mem_entries_iff (c : Configuration) (version : UInt32) (p : DerivationParameters) :
    (version, p) ∈ c.entries ↔ ⟨version, p⟩ ∈ c.keyVersions := by
  constructor
  · intro h
    obtain ⟨e, he, heq⟩ := List.mem_map.mp h
    obtain ⟨rfl, rfl⟩ := Prod.mk.inj heq
    exact he
  · exact fun h => List.mem_map.mpr ⟨_, h, rfl⟩

/-! ## Accepted settings -/

variable {c : Configuration}

theorem IsSound.get?_ofList_iff (h : c.IsSound) (version : UInt32) (p : DerivationParameters) :
    (KeyVersions.ofList c.entries).get? version = some p ↔ ⟨version, p⟩ ∈ c.keyVersions := by
  have hapart : (c.entries.map Prod.fst).Nodup := c.entries_versions ▸ h.apart
  rw [KeyVersions.get?_ofList_eq_some_iff hapart, mem_entries_iff]

theorem IsSound.exists_active (h : c.IsSound) :
    ∃ p, (KeyVersions.ofList c.entries).get? c.activeKeyVersion = some p := by
  obtain ⟨e, he, hactive⟩ := List.mem_map.mp h.active
  exact ⟨e.kdf, (h.get?_ofList_iff _ _).mpr (hactive ▸ he)⟩

/-- Sound settings make a table. -/
theorem IsSound.exists_keyTable (h : c.IsSound) : ∃ t, c.keyTable = .ok t := by
  obtain ⟨p, hp⟩ := h.exists_active
  refine KeyTable.exists_ofEntries ?_ (Option.isSome_of_eq_some hp)
  rw [KeyVersions.complaint?_ofList_iff]
  exact fun version q hq => h.bounded ⟨version, q⟩ ((h.get?_ofList_iff version q).mp hq)

/-- An archiver takes over what is accepted as it is. -/
theorem IsSound.exists_archiver (h : c.IsSound) {t : KeyTable} (ht : c.keyTable = .ok t)
    (secret : RootSecret) :
    ∃ a, Archiver.ofConfig c secret = .ok a ∧ a.keys = t ∧ a.secret = secret ∧
      a.cipher = c.cipher ∧ a.chunkSize = c.chunkSize ∧ a.hashAlgorithm = c.hashAlgorithm ∧
      a.branchBuffer = c.teeBufferSize.toNat := by
  rw [Archiver.ofConfig, c.validate_eq_ok_iff.mpr h, Attempt.ok_bind, ht, Attempt.ok_bind]
  refine ⟨_, rfl, rfl, rfl, rfl, rfl, rfl, ?_⟩
  exact Nat.max_eq_right (UInt64.toNat_pos_of_ne_zero h.buffer)

theorem IsSound.exists_isUsable (h : c.IsSound) : ∃ t, c.IsUsable t := by
  obtain ⟨t, ht⟩ := h.exists_keyTable
  obtain ⟨hversions, hactive⟩ : t.versions = KeyVersions.ofList c.entries ∧
      t.active = c.activeKeyVersion := KeyTable.versions_of_ofEntries ht
  have hparameters : ∀ version p, t.parameters version = .ok p ↔
      ⟨version, p⟩ ∈ c.keyVersions := by
    intro version p
    rw [t.parameters_eq_ok_iff, hversions, h.get?_ofList_iff]
  have hchunk : c.chunkSize.val = c.cipherChunkSize.toNat :=
    ChunkSize.val_clamp (UInt64.toNat_pos_of_ne_zero h.chunk_pos) h.chunk_le
  refine ⟨t, ht, hactive, ?_, hparameters, ?_, ?_, hchunk, ?_, ?_⟩
  · obtain ⟨p, hp⟩ := h.exists_active
    exact ⟨p, (t.parameters_eq_ok_iff _ p).mpr (hversions ▸ hp)⟩
  · intro version hunlisted
    cases hget : t.versions.get? version with
    | none => rw [KeyTable.parameters, hget]
    | some p =>
        have hlisted := (hparameters version p).mp ((t.parameters_eq_ok_iff version p).mpr hget)
        exact absurd (List.mem_map_of_mem hlisted) hunlisted
  · intro e he secret salt hsalt
    have hbounded := h.bounded e he
    exact ⟨e.kdf.key secret salt, (e.kdf.key secret salt).length_bytes,
      DerivationParameters.derive_eq_ok_iff hbounded hsalt,
      DerivationParameters.derive_refused hbounded hsalt⟩
  · exact Nat.max_eq_right (UInt64.toNat_pos_of_ne_zero h.workers)
  · intro secret
    obtain ⟨a, ha, hkeys, hsecret, hcipher, hsize, hhash, hbuffer⟩ := h.exists_archiver ht secret
    exact ⟨a, ha, hkeys, hsecret, hcipher, hsize ▸ hchunk, hhash, hbuffer⟩

/-! ## What validation refuses and a table does not -/

/-- Puts an entry before those that are listed. -/
def shadowed (c : Configuration) (e : KeyVersion) : Configuration :=
  { c with keyVersions := e :: c.keyVersions }

/-- An entry whose version is listed again makes no difference to a table. -/
theorem IsSound.exists_keyTable_shadowed (h : c.IsSound) {t : KeyTable}
    (ht : t.versions = KeyVersions.ofList c.entries) {e : KeyVersion}
    (he : e.version ∈ c.keyVersions.map KeyVersion.version) :
    ∃ t', (c.shadowed e).keyTable = .ok t' ∧
      ∀ version, t'.parameters version = t.parameters version := by
  have hsame := KeyVersions.get?_ofList_cons (c.entries_versions.symm ▸ he) e.kdf
  obtain ⟨p, hp⟩ := h.exists_active
  have hsound : (KeyVersions.ofList ((e.version, e.kdf) :: c.entries)).complaint? = none := by
    rw [KeyVersions.complaint?_ofList_iff]
    intro version q hq
    rw [hsame, h.get?_ofList_iff] at hq
    exact h.bounded ⟨version, q⟩ hq
  obtain ⟨t', ht'⟩ := KeyTable.exists_ofEntries hsound
    (Option.isSome_of_eq_some ((hsame c.activeKeyVersion).trans hp))
  have hversions := (KeyTable.versions_of_ofEntries ht').1
  refine ⟨t', ht', fun version => ?_⟩
  rw [KeyTable.parameters, KeyTable.parameters, hversions, hsame, ht]

/-- What is accepted can be used; a repeated version, an active version that is
    not listed and parameters out of bounds are refused, although a table takes any
    parameters whose version is listed again with better ones. -/
theorem usable_if_accepted (c : Configuration) :
    (c.validate = .ok () → ∃ t, c.IsUsable t ∧
      ∀ e : KeyVersion, e.version ∈ c.keyVersions.map KeyVersion.version →
        (∃ f, (c.shadowed e).validate = .error f) ∧
        ∃ t', (c.shadowed e).keyTable = .ok t' ∧
          ∀ version, t'.parameters version = t.parameters version) ∧
    (¬ (c.keyVersions.map KeyVersion.version).Nodup ∨
      c.activeKeyVersion ∉ c.keyVersions.map KeyVersion.version ∨
      (∃ e ∈ c.keyVersions, e.kdf.complaint? ≠ none) → ∃ f, c.validate = .error f) := by
  refine ⟨fun hvalid => ?_, fun hwrong => exists_validate_eq_error fun h => ?_⟩
  · have h := c.validate_eq_ok_iff.mp hvalid
    obtain ⟨t, ht⟩ := h.exists_isUsable
    have hversions : t.versions = KeyVersions.ofList c.entries :=
      (KeyTable.versions_of_ofEntries ht.table).1
    refine ⟨t, ht, fun e he => ⟨exists_validate_eq_error fun hd => ?_,
      h.exists_keyTable_shadowed hversions he⟩⟩
    exact (List.nodup_cons.mp hd.apart).1 he
  · rcases hwrong with hrepeat | hunlisted | ⟨e, he, hcomplaint⟩
    · exact hrepeat h.apart
    · exact hunlisted h.active
    · exact hcomplaint (h.bounded e he)

end Configuration

namespace Sample

/-- Settings with two key versions, of which the later is listed first. -/
def twoVersions : Configuration where
  activeKeyVersion := 2
  keyVersions := [⟨2, .recommended .argon2⟩, ⟨1, .recommended .hkdf⟩]

end Sample

/-- Settings with two versions can be used, and with a weak entry for one of them
    put first they are refused, though there is a table. -/
theorem Configuration.usable_of_two_versions :
    Sample.twoVersions.validate = .ok () ∧ (∃ t, Sample.twoVersions.IsUsable t) ∧
    (∃ f, (Sample.twoVersions.shadowed ⟨1, .pbkdf2 1⟩).validate = .error f) ∧
    ∃ t, (Sample.twoVersions.shadowed ⟨1, .pbkdf2 1⟩).keyTable = .ok t ∧
      t.parameters 1 = .ok (.recommended .hkdf) := by
  have hvalid : Sample.twoVersions.validate = .ok () := rfl
  obtain ⟨t, ht, hshadowed⟩ := (usable_if_accepted Sample.twoVersions).1 hvalid
  obtain ⟨hrefused, t', ht', hsame⟩ := hshadowed ⟨1, .pbkdf2 1⟩ (by decide)
  refine ⟨hvalid, ⟨t, ht⟩, hrefused, t', ht', ?_⟩
  rw [hsame, ht.parameters]
  exact List.mem_cons_of_mem _ List.mem_cons_self

end ContentVault
