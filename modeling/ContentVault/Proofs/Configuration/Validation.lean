import ContentVault.Configuration.Basic

/-! # What validation asks for

    `validate` goes through its checks one after the other and stops at the first
    that fails.  Here is what all of them together ask for (`IsSound`), in no
    order: a configuration is accepted exactly if it is sound
    (`validate_eq_ok_iff`), and anything else is refused with an error. -/

namespace ContentVault

theorem DerivationParameters.validate_eq_ok_iff (p : DerivationParameters) :
    p.validate = .ok () ↔ p.complaint? = none := by
  rw [validate]
  cases p.complaint? with
  | none => exact iff_of_true rfl rfl
  | some reason => exact iff_of_false (fun h => nomatch h) fun h => nomatch h

namespace Configuration

/-- What makes a configuration acceptable. -/
structure IsSound (c : Configuration) : Prop where
  intervals : ∀ e ∈ c.intervals, e.2 ≠ 0
  workers : c.workerCount ≠ 0
  buffer : c.teeBufferSize ≠ 0
  chunk_pos : c.cipherChunkSize ≠ 0
  chunk_le : c.cipherChunkSize.toNat ≤ largestChunk
  apart : (c.keyVersions.map KeyVersion.version).Nodup
  bounded : ∀ e ∈ c.keyVersions, e.kdf.complaint? = none
  active : c.activeKeyVersion ∈ c.keyVersions.map KeyVersion.version

/-! ## One check after the other -/

theorem checkIntervals_eq_ok_iff (intervals : List (String × UInt64)) :
    checkIntervals intervals = .ok () ↔ ∀ e ∈ intervals, e.2 ≠ 0 := by
  induction intervals with
  | nil => exact iff_of_true rfl fun _ h => nomatch h
  | cons e rest ih =>
      obtain ⟨name, secs⟩ := e
      rw [checkIntervals, List.forall_mem_cons]
      by_cases hzero : secs = 0
      · rw [if_pos hzero]
        exact iff_of_false (fun h => nomatch h) fun h => h.1 hzero
      · rw [if_neg hzero, ih]
        exact (and_iff_right hzero).symm

theorem checkSizes_eq_ok_iff (c : Configuration) :
    c.checkSizes = .ok () ↔ c.workerCount ≠ 0 ∧ c.teeBufferSize ≠ 0 ∧ c.cipherChunkSize ≠ 0 ∧
      c.cipherChunkSize.toNat ≤ largestChunk := by
  rw [checkSizes]
  by_cases hworkers : c.workerCount = 0
  · rw [if_pos hworkers]
    exact iff_of_false (fun h => nomatch h) fun h => h.1 hworkers
  · rw [if_neg hworkers, and_iff_right hworkers]
    by_cases hbuffer : c.teeBufferSize = 0
    · rw [if_pos hbuffer]
      exact iff_of_false (fun h => nomatch h) fun h => h.1 hbuffer
    · rw [if_neg hbuffer, and_iff_right hbuffer]
      by_cases hchunk : c.cipherChunkSize = 0 ∨ largestChunk < c.cipherChunkSize.toNat
      · rw [if_pos hchunk]
        refine iff_of_false (fun h => nomatch h) fun h => ?_
        exact hchunk.elim h.1 (Nat.not_lt.mpr h.2)
      · rw [if_neg hchunk]
        obtain ⟨hpos, hle⟩ := not_or.mp hchunk
        exact iff_of_true rfl ⟨hpos, Nat.not_lt.mp hle⟩

/-- Versions are checked against those before them. -/
theorem checkVersions_eq_ok_iff (seen : List UInt32) (entries : List KeyVersion) :
    checkVersions seen entries = .ok () ↔
      (entries.map KeyVersion.version).Nodup ∧ (∀ e ∈ entries, e.version ∉ seen) ∧
      ∀ e ∈ entries, e.kdf.complaint? = none := by
  induction entries generalizing seen with
  | nil => exact iff_of_true rfl ⟨List.nodup_nil, fun _ h => (nomatch h), fun _ h => nomatch h⟩
  | cons e rest ih =>
      rw [checkVersions, List.map_cons, List.nodup_cons, List.forall_mem_cons,
        List.forall_mem_cons]
      by_cases hseen : e.version ∈ seen
      · rw [if_pos hseen]
        exact iff_of_false (fun h => nomatch h) fun h => h.2.1.1 hseen
      · rw [if_neg hseen]
        cases hkdf : e.kdf.validate with
        | error f =>
            refine iff_of_false (fun h => nomatch h) fun h => ?_
            cases hkdf.symm.trans ((e.kdf.validate_eq_ok_iff).mpr h.2.2.1)
        | ok u =>
            have hbounded := (e.kdf.validate_eq_ok_iff).mp hkdf
            simp only [ih, List.mem_cons, not_or, List.mem_map, not_exists, not_and]
            constructor
            · rintro ⟨hapart, hnew, hrest⟩
              exact ⟨⟨fun d hd => (hnew d hd).1, hapart⟩,
                ⟨hseen, fun d hd => (hnew d hd).2⟩, hbounded, hrest⟩
            · rintro ⟨⟨hother, hapart⟩, ⟨-, hnew⟩, -, hrest⟩
              exact ⟨hapart, fun d hd => ⟨hother d hd, hnew d hd⟩, hrest⟩

theorem checkActive_eq_ok_iff (c : Configuration) :
    c.checkActive = .ok () ↔ c.activeKeyVersion ∈ c.keyVersions.map KeyVersion.version := by
  rw [checkActive]
  by_cases hactive : c.activeKeyVersion ∈ c.keyVersions.map KeyVersion.version
  · rw [if_pos hactive]
    exact iff_of_true rfl hactive
  · rw [if_neg hactive]
    exact iff_of_false (fun h => nomatch h) hactive

/-! ## All checks -/

/-- Two checks one after the other both have to succeed. -/
theorem both_eq_ok_iff {x : Attempt Unit} {y : Unit → Attempt Unit} :
    (x >>= y) = .ok () ↔ x = .ok () ∧ y () = .ok () := by
  cases x with
  | error e => exact iff_of_false (fun h => nomatch h) fun h => nomatch h.1
  | ok u => exact (and_iff_right rfl).symm

/-- Exactly the sound configurations are accepted. -/
theorem validate_eq_ok_iff (c : Configuration) : c.validate = .ok () ↔ c.IsSound := by
  rw [validate, both_eq_ok_iff, both_eq_ok_iff, both_eq_ok_iff, checkIntervals_eq_ok_iff,
    checkSizes_eq_ok_iff, checkVersions_eq_ok_iff, checkActive_eq_ok_iff]
  constructor
  · rintro ⟨hintervals, ⟨hworkers, hbuffer, hpos, hle⟩, ⟨hapart, -, hbounded⟩, hactive⟩
    exact ⟨hintervals, hworkers, hbuffer, hpos, hle, hapart, hbounded, hactive⟩
  · intro h
    exact ⟨h.intervals, ⟨h.workers, h.buffer, h.chunk_pos, h.chunk_le⟩,
      ⟨h.apart, fun _ _ => List.not_mem_nil, h.bounded⟩, h.active⟩

/-- What is not sound is refused. -/
theorem exists_validate_eq_error {c : Configuration} (h : ¬ c.IsSound) :
    ∃ e, c.validate = .error e := by
  cases hvalid : c.validate with
  | error e => exact ⟨e, rfl⟩
  | ok u => exact absurd (c.validate_eq_ok_iff.mp hvalid) h

end Configuration

end ContentVault
