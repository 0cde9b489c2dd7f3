import ContentVault.Derivation.KeyTable

/-! # Keys of registered versions

    The bounds on parameters leave a derivation function only one reason to
    refuse: a secret or a salt that is too long for it (`derive_eq_ok_iff`).  A
    key table holds parameters within their bounds only, so a registered version
    gives a key for every salt that is long enough, or says that the function
    failed (`KeyTable.derive_eq`, `KeyTable.derive_refused`).  In particular only
    such a secret keeps new content from getting its key: fresh salts are long
    enough and not too long, and the active version is registered. -/

namespace ContentVault

namespace DerivationParameters

/-- Bounds on parameters leave nothing for Argon2 to refuse. -/
theorem refusal?_of_bounded {parallelism memoryKib iterations : UInt32}
    (h : (argon2 parallelism memoryKib iterations).complaint? = none) :
    Argon2.refusal? parallelism.toNat memoryKib.toNat iterations.toNat keyLength = none := by
  rw [complaint?] at h
  split at h
  · cases h
  · rename_i hmemory
    split at h
    · cases h
    · rename_i hlanes
      split at h
      · cases h
      · rename_i hpasses
        obtain ⟨hleast, -⟩ := not_or.mp hmemory
        obtain ⟨hsome, hmost⟩ := not_or.mp hlanes
        have hleast' : 65536 ≤ memoryKib.toNat :=
          UInt32.le_iff_toNat_le.mp (UInt32.not_lt.mp hleast)
        have hmost' : parallelism.toNat ≤ 16 := UInt32.le_iff_toNat_le.mp (UInt32.not_lt.mp hmost)
        have hsome' : parallelism.toNat ≠ 0 := fun h0 => hsome (UInt32.toNat_inj.mp h0)
        have hpasses' : iterations.toNat ≠ 0 := fun h0 => hpasses (UInt32.toNat_inj.mp h0)
        rw [Argon2.refusal?, if_neg (by omega), if_neg (by omega), if_neg (by omega),
          if_neg (by omega), if_neg (by decide), if_neg (by decide)]

theorem inputRefusal?_eq_none_iff {secret salt : Bytes} (hsalt : leastSaltLength ≤ salt.length) :
    Argon2.inputRefusal? secret.length salt.length = none ↔
      secret.length ≤ Argon2.longestInput ∧ salt.length ≤ Argon2.longestInput := by
  have henough : ¬ salt.length < 8 := Nat.not_lt.mpr hsalt
  rw [Argon2.inputRefusal?, if_neg henough]
  by_cases hsecret : Argon2.longestInput < secret.length
  · rw [if_pos hsecret]
    exact iff_of_false (fun h => nomatch h) fun h => Nat.not_lt.mpr h.1 hsecret
  · rw [if_neg hsecret]
    by_cases hlong : Argon2.longestInput < salt.length
    · rw [if_pos hlong]
      exact iff_of_false (fun h => nomatch h) fun h => Nat.not_lt.mpr h.2 hlong
    · rw [if_neg hlong]
      exact iff_of_true rfl ⟨Nat.not_lt.mp hsecret, Nat.not_lt.mp hlong⟩

/-- Within the bounds, with a salt that is long enough, all is up to the function. -/
theorem derive_eq_limitedKey {p : DerivationParameters} (hp : p.complaint? = none)
    (secret : Bytes) {salt : Bytes} (hsalt : leastSaltLength ≤ salt.length) :
    p.derive secret salt = p.limitedKey secret salt := by
  have hvalid : p.validate = .ok () := by
    unfold validate
    rw [hp]
  unfold derive
  rw [if_neg (Nat.not_lt.mpr hsalt), hvalid]

/-- What the function gives for lengths that it takes. -/
theorem derive_eq {p : DerivationParameters} (hp : p.complaint? = none) {secret salt : Bytes}
    (hsalt : leastSaltLength ≤ salt.length) (htakes : p.Takes secret salt) :
    p.derive secret salt = .ok (p.key secret salt) := by
  rw [derive_eq_limitedKey hp secret hsalt]
  cases p with
  | pbkdf2 iterations => rfl
  | hkdf info => rfl
  | argon2 parallelism memoryKib iterations =>
      simp only [limitedKey, refusal?_of_bounded hp, (inputRefusal?_eq_none_iff hsalt).mpr htakes]

/-- What it says to lengths that it does not take. -/
theorem derive_refused {p : DerivationParameters} (hp : p.complaint? = none) {secret salt : Bytes}
    (hsalt : leastSaltLength ≤ salt.length) (hnot : ¬p.Takes secret salt) :
    ∃ reason, p.derive secret salt = .error (.keyDerivationFailed reason) := by
  rw [derive_eq_limitedKey hp secret hsalt]
  cases p with
  | pbkdf2 iterations => exact absurd trivial hnot
  | hkdf info => exact absurd trivial hnot
  | argon2 parallelism memoryKib iterations =>
      rw [Takes, ← inputRefusal?_eq_none_iff hsalt] at hnot
      obtain ⟨reason, hreason⟩ := Option.ne_none_iff_exists'.mp hnot
      exact ⟨reason, by simp only [limitedKey, refusal?_of_bounded hp, hreason]⟩

/-- What is said to one salt is said to every salt of that length. -/
theorem derive_error_congr {p : DerivationParameters} {secret salt salt' : Bytes}
    (h : salt'.length = salt.length) {e : VaultFailure} (he : p.derive secret salt = .error e) :
    p.derive secret salt' = .error e := by
  unfold derive at he ⊢
  rw [h]
  by_cases hshort : salt.length < leastSaltLength
  · rw [if_pos hshort] at he ⊢
    exact he
  · rw [if_neg hshort] at he ⊢
    cases hvalid : p.validate with
    | error f =>
        rw [hvalid] at he
        exact he
    | ok u =>
        rw [hvalid] at he
        cases p with
        | pbkdf2 iterations => cases he
        | hkdf info => cases he
        | argon2 parallelism memoryKib iterations =>
            simp only [limitedKey, h] at he ⊢
            split at he
            · exact he
            · split at he
              · exact he
              · cases he

/-- Within the bounds only a length that a function does not take is in the way of
    a key. -/
theorem derive_eq_ok_iff {p : DerivationParameters} (hp : p.complaint? = none)
    {secret salt : Bytes} (hsalt : leastSaltLength ≤ salt.length) :
    p.derive secret salt = .ok (p.key secret salt) ↔ p.Takes secret salt := by
  refine ⟨fun hkey => Decidable.byContradiction fun hnot => ?_, derive_eq hp hsalt⟩
  obtain ⟨reason, hrefused⟩ := derive_refused hp hsalt hnot
  cases hkey.symm.trans hrefused

end DerivationParameters

namespace KeyTable

variable (t : KeyTable)

/-- What is registered is within its bounds. -/
theorem complaint?_of_get? {version : UInt32} {p : DerivationParameters}
    (h : t.versions.get? version = some p) : p.complaint? = none := by
  have hsound := t.sound
  unfold KeyVersions.complaint? at hsound
  rw [List.findSome?_eq_none_iff] at hsound
  obtain ⟨before, after, hsplit, -⟩ := List.lookup_eq_some_iff.mp h
  have hmem : (version, p) ∈ t.versions := by
    rw [hsplit]
    exact List.mem_append_right _ List.mem_cons_self
  exact hsound (version, p) hmem

theorem parameters_eq {version : UInt32} {p : DerivationParameters}
    (h : t.versions.get? version = some p) : t.parameters version = .ok p := by
  unfold parameters
  rw [h]

/-- A registered version gives a key for every salt that is long enough, if its
    function takes secret and salt. -/
theorem derive_eq {version : UInt32} {p : DerivationParameters}
    (h : t.versions.get? version = some p) {secret : RootSecret} {salt : Bytes}
    (hsalt : leastSaltLength ≤ salt.length) (htakes : p.Takes secret.bytes salt) :
    t.derive secret salt version = .ok (p.key secret.bytes salt) := by
  unfold derive
  rw [t.parameters_eq h, Attempt.ok_bind]
  exact DerivationParameters.derive_eq (t.complaint?_of_get? h) hsalt htakes

/-- If its function does not take them, it says so. -/
theorem derive_refused {version : UInt32} {p : DerivationParameters}
    (h : t.versions.get? version = some p) {secret : RootSecret} {salt : Bytes}
    (hsalt : leastSaltLength ≤ salt.length) (hnot : ¬p.Takes secret.bytes salt) :
    ∃ reason, t.derive secret salt version = .error (.keyDerivationFailed reason) := by
  unfold derive
  rw [t.parameters_eq h, Attempt.ok_bind]
  exact DerivationParameters.derive_refused (t.complaint?_of_get? h) hsalt hnot

theorem derive_error_congr {secret : RootSecret} {version : UInt32} {salt salt' : Bytes}
    (h : salt'.length = salt.length) {e : VaultFailure}
    (he : t.derive secret salt version = .error e) :
    t.derive secret salt' version = .error e := by
  unfold derive at he ⊢
  cases hp : t.parameters version with
  | error f =>
      rw [hp, Attempt.error_bind] at he
      rw [Attempt.error_bind]
      exact he
  | ok p =>
      rw [hp, Attempt.ok_bind] at he
      rw [Attempt.ok_bind]
      exact DerivationParameters.derive_error_congr h he

theorem get?_active : t.versions.get? t.active = some t.activeParameters := by
  unfold activeParameters
  exact (Option.some_get t.known).symm

end KeyTable

end ContentVault
