import ContentVault.Configuration.Document
import ContentVault.Proofs.Derivation.Spelling
import ContentVault.Proofs.Json.Members
import Mathlib.Data.List.Forall2

/-! # Names put into their proper spelling, one after the other

    The second step of loading goes over the name of the cipher, over that of the
    digest algorithm, and then over the key versions from the first to the last.  It
    stops at the first that is refused (`Attempt.mapM_eq_error`); otherwise each is
    put into its place in the document, and nothing else changes
    (`get?_of_resolveName`). -/

namespace ContentVault

theorem Attempt.map_eq_error {α β : Type} {x : Attempt α} {f : α → β} {e : VaultFailure} :
    x.map f = .error e ↔ x = .error e := by
  cases x with
  | error f =>
      constructor
      · intro h
        exact congrArg Except.error (Except.error.inj h)
      · intro h
        exact congrArg Except.error (Except.error.inj h)
  | ok a => exact ⟨nofun, nofun⟩

/-! ## Lists -/

section Lists

variable {α β : Type} {f : α → Attempt β} {xs : List α}

/-- All of a list succeed if each does. -/
theorem Attempt.mapM_eq_ok_iff {ys : List β} :
    xs.mapM f = .ok ys ↔ List.Forall₂ (fun x y => f x = .ok y) xs ys := by
  induction xs generalizing ys with
  | nil =>
      rw [List.forall₂_nil_left_iff]
      exact ⟨fun h => (Except.ok.inj h).symm, fun h => congrArg Except.ok h.symm⟩
  | cons x xs ih =>
      rw [List.mapM_cons, List.forall₂_cons_left_iff]
      constructor
      · intro h
        obtain ⟨y, hy, h⟩ := Attempt.bind_eq_ok.mp h
        obtain ⟨rest, hrest, h⟩ := Attempt.bind_eq_ok.mp h
        exact ⟨y, rest, hy, ih.mp hrest, (Except.ok.inj h).symm⟩
      · rintro ⟨y, rest, hy, hrest, rfl⟩
        rw [hy, ih.mpr hrest]
        rfl

/-- What becomes of each of a list that succeeds. -/
theorem Attempt.getElem?_of_mapM {ys : List β} (h : xs.mapM f = .ok ys) {i : Nat} {x : α}
    (hx : xs[i]? = some x) : ∃ y, ys[i]? = some y ∧ f x = .ok y := by
  have hall := Attempt.mapM_eq_ok_iff.mp h
  clear h
  induction hall generalizing i with
  | nil => cases hx
  | cons hy _ ih =>
      cases i with
      | zero =>
          cases hx
          exact ⟨_, rfl, hy⟩
      | succ i => exact ih hx

/-- A list fails as the first of it that does. -/
theorem Attempt.mapM_eq_error {e : VaultFailure} (h : xs.mapM f = .error e) :
    ∃ (i : Nat) (x : α), xs[i]? = some x ∧ f x = .error e ∧
      ∀ j < i, ∀ y, xs[j]? = some y → ∃ z, f y = .ok z := by
  induction xs with
  | nil => cases h
  | cons x xs ih =>
      cases hx : f x with
      | error e' =>
          rw [List.mapM_cons, hx] at h
          cases h
          exact ⟨0, x, rfl, hx, fun j hj => absurd hj (Nat.not_lt_zero j)⟩
      | ok z =>
          -- the first one succeeds, so it is the rest that fails
          have hrest : xs.mapM f = .error e := by
            rw [List.mapM_cons, hx, Attempt.ok_bind] at h
            cases hxs : xs.mapM f with
            | error e' =>
                rw [hxs] at h
                exact h
            | ok zs =>
                rw [hxs] at h
                cases h
          obtain ⟨i, x', hi, hfail, hbefore⟩ := ih hrest
          refine ⟨i + 1, x', hi, hfail, fun j hj y hy => ?_⟩
          cases j with
          | zero =>
              cases hy
              exact ⟨z, hx⟩
          | succ j => exact hbefore j (Nat.lt_of_succ_lt_succ hj) y hy

/-- One of a list can be exchanged for another of which the same becomes. -/
theorem Attempt.mapM_modify {g : α → α} {i : Nat} (h : ∀ x, xs[i]? = some x → f (g x) = f x) :
    (xs.modify i g).mapM f = xs.mapM f := by
  induction xs generalizing i with
  | nil => rw [List.modify_nil]
  | cons x xs ih =>
      cases i with
      | zero => rw [List.modify_zero_cons, List.mapM_cons, List.mapM_cons, h x rfl]
      | succ i => rw [List.modify_succ_cons, List.mapM_cons, List.mapM_cons, ih h]

end Lists

namespace Configuration

/-! ## A name -/

section Names

variable {member name n : String} {proper : String → Attempt String} {value w : Json}
  {e : VaultFailure}

theorem resolveName_of_ok (hname : value.get? member = some (.string name)) {spelled : String}
    (h : proper name = .ok spelled) :
    resolveName member proper value = .ok (value.set member (.string spelled)) := by
  simp only [resolveName, hname, h]

theorem resolveName_of_error (hname : value.get? member = some (.string name))
    (h : proper name = .error e) : resolveName member proper value = .error e := by
  simp only [resolveName, hname, h]

/-- A name that is spelled properly stays as it is. -/
theorem resolveName_of_proper (hname : value.get? member = some (.string name))
    (h : proper name = .ok name) : resolveName member proper value = .ok value := by
  rw [resolveName_of_ok hname h, Json.set_eq_self hname]

theorem exists_of_resolveName_eq_ok (h : resolveName member proper value = .ok w)
    (hname : value.get? member = some (.string name)) : ∃ spelled, proper name = .ok spelled := by
  cases hproper : proper name with
  | ok spelled => exact ⟨spelled, rfl⟩
  | error e => cases h.symm.trans (resolveName_of_error hname hproper)

theorem exists_of_resolveName_eq_error (h : resolveName member proper value = .error e) :
    ∃ name, value.get? member = some (.string name) ∧ proper name = .error e := by
  rw [resolveName] at h
  split at h
  · rename_i name hname
    cases hproper : proper name with
    | ok spelled =>
        rw [hproper] at h
        cases h
    | error e' =>
        rw [hproper] at h
        cases h
        exact ⟨name, hname, hproper⟩
  · cases h

/-- Nothing else changes. -/
theorem get?_of_resolveName (h : resolveName member proper value = .ok w) (hn : n ≠ member) :
    w.get? n = value.get? n := by
  rw [resolveName] at h
  split at h
  · split at h
    · cases h
      exact Json.get?_set_of_ne hn value _
    · cases h
  · cases h
    rfl

end Names

/-! ## Key versions -/

section Versions

variable {entry kdf : Json}

theorem resolveVersion_of_kdf (h : entry.get? "kdf" = some kdf) :
    resolveVersion entry
      = (DerivationParameters.ofJson kdf).map fun p => entry.set "kdf" p.toJson := by
  simp only [resolveVersion, h]
  cases DerivationParameters.ofJson kdf with
  | ok p => rfl
  | error e => rfl

theorem exists_of_resolveVersion_eq_error {e : VaultFailure} (h : resolveVersion entry = .error e) :
    ∃ kdf, entry.get? "kdf" = some kdf ∧ DerivationParameters.ofJson kdf = .error e := by
  cases hkdf : entry.get? "kdf" with
  | none =>
      simp only [resolveVersion, hkdf] at h
      cases h
  | some kdf =>
      rw [resolveVersion_of_kdf hkdf] at h
      cases hread : DerivationParameters.ofJson kdf with
      | ok p =>
          rw [hread] at h
          cases h
      | error e' =>
          rw [hread] at h
          cases h
          exact ⟨kdf, rfl, hread⟩

theorem resolveVersions_of_array {value : Json} {entries : List Json}
    (h : value.get? "key_versions" = some (.array entries)) :
    resolveVersions value
      = (entries.mapM resolveVersion).map fun es => value.set "key_versions" (.array es) := by
  simp only [resolveVersions, h]
  cases entries.mapM resolveVersion with
  | ok es => rfl
  | error e => rfl

end Versions

/-! ## Documents -/

/-- What is loaded from the text of a settled value is what the value spells. -/
theorem ofText_render {v : Json} (h : v.IsSettled Json.maxDepth) : ofText v.render = ofJson v := by
  rw [ofText, Json.parseValue?_render h]

end Configuration

end ContentVault
