import ContentVault.Proofs.Cipher.Recorded
import ContentVault.Proofs.Configuration.Resolving

/-! # Which names the registries see

    A document names algorithms in its settings and in the parameters of its key
    versions (`NamePlace`).  The registries are asked before the settings are read,
    and they are asked only for names that are given by name all the way from the
    outermost object: `judged?`.  When the settings are read, a record may also be an
    array of its fields in their order, and so there are more names that count:
    `given?`.

    A name that is judged is looked up in any spelling, and one that no registry
    knows is reported as such (`resolveNames_of_unknown`), whatever else is wrong
    with the document; only what comes before it can fail instead.  Which spelling
    it has makes no difference (`resolveNames_respelled`).  A name that is given
    but not judged has to be in its proper spelling (`proper_of_read?`).  In any
    other the document counts as malformed, whether a registry knows the name or
    not.

    Main statement: `names_judged_if_named`. -/

namespace ContentVault

/-! ## Names and where they stand -/

/-- A place for the name of an algorithm. -/
inductive NamePlace where
  | cipher
  | digest
  /-- In the parameters of a key version. -/
  | derivation (entry : Nat)

namespace NamePlace

/-- What the registry makes of a name: its proper spelling, if it is known in any. -/
def proper : NamePlace → String → Attempt String
  | cipher, s => (CipherSuite.ofId s).map CipherSuite.id
  | digest, s => (DigestAlgorithm.ofId s).map DigestAlgorithm.id
  | derivation _, s => (DerivationFunction.ofId s).map DerivationFunction.id

/-- What is named in a place. -/
def kind : NamePlace → String
  | cipher => "cipher"
  | digest => "hash algorithm"
  | derivation _ => "key derivation"

/-- What is reported for a name that is unknown. -/
def unsupported (p : NamePlace) (s : String) : VaultFailure :=
  .unsupportedAlgorithm (p.kind ++ " '" ++ s ++ "'")

section Fields

variable (field : List String → String → Json → Option Json)

/-- The parameters of a key version, where `field` finds the fields of a record. -/
def kdf? (entry : Nat) (v : Json) : Option Json :=
  match field Configuration.fieldNames "key_versions" v with
  | some (.array entries) => entries[entry]? >>= field ["version", "kdf"] "kdf"
  | _ => none

/-- The name in a place, where `field` finds the fields of a record. -/
def name? : NamePlace → Json → Option String
  | cipher, v => field Configuration.fieldNames "cipher" v >>= Json.string?
  | digest, v => field Configuration.fieldNames "hash_algorithm" v >>= Json.string?
  | derivation i, v => do
    let kdf ← kdf? field i v
    kdf.get? DerivationParameters.tagName >>= Json.string?

end Fields

/-- The name that a document gives in a place, in any shape. -/
def given? : NamePlace → Json → Option String := name? Json.field?

/-- The parameters that are judged: their members have their names throughout. -/
def judgedKdf? : Nat → Json → Option Json := kdf? fun _ => Json.get?

/-- The name that is judged. -/
def judged? : NamePlace → Json → Option String := name? fun _ => Json.get?

/-- A document with another name in a place. -/
def respell (t : String) : NamePlace → Json → Json
  | cipher, v => v.set "cipher" (.string t)
  | digest, v => v.set "hash_algorithm" (.string t)
  | derivation i, v =>
    match v.get? "key_versions" with
    | some (.array entries) => v.set "key_versions" (.array (entries.modify i fun entry =>
        match entry.get? "kdf" with
        | some kdf => entry.set "kdf" (kdf.set DerivationParameters.tagName (.string t))
        | none => entry))
    | _ => v

/-- How documents differ in which judged names have other spellings of the same algorithms. -/
inductive Respelled (v : Json) : Json → Prop
  | refl : Respelled v v
  | step {w : Json} {p : NamePlace} {s t a : String} (h : Respelled v w)
      (hjudged : p.judged? w = some s) (hs : p.proper s = .ok a) (ht : p.proper t = .ok a) :
      Respelled v (p.respell t w)

/-! ## The registries -/

theorem eq_unsupported {p : NamePlace} {s : String} {e : VaultFailure}
    (h : p.proper s = .error e) : e = p.unsupported s := by
  cases p with
  | cipher =>
      rw [proper, CipherSuite.ofId] at h
      split at h
      · cases h
      · exact (Except.error.inj h).symm
  | digest =>
      rw [proper, DigestAlgorithm.ofId] at h
      split at h
      · cases h
      · exact (Except.error.inj h).symm
  | derivation i =>
      rw [proper, DerivationFunction.ofId] at h
      split at h
      · cases h
      · exact (Except.error.inj h).symm

/-! ## Looking names up -/

section Fields

variable {field : List String → String → Json → Option Json} {v : Json} {i : Nat} {s : String}

theorem bind_string?_eq_some_iff {member : Option Json} :
    (member >>= Json.string?) = some s ↔ member = some (.string s) := by
  rw [Option.bind_eq_bind, Option.bind_eq_some_iff]
  simp only [Json.string?_eq_some_iff, exists_eq_right]

theorem kdf?_eq_some_iff {kdf : Json} :
    kdf? field i v = some kdf ↔ ∃ entries entry,
      field Configuration.fieldNames "key_versions" v = some (.array entries) ∧
      entries[i]? = some entry ∧ field ["version", "kdf"] "kdf" entry = some kdf := by
  rw [kdf?]
  split
  · rename_i entries hentries
    rw [Option.bind_eq_bind, Option.bind_eq_some_iff]
    constructor
    · rintro ⟨entry, hentry, hkdf⟩
      exact ⟨entries, entry, hentries, hentry, hkdf⟩
    · rintro ⟨entries', entry, hentries', hentry, hkdf⟩
      cases hentries.symm.trans hentries'
      exact ⟨entry, hentry, hkdf⟩
  · rename_i hno
    refine iff_of_false (fun h => nomatch h) ?_
    rintro ⟨entries, entry, hentries, -, -⟩
    exact hno entries hentries

theorem name?_derivation_eq_some_iff :
    name? field (derivation i) v = some s ↔
      ∃ kdf, kdf? field i v = some kdf ∧
        kdf.get? DerivationParameters.tagName = some (.string s) := by
  refine Option.bind_eq_some_iff.trans ?_
  simp only [bind_string?_eq_some_iff]

end Fields

theorem kdf?_of_judgedKdf? {i : Nat} {v kdf : Json} (h : judgedKdf? i v = some kdf) :
    kdf? Json.field? i v = some kdf := by
  obtain ⟨entries, entry, hentries, hentry, hkdf⟩ := kdf?_eq_some_iff.mp h
  exact kdf?_eq_some_iff.mpr
    ⟨entries, entry, Json.field?_of_get? hentries _, hentry, Json.field?_of_get? hkdf _⟩

/-- What is judged is what is given. -/
theorem given?_of_judged? {p : NamePlace} {v : Json} {s : String} (h : p.judged? v = some s) :
    p.given? v = some s := by
  cases p with
  | cipher =>
      exact bind_string?_eq_some_iff.mpr (Json.field?_of_get? (bind_string?_eq_some_iff.mp h) _)
  | digest =>
      exact bind_string?_eq_some_iff.mpr (Json.field?_of_get? (bind_string?_eq_some_iff.mp h) _)
  | derivation i =>
      obtain ⟨kdf, hkdf, hname⟩ := name?_derivation_eq_some_iff.mp h
      exact name?_derivation_eq_some_iff.mpr ⟨kdf, kdf?_of_judgedKdf? hkdf, hname⟩

end NamePlace

namespace Configuration

open NamePlace

variable {v w : Json}

/-! ## Unknown names -/

/-- The names in their order. -/
theorem resolveNames_eq (v : Json) :
    resolveNames v = (resolveName "cipher" (proper .cipher) v >>= fun w =>
      resolveName "hash_algorithm" (proper .digest) w >>= resolveVersions) := rfl

theorem judged?_cipher {s : String} :
    judged? .cipher v = some s ↔ v.get? "cipher" = some (.string s) :=
  bind_string?_eq_some_iff

theorem judged?_digest {s : String} :
    judged? .digest v = some s ↔ v.get? "hash_algorithm" = some (.string s) :=
  bind_string?_eq_some_iff

theorem judgedKdf?_eq_some_iff {i : Nat} {kdf : Json} :
    judgedKdf? i v = some kdf ↔ ∃ entries entry, v.get? "key_versions" = some (.array entries) ∧
      entries[i]? = some entry ∧ entry.get? "kdf" = some kdf :=
  kdf?_eq_some_iff

/-- The first two names are judged before the key versions, which are still as they were. -/
theorem resolveNames_cases (v : Json) :
    (∃ (q : NamePlace) (t : String) (e : VaultFailure), q.judged? v = some t ∧
      q.proper t = .error e ∧ resolveNames v = .error e) ∨
    ∃ w, w.get? "key_versions" = v.get? "key_versions" ∧ resolveNames v = resolveVersions w ∧
      (∀ t, judged? .cipher v = some t → ∃ a, proper .cipher t = .ok a) ∧
      ∀ t, judged? .digest v = some t → ∃ a, proper .digest t = .ok a := by
  rw [resolveNames_eq]
  cases hcipher : resolveName "cipher" (proper .cipher) v with
  | error e =>
      obtain ⟨t, ht, he⟩ := exists_of_resolveName_eq_error hcipher
      exact Or.inl ⟨.cipher, t, e, judged?_cipher.mpr ht, he, rfl⟩
  | ok u =>
      have hother : u.get? "hash_algorithm" = v.get? "hash_algorithm" :=
        get?_of_resolveName hcipher (by decide)
      rw [Attempt.ok_bind]
      cases hdigest : resolveName "hash_algorithm" (proper .digest) u with
      | error e =>
          obtain ⟨t, ht, he⟩ := exists_of_resolveName_eq_error hdigest
          exact Or.inl ⟨.digest, t, e, judged?_digest.mpr (hother.symm.trans ht), he, rfl⟩
      | ok w =>
          have hversions : w.get? "key_versions" = v.get? "key_versions" :=
            (get?_of_resolveName hdigest (by decide)).trans
              (get?_of_resolveName hcipher (by decide))
          refine Or.inr ⟨w, hversions, rfl, fun t ht => ?_, fun t ht => ?_⟩
          · exact exists_of_resolveName_eq_ok hcipher (judged?_cipher.mp ht)
          · exact exists_of_resolveName_eq_ok hdigest (hother.trans (judged?_digest.mp ht))

/-- If a judged name is unknown, it is reported, or another that is unknown, or what is wrong with
    the parameters of an earlier key version. -/
theorem resolveNames_of_unknown {p : NamePlace} {s : String} {e : VaultFailure}
    (hjudged : p.judged? v = some s) (hunknown : p.proper s = .error e) :
    (∃ (q : NamePlace) (t : String) (e : VaultFailure), q.judged? v = some t ∧
      q.proper t = .error e ∧ resolveNames v = .error e) ∨
    ∃ i j kdf reason, p = .derivation i ∧ j < i ∧ judgedKdf? j v = some kdf ∧
      DerivationParameters.ofJson kdf = .error (.invalidKdfParameters reason) ∧
      resolveNames v = .error (.invalidKdfParameters reason) := by
  rcases resolveNames_cases v with h | ⟨w, hversions, hnames, hcipher, hdigest⟩
  · exact Or.inl h
  · cases p with
    | cipher =>
        obtain ⟨a, ha⟩ := hcipher s hjudged
        cases hunknown.symm.trans ha
    | digest =>
        obtain ⟨a, ha⟩ := hdigest s hjudged
        cases hunknown.symm.trans ha
    | derivation i =>
        obtain ⟨kdf, hkdf, hname⟩ := name?_derivation_eq_some_iff.mp hjudged
        obtain ⟨entries, entry, hentries, hentry, hentrykdf⟩ := judgedKdf?_eq_some_iff.mp hkdf
        have hread := DerivationParameters.ofJson_of_unknown hname
          (Attempt.map_eq_error.mp hunknown)
        have hfail : resolveVersion entry = .error e := by
          rw [resolveVersion_of_kdf hentrykdf, hread]
          rfl
        rw [hnames, resolveVersions_of_array (hversions.trans hentries)]
        cases hall : entries.mapM resolveVersion with
        | ok es =>
            obtain ⟨y, -, hy⟩ := Attempt.getElem?_of_mapM hall hentry
            cases hfail.symm.trans hy
        | error f =>
            -- the first entry that fails is this one or one before it
            obtain ⟨j, other, hother, hfirst, hbefore⟩ := Attempt.mapM_eq_error hall
            obtain ⟨kdf', hkdf', hread'⟩ := exists_of_resolveVersion_eq_error hfirst
            have hjudged' : judgedKdf? j v = some kdf' :=
              judgedKdf?_eq_some_iff.mpr ⟨entries, other, hentries, hother, hkdf'⟩
            rcases DerivationParameters.ofJson_eq_error hread' with
              ⟨t, ht, hunknown'⟩ | ⟨reason, rfl⟩
            · exact Or.inl ⟨.derivation j, t, f,
                name?_derivation_eq_some_iff.mpr ⟨kdf', hjudged', ht⟩,
                Attempt.map_eq_error.mpr hunknown', rfl⟩
            · refine Or.inr ⟨i, j, kdf', reason, rfl, ?_, hjudged', hread', rfl⟩
              rcases Nat.lt_trichotomy j i with hlt | rfl | hlt
              · exact hlt
              · -- at this one it is the name that is reported
                cases hother.symm.trans hentry
                cases hfirst.symm.trans (hfail.trans (congrArg _ (eq_unsupported hunknown)))
              · -- it cannot come later, for then this one would have passed
                obtain ⟨z, hz⟩ := hbefore i hlt entry hentry
                cases hfail.symm.trans hz

/-! ## Other spellings -/

theorem resolveName_respell {member s t : String} {f : String → Attempt String}
    (hname : v.get? member = some (.string s)) (hsame : f t = f s) :
    resolveName member f (v.set member (.string t)) = resolveName member f v := by
  have hset := Json.get?_set_self hname (.string t)
  cases hs : f s with
  | ok a => rw [resolveName_of_ok hname hs, resolveName_of_ok hset (hsame.trans hs), Json.set_set]
  | error e => rw [resolveName_of_error hname hs, resolveName_of_error hset (hsame.trans hs)]

/-- Another member can be set before or after. -/
theorem resolveName_set {member n : String} {f : String → Attempt String} {x : Json}
    (hne : n ≠ member) (h : v.get? n = some x) (y : Json) :
    resolveName member f (v.set n y) = (resolveName member f v).map fun w => w.set n y := by
  simp only [resolveName, Json.get?_set_of_ne hne.symm]
  split
  · rename_i name _
    cases f name with
    | ok a => exact congrArg Except.ok (Json.set_comm hne h y (.string a))
    | error e => rfl
  · rfl

/-- The fields do not depend on the name. -/
theorem readFields?_respell (a : DerivationFunction) (kdf : Json) (t : String) :
    DerivationParameters.readFields? a (kdf.set DerivationParameters.tagName (.string t))
      = DerivationParameters.readFields? a kdf := by
  cases a <;> rw [DerivationParameters.readFields?, DerivationParameters.readFields?,
    Json.fields?_set (by decide)]

theorem ofJson_respell {kdf : Json} {i : Nat} {s t a : String}
    (hname : kdf.get? DerivationParameters.tagName = some (.string s))
    (hs : proper (.derivation i) s = .ok a) (ht : proper (.derivation i) t = .ok a) :
    DerivationParameters.ofJson (kdf.set DerivationParameters.tagName (.string t))
      = DerivationParameters.ofJson kdf := by
  obtain ⟨f, hf, rfl⟩ := Attempt.map_eq_ok.mp hs
  obtain ⟨g, hg, hid⟩ := Attempt.map_eq_ok.mp ht
  have hsame : g = f := by
    revert hid
    cases f <;> cases g <;> decide
  subst hsame
  rw [DerivationParameters.ofJson_of_named hname (DerivationFunction.ofId_eq_ok_iff.mp hf),
    DerivationParameters.ofJson_of_named (Json.get?_set_self hname _)
      (DerivationFunction.ofId_eq_ok_iff.mp hg), readFields?_respell]

/-- Key versions can be exchanged for others of which the same becomes. -/
theorem resolveNames_set_versions {entries entries' : List Json}
    (h : v.get? "key_versions" = some (.array entries))
    (hall : entries'.mapM resolveVersion = entries.mapM resolveVersion) :
    resolveNames (v.set "key_versions" (.array entries')) = resolveNames v := by
  rw [resolveNames_eq, resolveNames_eq, resolveName_set (by decide) h]
  cases hcipher : resolveName "cipher" (proper .cipher) v with
  | error e => rfl
  | ok u =>
      have hu : u.get? "key_versions" = some (.array entries) :=
        (get?_of_resolveName hcipher (by decide)).trans h
      show (resolveName "hash_algorithm" (proper .digest) (u.set _ _) >>= resolveVersions)
        = resolveName "hash_algorithm" (proper .digest) u >>= resolveVersions
      rw [resolveName_set (by decide) hu]
      cases hdigest : resolveName "hash_algorithm" (proper .digest) u with
      | error e => rfl
      | ok w =>
          have hw : w.get? "key_versions" = some (.array entries) :=
            (get?_of_resolveName hdigest (by decide)).trans hu
          show resolveVersions (w.set "key_versions" (.array entries')) = resolveVersions w
          rw [resolveVersions_of_array (Json.get?_set_self hw _), resolveVersions_of_array hw, hall]
          simp only [Json.set_set]

/-- Which spelling a judged name has makes no difference. -/
theorem resolveNames_respell {p : NamePlace} {s t a : String} (hjudged : p.judged? v = some s)
    (hs : p.proper s = .ok a) (ht : p.proper t = .ok a) :
    resolveNames (p.respell t v) = resolveNames v := by
  have hsame := ht.trans hs.symm
  cases p with
  | cipher =>
      rw [resolveNames_eq, resolveNames_eq, respell,
        resolveName_respell (judged?_cipher.mp hjudged) hsame]
  | digest =>
      -- the cipher comes first, and it finds the document as it was but for this name
      have hname := judged?_digest.mp hjudged
      rw [resolveNames_eq, resolveNames_eq, respell, resolveName_set (by decide) hname]
      cases hcipher : resolveName "cipher" (proper .cipher) v with
      | error e => rfl
      | ok u =>
          have hother : u.get? "hash_algorithm" = v.get? "hash_algorithm" :=
            get?_of_resolveName hcipher (by decide)
          show (resolveName "hash_algorithm" (proper .digest) (u.set _ _) >>= _) = _
          rw [resolveName_respell (hother.trans hname) hsame]
          rfl
  | derivation i =>
      obtain ⟨kdf, hkdf, hname⟩ := name?_derivation_eq_some_iff.mp hjudged
      obtain ⟨entries, entry, hentries, hentry, hentrykdf⟩ := judgedKdf?_eq_some_iff.mp hkdf
      simp only [respell, hentries]
      refine resolveNames_set_versions hentries (Attempt.mapM_modify fun x hx => ?_)
      cases hentry.symm.trans hx
      simp only [hentrykdf]
      rw [resolveVersion_of_kdf (Json.get?_set_self hentrykdf _), resolveVersion_of_kdf hentrykdf,
        ofJson_respell hname hs ht]
      simp only [Json.set_set]

theorem resolveNames_respelled (h : Respelled v w) : resolveNames w = resolveNames v := by
  induction h with
  | refl => rfl
  | step _ hjudged hs ht ih => rw [resolveNames_respell hjudged hs ht, ih]

end Configuration

/-! ## Names that are not judged -/

theorem DerivationParameters.exists_id_of_read? {kdf : Json} {p : DerivationParameters} {s : String}
    (h : read? kdf = some p) (hname : kdf.get? tagName = some (.string s)) :
    ∃ a : DerivationFunction, a.id = s := by
  cases kdf with
  | object members =>
      rw [read?] at h
      split at h
      · rename_i name id hfilter
        obtain ⟨a, ha, -⟩ := Option.bind_eq_some_iff.mp h
        -- the name is the only member that could be meant
        have hmem : (tagName, Json.string s) ∈ members.filter fun m => m.1 == tagName := by
          obtain ⟨before, after, rfl, -⟩ := List.lookup_eq_some_iff.mp hname
          simp
        rw [hfilter, List.mem_singleton] at hmem
        cases hmem
        have htest := List.find?_some ha
        exact ⟨a, eq_of_beq htest⟩
      · cases h
  | _ => cases hname

theorem KeyVersion.exists_kdf_of_read? {entry kdf : Json} {k : KeyVersion}
    (h : read? entry = some k) (hkdf : entry.field? ["version", "kdf"] "kdf" = some kdf) :
    ∃ p, DerivationParameters.read? kdf = some p := by
  rw [read?] at h
  obtain ⟨F, hF, h⟩ := Option.bind_eq_some_iff.mp h
  obtain ⟨version, -, h⟩ := Option.bind_eq_some_iff.mp h
  obtain ⟨p, hp, -⟩ := Option.bind_eq_some_iff.mp h
  rw [Json.required_of_fields? hF (by decide) hkdf, readKdf?] at hp
  split at hp
  · exact ⟨p, hp⟩
  · cases hp

namespace Configuration

open NamePlace

variable {v w : Json}

/-- Settings that are read have each name in its proper spelling, however it is given. -/
theorem proper_of_read? {c : Configuration} (h : read? v = some c) {p : NamePlace} {s : String}
    (hgiven : p.given? v = some s) : p.proper s = .ok s := by
  rw [read?] at h
  obtain ⟨F, hF, h⟩ := Option.bind_eq_some_iff.mp h
  obtain ⟨hash, hhash, h⟩ := Option.bind_eq_some_iff.mp h
  obtain ⟨suite, hsuite, h⟩ := Option.bind_eq_some_iff.mp h
  obtain ⟨_, -, h⟩ := Option.bind_eq_some_iff.mp h
  obtain ⟨_, -, h⟩ := Option.bind_eq_some_iff.mp h
  obtain ⟨_, -, h⟩ := Option.bind_eq_some_iff.mp h
  obtain ⟨versions, hversions, -⟩ := Option.bind_eq_some_iff.mp h
  cases p with
  | cipher =>
      have hname := bind_string?_eq_some_iff.mp hgiven
      rw [Json.withDefault_of_fields? hF (by decide) hname] at hsuite
      have hfound : CipherSuite.all.find? (fun a => a.id == s) = some suite := hsuite
      have htest := List.find?_some hfound
      rw [proper, ← eq_of_beq htest, CipherSuite.ofId_id]
      rfl
  | digest =>
      have hname := bind_string?_eq_some_iff.mp hgiven
      rw [Json.withDefault_of_fields? hF (by decide) hname] at hhash
      have hfound : DigestAlgorithm.all.find? (fun a => a.id == s) = some hash := hhash
      have htest := List.find?_some hfound
      rw [proper, ← eq_of_beq htest, DigestAlgorithm.ofId_id]
      rfl
  | derivation i =>
      obtain ⟨kdf, hkdf, hname⟩ := name?_derivation_eq_some_iff.mp hgiven
      obtain ⟨entries, entry, hentries, hentry, hentrykdf⟩ := kdf?_eq_some_iff.mp hkdf
      rw [Json.withDefault_of_fields? hF (by decide) hentries] at hversions
      obtain ⟨k, hk⟩ := Json.exists_of_list? hversions hentry
      obtain ⟨q, hq⟩ := KeyVersion.exists_kdf_of_read? hk hentrykdf
      obtain ⟨a, rfl⟩ := DerivationParameters.exists_id_of_read? hq hname
      rw [proper, DerivationFunction.ofId_eq_ok_iff.mpr a.isNamed_id]
      rfl

/-- What is given and not judged stays as it is given. -/
theorem given?_of_resolveNames {p : NamePlace} {s : String} (hgiven : p.given? v = some s)
    (hjudged : p.judged? v = none) (h : resolveNames v = .ok w) : p.given? w = some s := by
  cases v with
  | object members =>
      cases p with
      | cipher => cases hjudged.symm.trans hgiven
      | digest => cases hjudged.symm.trans hgiven
      | derivation i =>
          obtain ⟨kdf, hkdf, hname⟩ := name?_derivation_eq_some_iff.mp hgiven
          obtain ⟨entries, entry, hentries, hentry, hentrykdf⟩ := kdf?_eq_some_iff.mp hkdf
          rcases resolveNames_cases (.object members) with ⟨q, t, e, -, -, he⟩ | ⟨u, hu, hnames, -⟩
          · cases he.symm.trans h
          · have hversions : u.get? "key_versions" = some (.array entries) := hu.trans hentries
            rw [hnames, resolveVersions_of_array hversions] at h
            obtain ⟨resolved, hall, rfl⟩ := Attempt.map_eq_ok.mp h
            obtain ⟨y, hy, hresolved⟩ := Attempt.getElem?_of_mapM hall hentry
            have hset := Json.get?_set_self hversions (.array resolved)
            refine name?_derivation_eq_some_iff.mpr ⟨kdf, ?_, hname⟩
            refine kdf?_eq_some_iff.mpr ⟨resolved, y, Json.field?_of_get? hset _, hy, ?_⟩
            -- in an object the parameters would have been judged
            cases entry with
            | object ms =>
                have hsome : judged? (.derivation i) (.object members) = some s :=
                  name?_derivation_eq_some_iff.mpr ⟨kdf,
                    judgedKdf?_eq_some_iff.mpr ⟨entries, _, hentries, hentry, hentrykdf⟩, hname⟩
                cases hjudged.symm.trans hsome
            | array items =>
                cases hresolved
                exact hentrykdf
            | _ => cases hentrykdf
  | array items =>
      cases h
      exact hgiven
  | _ => cases p <;> cases hgiven

/-! ## Documents -/

/-- What is judged is what is given.  A judged name that no registry knows is reported, or another
    such, or what is wrong with the parameters of an earlier key version; other spellings of the
    judged names change nothing.  A name that is given but not judged has to be spelled properly,
    or the document is malformed, if no judged name is reported. -/
theorem names_judged_if_named {text : String} {v : Json} (hv : Json.parseValue? text = some v) :
    (∀ (p : NamePlace) s, p.judged? v = some s → p.given? v = some s) ∧
    (∀ (p : NamePlace) s e, p.judged? v = some s → p.proper s = .error e →
      (∃ (q : NamePlace) (t : String), q.judged? v = some t ∧
        q.proper t = .error (q.unsupported t) ∧ ofText text = .error (q.unsupported t)) ∨
      ∃ i j kdf reason, p = .derivation i ∧ j < i ∧ judgedKdf? j v = some kdf ∧
        DerivationParameters.ofJson kdf = .error (.invalidKdfParameters reason) ∧
        ofText text = .error (.invalidKdfParameters reason)) ∧
    (∀ w other, Respelled v w → Json.parseValue? other = some w → ofText other = ofText text) ∧
    (∀ (p : NamePlace) s, p.given? v = some s → p.judged? v = none → p.proper s ≠ .ok s →
      ofText text = resolveNames v >>= fun _ => .error .malformedConfig) := by
  have hjson : ∀ {text : String} {v : Json}, Json.parseValue? text = some v →
      ofText text = ofJson v := by
    intro text v h
    rw [ofText, h]
  have herror : ∀ {e : VaultFailure}, resolveNames v = .error e → ofText text = .error e := by
    intro e h
    rw [hjson hv, ofJson, h]
    rfl
  refine ⟨fun p s => given?_of_judged?, ?_, ?_, ?_⟩
  · intro p s e hjudged hunknown
    rcases resolveNames_of_unknown hjudged hunknown with ⟨q, t, f, hq, ht, hf⟩
      | ⟨i, j, kdf, reason, hp, hlt, hkdf, hread, hf⟩
    · cases eq_unsupported ht
      exact Or.inl ⟨q, t, hq, ht, herror hf⟩
    · exact Or.inr ⟨i, j, kdf, reason, hp, hlt, hkdf, hread, herror hf⟩
  · intro w other hw hother
    rw [hjson hother, hjson hv, ofJson, ofJson, resolveNames_respelled hw]
  · intro p s hgiven hjudged hproper
    rw [hjson hv, ofJson]
    cases hnames : resolveNames v with
    | error e => rfl
    | ok w =>
        have hread : read? w = none := by
          cases h : read? w with
          | none => rfl
          | some c =>
              have hkept := given?_of_resolveNames hgiven hjudged hnames
              exact absurd (proper_of_read? h hkept) hproper
        rw [Attempt.ok_bind, Attempt.ok_bind, hread]

/-- In an object an unknown name is reported and a known one taken in any spelling; in a list both
    make the document malformed. -/
theorem listed_names_unjudged :
    ofText "\x7b\"hash_algorithm\":\"MD5\"\x7d"
      = .error (.unsupportedAlgorithm "hash algorithm 'MD5'") ∧
    ofText "[\"MD5\"]" = .error .malformedConfig ∧
    ofText "\x7b\"hash_algorithm\":\"sha-256\"\x7d" = .ok {} ∧
    ofText "[\"sha-256\"]" = .error .malformedConfig := by
  have hobject : ∀ s : String,
      (Json.object [("hash_algorithm", .string s)]).IsSettled Json.maxDepth := fun _ =>
    ⟨⟨trivial, trivial⟩, rfl, rfl⟩
  have hlist : ∀ s : String, Json.parseValue? (Json.array [.string s]).render
      = some (.array [.string s]) := fun _ =>
    Json.parseValue?_render ⟨⟨trivial, trivial⟩, rfl, rfl⟩
  refine ⟨(ofText_render (hobject "MD5")).trans rfl, ?_,
    (ofText_render (hobject "sha-256")).trans rfl, ?_⟩
  · exact (names_judged_if_named (hlist "MD5")).2.2.2 .digest "MD5" rfl rfl (by decide)
  · exact (names_judged_if_named (hlist "sha-256")).2.2.2 .digest "sha-256" rfl rfl (by decide)

end Configuration

end ContentVault
