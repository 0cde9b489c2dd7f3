import ContentVault.Proofs.Cipher.Recorded
import ContentVault.Proofs.Configuration.Resolving

/-! # Configurations, written and loaded again

    Loading takes three steps, and what is written passes through each unchanged: as
    a value in its own right it is settled (`isSettled_toJson`), its names have their
    proper spelling, so that putting them into it changes nothing
    (`resolveNames_toJson`), and its settings are read as they were
    (`read?_toJson`).

    The second step also takes parameters out of the document and checks them, and
    it comes before the settings are read.  So it is no identity on a configuration
    whose parameters are out of bounds; such a one is refused here already
    (`resolveVersion_toJson`).

    Main statement: `reloaded_as_written`. -/

namespace ContentVault

namespace DerivationParameters

theorem isSettled_toJson (p : DerivationParameters) (depth : Nat) :
    p.toJson.IsSettled (depth + 1) := by
  rw [toJson_eq]
  refine .object ?_ (List.forall_mem_cons.mpr ⟨.string _, ?_⟩)
  · cases p <;> simp [fields, tagName]
  · cases p with
    | pbkdf2 => simp [fields, Json.IsSettled.word32]
    | hkdf => simp [fields, Json.IsSettled.string]
    | argon2 => simp [fields, Json.IsSettled.word32]

/-- Parameters that name their function by its own name are read as they were written. -/
theorem read?_toJson (p : DerivationParameters) : read? p.toJson = some p := by
  have hfields : readFields? p.algorithm (.object p.fields) = some p := by
    refine (readFields?_eq_some_iff ?_).mpr ⟨rfl, ?_⟩
    · cases p <;> simp [fields, Json.NamesOnce]
    · cases p <;> simp [fields, List.lookup_cons]
  cases p <;> exact hfields

end DerivationParameters

namespace KeyVersion

theorem isSettled_toJson (v : KeyVersion) (depth : Nat) : v.toJson.IsSettled (depth + 2) :=
  .record (by simp) ⟨.some (.word32 _), .some (v.kdf.isSettled_toJson depth)⟩

theorem readKdf?_toJson (p : DerivationParameters) : readKdf? p.toJson = some p := by
  -- the parameters are a value in their own right, with one level of nesting gone
  have hadmissible : p.toJson.admissibleWithin (Json.maxDepth - 1) = true :=
    (p.isSettled_toJson 125).admissible
  rw [readKdf?, if_pos hadmissible, p.read?_toJson]

theorem read?_toJson (v : KeyVersion) : read? v.toJson = some v := by
  obtain ⟨members, hmembers, hgiven⟩ := Json.fields?_record v.toJson rfl (by simp)
  rw [read?]
  refine Option.bind_eq_some_iff.mpr ⟨⟨false, members⟩, hmembers, ?_⟩
  rw [hgiven.required 0 rfl, hgiven.required 1 rfl, Json.word32?_ofNat, readKdf?_toJson]
  rfl

end KeyVersion

namespace NotaryConfiguration

theorem isSettled_toJson (c : NotaryConfiguration) (depth : Nat) :
    c.toJson.IsSettled (depth + 1) :=
  .record (by simp) ⟨.some (.string _), .map .string _, .map .string _, .some (.word64 _)⟩

theorem read?_toJson (c : NotaryConfiguration) : read? c.toJson = some c := by
  have hbackend : NotaryBackend.read? (.string c.backend.id) = some c.backend := by
    cases c.backend <;> rfl
  obtain ⟨members, hmembers, hgiven⟩ := Json.fields?_record c.toJson rfl (by simp)
  rw [read?]
  refine Option.bind_eq_some_iff.mpr ⟨⟨false, members⟩, hmembers, ?_⟩
  dsimp only
  rw [hgiven.withDefault 0 rfl, hgiven.nullable 1 rfl fun _ => rfl,
    hgiven.nullable 2 rfl fun _ => rfl, hgiven.withDefault 3 rfl, hbackend, Json.word64?_ofNat]
  rfl

end NotaryConfiguration

namespace Configuration

/-! ## The settings -/

theorem isSettled_toJson (c : Configuration) (depth : Nat) : c.toJson.IsSettled (depth + 4) := by
  have hversions : (Json.array (c.keyVersions.map KeyVersion.toJson)).IsSettled (depth + 3) := by
    refine .array fun item hitem => ?_
    obtain ⟨v, -, rfl⟩ := List.mem_map.mp hitem
    exact v.isSettled_toJson depth
  exact .record (by simp) ⟨.some (.string _), .some (.string _), .some (.bool _), .some (.bool _),
    .some (.word32 _), .some hversions, .some (.word64 _), .some (.word64 _), .some (.word64 _),
    .some (.word64 _), .some (.word64 _), .some (.word64 _), .some (.string _), .some (.bool _),
    .some (.word64 _), .some (.word64 _), .some (.word64 _),
    .some (c.notarization.isSettled_toJson (depth + 2))⟩

theorem readHash?_id (a : DigestAlgorithm) : readHash? (.string a.id) = some a := by
  cases a <;> rfl

theorem readCipher?_id (a : CipherSuite) : readCipher? (.string a.id) = some a := by
  cases a <;> rfl

/-- Settings are read as they were written. -/
theorem read?_toJson (c : Configuration) : read? c.toJson = some c := by
  obtain ⟨members, hmembers, hgiven⟩ := Json.fields?_record c.toJson rfl (by simp)
  rw [read?]
  refine Option.bind_eq_some_iff.mpr ⟨⟨false, members⟩, hmembers, ?_⟩
  dsimp only
  rw [hgiven.withDefault 0 rfl, hgiven.withDefault 1 rfl, hgiven.withDefault 2 rfl,
    hgiven.withDefault 3 rfl, hgiven.withDefault 4 rfl, hgiven.withDefault 5 rfl,
    hgiven.withDefault 6 rfl, hgiven.withDefault 7 rfl, hgiven.withDefault 8 rfl,
    hgiven.withDefault 9 rfl, hgiven.withDefault 10 rfl, hgiven.withDefault 11 rfl,
    hgiven.withDefault 12 rfl, hgiven.withDefault 13 rfl, hgiven.withDefault 14 rfl,
    hgiven.withDefault 15 rfl, hgiven.withDefault 16 rfl, hgiven.withDefault 17 rfl,
    readHash?_id, readCipher?_id, Json.list?_map KeyVersion.read?_toJson,
    NotaryConfiguration.read?_toJson]
  simp only [Json.word32?_ofNat, Json.word64?_ofNat]
  rfl

/-! ## The names -/

/-- The parameters of a key version stay as they are, if they are within their bounds. -/
theorem resolveVersion_toJson (v : KeyVersion) :
    resolveVersion v.toJson = v.kdf.validate >>= fun _ => .ok v.toJson := by
  have hkdf : v.toJson.get? "kdf" = some v.kdf.toJson := rfl
  have hread := DerivationParameters.ofJson_of_spells v.kdf.namesOnce_toJson v.kdf.spells_toJson
  rw [resolveVersion_of_kdf hkdf, hread]
  cases v.kdf.validate with
  | ok u => exact congrArg Except.ok (Json.set_eq_self hkdf)
  | error e => rfl

/-- All stay as they are, if those of each version are within their bounds. -/
theorem mapM_resolveVersion_eq_ok_iff {versions : List KeyVersion} {entries : List Json} :
    (versions.map KeyVersion.toJson).mapM resolveVersion = .ok entries ↔
      (∀ v ∈ versions, v.kdf.validate = .ok ()) ∧ versions.map KeyVersion.toJson = entries := by
  have hone : ∀ (v : KeyVersion) (entry : Json), resolveVersion v.toJson = .ok entry ↔
      v.kdf.validate = .ok () ∧ v.toJson = entry := by
    intro v entry
    rw [resolveVersion_toJson]
    cases v.kdf.validate with
    | ok u => exact ⟨fun h => ⟨rfl, Except.ok.inj h⟩, fun h => congrArg Except.ok h.2⟩
    | error e => exact iff_of_false (fun h => nomatch h) fun h => nomatch h.1
  -- entry by entry, and then both conjuncts over the whole list
  rw [Attempt.mapM_eq_ok_iff, List.forall₂_map_left_iff]
  simp only [hone, List.forall₂_and_left]
  rw [← List.forall₂_eq_eq_eq, List.forall₂_map_left_iff]

/-- The whole document stays as it is, if the parameters are within their bounds. -/
theorem resolveNames_toJson {c : Configuration} {value : Json} :
    resolveNames c.toJson = .ok value ↔
      (∀ v ∈ c.keyVersions, v.kdf.validate = .ok ()) ∧ value = c.toJson := by
  have hcipher : c.toJson.get? "cipher" = some (.string c.cipher.id) := rfl
  have hdigest : c.toJson.get? "hash_algorithm" = some (.string c.hashAlgorithm.id) := rfl
  have hversions : c.toJson.get? "key_versions"
      = some (.array (c.keyVersions.map KeyVersion.toJson)) := rfl
  have hnames : resolveNames c.toJson = resolveVersions c.toJson := by
    rw [resolveNames, resolveName_of_proper hcipher, Attempt.ok_bind,
      resolveName_of_proper hdigest, Attempt.ok_bind]
    · rw [DigestAlgorithm.ofId_id]
      rfl
    · rw [CipherSuite.ofId_id]
      rfl
  rw [hnames, resolveVersions_of_array hversions, Attempt.map_eq_ok]
  simp only [mapM_resolveVersion_eq_ok_iff]
  constructor
  · rintro ⟨entries, ⟨hvalid, rfl⟩, rfl⟩
    exact ⟨hvalid, Json.set_eq_self hversions⟩
  · rintro ⟨hvalid, rfl⟩
    exact ⟨_, ⟨hvalid, rfl⟩, Json.set_eq_self hversions⟩

/-! ## The whole way -/

/-- What is loaded is acceptable. -/
theorem validate_of_ofText {text : String} {c : Configuration} (h : ofText text = .ok c) :
    c.validate = .ok () := by
  rw [ofText] at h
  split at h
  · cases h
  · obtain ⟨w, -, hread⟩ := Attempt.bind_eq_ok.mp h
    split at hread
    · cases hread
    · obtain ⟨u, hvalid, hc⟩ := Attempt.bind_eq_ok.mp hread
      exact Except.ok.inj hc ▸ hvalid

/-- A configuration is loaded from its own text exactly if it is acceptable. -/
theorem ofText_render_eq_ok_iff (c d : Configuration) :
    ofText c.toJson.render = .ok d ↔ c.validate = .ok () ∧ d = c := by
  rw [ofText_render (c.isSettled_toJson 123), ofJson, Attempt.bind_eq_ok]
  constructor
  · rintro ⟨value, hvalue, hread⟩
    obtain ⟨-, rfl⟩ := resolveNames_toJson.mp hvalue
    rw [read?_toJson] at hread
    obtain ⟨u, hvalid, hc⟩ := Attempt.bind_eq_ok.mp hread
    exact ⟨hvalid, (Except.ok.inj hc).symm⟩
  · rintro ⟨hvalid, rfl⟩
    have hbounded : ∀ v ∈ d.keyVersions, v.kdf.validate = .ok () := fun v hv =>
      v.kdf.validate_eq_ok_iff.mpr ((d.validate_eq_ok_iff.mp hvalid).bounded v hv)
    refine ⟨d.toJson, resolveNames_toJson.mpr ⟨hbounded, rfl⟩, ?_⟩
    rw [read?_toJson]
    show (d.validate >>= fun _ => Except.ok d) = _
    rw [hvalid]
    rfl

/-- A configuration is loaded again from its own text, as it is and as nothing else, exactly if it
    is acceptable.  So whatever text it was loaded from, writing it and loading what is written
    gives it once more. -/
theorem reloaded_as_written :
    (∀ c d : Configuration, ofText c.toJson.render = .ok d ↔ c.validate = .ok () ∧ d = c) ∧
    (∀ text c, ofText text = .ok c → ofText c.toJson.render = .ok c) :=
  ⟨ofText_render_eq_ok_iff, fun _ c h =>
    (ofText_render_eq_ok_iff c c).mpr ⟨validate_of_ofText h, rfl⟩⟩

/-- What is loaded from a text with a short name in mixed case, with a member that is no setting
    and without most of the settings. -/
theorem reloaded_from_short_name :
    ofText ({ keyVersions := [⟨1, .hkdf "k"⟩] } : Configuration).toJson.render
      = .ok { keyVersions := [⟨1, .hkdf "k"⟩] } := by
  have hsettled : (Json.object [("note", .null), ("key_versions", .array [.object
      [("version", .ofNat 1),
        ("kdf", .object [("algorithm", .string "Hkdf"), ("info", .string "k")])]])]).IsSettled
      Json.maxDepth :=
    ⟨by simp [Json.IsSound, Json.AreSoundItems, Json.AreSoundMembers], rfl, rfl⟩
  have hloaded : ofText ("\x7b\"note\":null,\"key_versions\":[\x7b\"version\":1," ++
      "\"kdf\":\x7b\"algorithm\":\"Hkdf\",\"info\":\"k\"\x7d\x7d]\x7d")
      = .ok { keyVersions := [⟨1, .hkdf "k"⟩] } :=
    (ofText_render hsettled).trans rfl
  exact reloaded_as_written.2 _ _ hloaded

end Configuration

end ContentVault
