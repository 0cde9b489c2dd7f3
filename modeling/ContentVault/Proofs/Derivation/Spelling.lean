import ContentVault.Proofs.Configuration.Validation
import ContentVault.Proofs.Json.Records

/-! # Parameters, as objects spell them

    An object spells parameters (`Spells`) if its member `algorithm` is a name of
    their function, long or short and in any letter case, and if it has their fields
    with their values; what else is in it does not matter.  Names of different
    functions differ (`IsNamed.unique`), so an object spells the parameters of one
    function at most, and reading finds them (`readFields?_eq_some_iff`).

    Main statement: `parsed_as_spelled`, what `ofJson` makes of each value. -/

namespace ContentVault

/-! ## Names -/

namespace DerivationFunction

/-- Whether a text is a name of a function, in any letter case. -/
def IsNamed (a : DerivationFunction) (s : String) : Prop :=
  Text.equalsIgnoringCase a.id s = true ∨ Text.equalsIgnoringCase a.briefName s = true

/-- No two functions have a name in common. -/
theorem IsNamed.unique {a b : DerivationFunction} {s : String} (ha : a.IsNamed s)
    (hb : b.IsNamed s) : a = b := by
  have hlower : ∀ {a : DerivationFunction}, a.IsNamed s →
      Text.lower s ∈ [Text.lower a.id, Text.lower a.briefName] := by
    intro a h
    -- names that differ in case only are the same in lower case
    rcases h with h | h
    · rw [Text.equalsIgnoringCase_iff.mp h]
      exact List.mem_cons_self
    · rw [Text.equalsIgnoringCase_iff.mp h]
      exact List.mem_cons_of_mem _ List.mem_cons_self
  have hapart : ∀ a b : DerivationFunction,
      (∃ cs ∈ [Text.lower a.id, Text.lower a.briefName],
        cs ∈ [Text.lower b.id, Text.lower b.briefName]) → a = b := by
    intro a b
    cases a <;> cases b <;> decide
  exact hapart a b ⟨Text.lower s, hlower ha, hlower hb⟩

theorem ofId_eq_ok_iff {s : String} {a : DerivationFunction} : ofId s = .ok a ↔ a.IsNamed s := by
  have hnamed : ∀ b : DerivationFunction,
      (Text.equalsIgnoringCase b.id s || Text.equalsIgnoringCase b.briefName s) = true
        ↔ b.IsNamed s := fun b => Bool.or_eq_true _ _ ▸ Iff.rfl
  rw [ofId]
  cases hfind : all.find? fun b =>
      Text.equalsIgnoringCase b.id s || Text.equalsIgnoringCase b.briefName s with
  | some b =>
      have hb : b.IsNamed s := by
        have htest := List.find?_some hfind
        exact (hnamed b).mp htest
      exact ⟨fun h => Except.ok.inj h ▸ hb, fun h => congrArg Except.ok (hb.unique h)⟩
  | none =>
      have hall : a ∈ all := by cases a <;> decide
      refine iff_of_false (fun h => nomatch h) fun h => ?_
      exact List.find?_eq_none.mp hfind a hall ((hnamed a).mpr h)

/-- What is no name is reported as it was given. -/
theorem ofId_eq_error {s : String} (h : ∀ a : DerivationFunction, ¬ a.IsNamed s) :
    ofId s = .error (.unsupportedAlgorithm ("key derivation '" ++ s ++ "'")) := by
  cases hs : ofId s with
  | ok a => exact absurd (ofId_eq_ok_iff.mp hs) (h a)
  | error e =>
      rw [ofId] at hs
      split at hs
      · cases hs
      · exact hs.symm

theorem isNamed_id (a : DerivationFunction) : a.IsNamed a.id :=
  .inl (Text.equalsIgnoringCase_iff.mpr rfl)

end DerivationFunction

namespace DerivationParameters

/-! ## Fields -/

/-- The fields of parameters. -/
def fields : DerivationParameters → List (String × Json)
  | pbkdf2 iterations => [("iterations", .ofNat iterations.toNat)]
  | hkdf info => [("info", .string info)]
  | argon2 parallelism memoryKib iterations =>
    [("parallelism", .ofNat parallelism.toNat), ("memory_kib", .ofNat memoryKib.toNat),
      ("iterations", .ofNat iterations.toNat)]

theorem toJson_eq (p : DerivationParameters) :
    p.toJson = .object ((tagName, .string p.algorithm.id) :: p.fields) := by
  cases p <;> rfl

/-- Reading finds the parameters of a function whose fields are there. -/
theorem readFields?_eq_some_iff {members : List (String × Json)}
    (h : Json.NamesOnce (.object members)) {a : DerivationFunction} {p : DerivationParameters} :
    readFields? a (.object members) = some p ↔
      p.algorithm = a ∧ ∀ f ∈ p.fields, members.lookup f.1 = some f.2 := by
  cases a with
  | pbkdf2 =>
      have hname : "iterations" ∈ ["iterations"] := by simp
      rw [readFields?, Json.fields?_object h]
      simp only [Option.bind_eq_bind, Option.bind_some, Option.bind_eq_some_iff, Option.pure_def,
        Json.required_filter_eq_some_iff hname Json.word32?_eq_some_iff]
      cases p <;> simp [algorithm, fields]
  | hkdf =>
      have hname : "info" ∈ ["info"] := by simp
      rw [readFields?, Json.fields?_object h]
      simp only [Option.bind_eq_bind, Option.bind_some, Option.bind_eq_some_iff, Option.pure_def,
        Json.required_filter_eq_some_iff hname Json.string?_eq_some_iff]
      cases p <;> simp [algorithm, fields]
  | argon2 =>
      have hparallelism : "parallelism" ∈ ["parallelism", "memory_kib", "iterations"] := by simp
      have hmemory : "memory_kib" ∈ ["parallelism", "memory_kib", "iterations"] := by simp
      have hiterations : "iterations" ∈ ["parallelism", "memory_kib", "iterations"] := by simp
      rw [readFields?, Json.fields?_object h]
      simp only [Option.bind_eq_bind, Option.bind_some, Option.bind_eq_some_iff, Option.pure_def,
        Json.required_filter_eq_some_iff hparallelism Json.word32?_eq_some_iff,
        Json.required_filter_eq_some_iff hmemory Json.word32?_eq_some_iff,
        Json.required_filter_eq_some_iff hiterations Json.word32?_eq_some_iff]
      cases p <;> simp [algorithm, fields]

/-! ## Values -/

/-- Whether a value spells parameters: it names their function, and it has their fields. -/
structure Spells (value : Json) (p : DerivationParameters) : Prop where
  named : ∃ s, value.get? tagName = some (.string s) ∧ p.algorithm.IsNamed s
  fields : ∀ f ∈ p.fields, value.get? f.1 = some f.2

theorem validate_eq_error {p : DerivationParameters} {e : VaultFailure}
    (h : p.validate = .error e) : ∃ reason, e = .invalidKdfParameters reason := by
  rw [validate] at h
  split at h
  · rename_i reason _
    exact ⟨reason, (Except.error.inj h).symm⟩
  · cases h

section Reading

variable {value : Json} {s : String}

theorem ofJson_of_nameless (h : ∀ s, value.get? tagName ≠ some (.string s)) :
    ofJson value = .error (.invalidKdfParameters "missing 'algorithm' field") := by
  rw [ofJson]
  split
  · rename_i s hs
    exact absurd hs (h s)
  · rfl

theorem ofJson_of_unknown (htag : value.get? tagName = some (.string s)) {e : VaultFailure}
    (h : DerivationFunction.ofId s = .error e) : ofJson value = .error e := by
  rw [ofJson, htag]
  show (DerivationFunction.ofId s >>= _) = _
  rw [h]
  rfl

theorem ofJson_of_named (htag : value.get? tagName = some (.string s)) {a : DerivationFunction}
    (h : a.IsNamed s) :
    ofJson value = match readFields? a value with
      | none => .error (.invalidKdfParameters (a.id ++ ": malformed fields"))
      | some p => p.validate >>= fun _ => .ok p := by
  rw [ofJson, htag]
  show (DerivationFunction.ofId s >>= _) = _
  rw [DerivationFunction.ofId_eq_ok_iff.mpr h]
  rfl

/-- What is not read names no function, or it is invalid. -/
theorem ofJson_eq_error {e : VaultFailure} (h : ofJson value = .error e) :
    (∃ s, value.get? tagName = some (.string s) ∧ DerivationFunction.ofId s = .error e) ∨
      ∃ reason, e = .invalidKdfParameters reason := by
  by_cases htag : ∃ s, value.get? tagName = some (.string s)
  · obtain ⟨s, htag⟩ := htag
    cases ha : DerivationFunction.ofId s with
    | error f =>
        cases (ofJson_of_unknown htag ha).symm.trans h
        exact Or.inl ⟨s, htag, ha⟩
    | ok a =>
        rw [ofJson_of_named htag (DerivationFunction.ofId_eq_ok_iff.mp ha)] at h
        split at h
        · exact Or.inr ⟨_, (Except.error.inj h).symm⟩
        · rename_i p _
          cases hvalid : p.validate with
          | ok u =>
              rw [hvalid] at h
              cases h
          | error f =>
              rw [hvalid] at h
              cases h
              exact Or.inr (validate_eq_error hvalid)
  · cases (ofJson_of_nameless (not_exists.mp htag)).symm.trans h
    exact Or.inr ⟨_, rfl⟩

/-- What is read for the function that is named is what is spelled. -/
theorem readFields?_eq_some_iff_spells (honce : value.NamesOnce)
    (htag : value.get? tagName = some (.string s)) {a : DerivationFunction} (h : a.IsNamed s)
    {p : DerivationParameters} : readFields? a value = some p ↔ Spells value p := by
  cases value with
  | object members =>
      rw [readFields?_eq_some_iff honce]
      constructor
      · rintro ⟨rfl, hfields⟩
        exact ⟨⟨s, htag, h⟩, hfields⟩
      · rintro ⟨⟨t, ht, hnamed⟩, hfields⟩
        have hst : t = s := Json.string.inj (Option.some.inj (ht.symm.trans htag))
        exact ⟨(hst ▸ hnamed).unique h, hfields⟩
  | _ => cases htag

end Reading

/-- Written parameters spell themselves. -/
theorem spells_toJson (p : DerivationParameters) : Spells p.toJson p := by
  refine ⟨⟨p.algorithm.id, ?_, p.algorithm.isNamed_id⟩, ?_⟩
  · cases p <;> rfl
  · cases p <;> simp [toJson, fields, tagName, Json.get?, List.lookup_cons]

theorem namesOnce_toJson (p : DerivationParameters) : p.toJson.NamesOnce := by
  cases p <;> simp [toJson, tagName, Json.NamesOnce]

/-- What is spelled is read, if it is within its bounds. -/
theorem ofJson_of_spells {value : Json} (honce : value.NamesOnce) {p : DerivationParameters}
    (h : Spells value p) : ofJson value = p.validate >>= fun _ => .ok p := by
  obtain ⟨s, htag, hname⟩ := h.named
  rw [ofJson_of_named htag hname, (readFields?_eq_some_iff_spells honce htag hname).mpr h]

theorem ofJson_toJson {p : DerivationParameters} (h : p.validate = .ok ()) :
    ofJson p.toJson = .ok p := by
  rw [ofJson_of_spells p.namesOnce_toJson p.spells_toJson, h]
  rfl

/-- How reading can end, by the name that is given. -/
inductive ReadCase (value : Json) : Prop
  | nameless (h : ∀ s, value.get? tagName ≠ some (.string s))
      (hread : ofJson value = .error (.invalidKdfParameters "missing 'algorithm' field"))
  | unknown (s : String) (htag : value.get? tagName = some (.string s))
      (h : ∀ a : DerivationFunction, ¬ a.IsNamed s)
      (hread : ofJson value = .error (.unsupportedAlgorithm ("key derivation '" ++ s ++ "'")))
  | refused (s : String) (a : DerivationFunction) (htag : value.get? tagName = some (.string s))
      (h : a.IsNamed s) (reason : String)
      (hread : ofJson value = .error (.invalidKdfParameters reason))
  | read (p : DerivationParameters) (h : Spells value p) (hvalid : p.validate = .ok ())
      (hread : ofJson value = .ok p)

theorem read_case {value : Json} (honce : value.NamesOnce) : ReadCase value := by
  by_cases htag : ∃ s, value.get? tagName = some (.string s)
  · obtain ⟨s, htag⟩ := htag
    by_cases hname : ∃ a : DerivationFunction, a.IsNamed s
    · obtain ⟨a, hname⟩ := hname
      cases hfields : readFields? a value with
      | none =>
          have hnamed := ofJson_of_named htag hname
          rw [hfields] at hnamed
          exact .refused s a htag hname _ hnamed
      | some p =>
          have hspells := (readFields?_eq_some_iff_spells honce htag hname).mp hfields
          have hread := ofJson_of_spells honce hspells
          cases hvalid : p.validate with
          | ok u =>
              rw [hvalid] at hread
              exact .read p hspells hvalid hread
          | error e =>
              obtain ⟨reason, rfl⟩ := validate_eq_error hvalid
              rw [hvalid] at hread
              exact .refused s a htag hname reason hread
    · have hunknown := not_exists.mp hname
      exact .unknown s htag hunknown
        (ofJson_of_unknown htag (DerivationFunction.ofId_eq_error hunknown))
  · have hnameless := not_exists.mp htag
    exact .nameless hnameless (ofJson_of_nameless hnameless)

/-- Parameters are read from the values that spell them, if they are within their bounds, and from
    no others; what is written is read back.  An unknown name is unsupported; whatever else is
    missing, of the wrong type or out of bounds makes the parameters invalid. -/
theorem parsed_as_spelled {value : Json} (honce : value.NamesOnce) :
    (∀ p, ofJson value = .ok p ↔ Spells value p ∧ p.validate = .ok ()) ∧
    (∀ p, ofJson value = .ok p → ofJson p.toJson = .ok p) ∧
    (∀ what, ofJson value = .error (.unsupportedAlgorithm what) ↔
      ∃ s, value.get? tagName = some (.string s) ∧ (∀ a : DerivationFunction, ¬ a.IsNamed s) ∧
        what = "key derivation '" ++ s ++ "'") ∧
    ((∃ reason, ofJson value = .error (.invalidKdfParameters reason)) ↔
      (∀ s, value.get? tagName ≠ some (.string s)) ∨
      ∃ s, ∃ a : DerivationFunction, value.get? tagName = some (.string s) ∧ a.IsNamed s ∧
        ∀ p, Spells value p → p.validate ≠ .ok ()) ∧
    (∀ p e, Spells value p → p.validate = .error e → ofJson value = .error e) := by
  have hread : ∀ p, Spells value p → p.validate = .ok () → ofJson value = .ok p := by
    intro p hspells hvalid
    rw [ofJson_of_spells honce hspells, hvalid]
    rfl
  have hspelled : ∀ p, ofJson value = .ok p → Spells value p ∧ p.validate = .ok () := by
    intro p hp
    cases read_case honce with
    | read q hspells hvalid hq =>
        cases hq.symm.trans hp
        exact ⟨hspells, hvalid⟩
    | nameless _ hq => cases hq.symm.trans hp
    | unknown _ _ _ hq => cases hq.symm.trans hp
    | refused _ _ _ _ _ hq => cases hq.symm.trans hp
  refine ⟨fun p => ⟨hspelled p, fun h => hread p h.1 h.2⟩,
    fun p hp => ofJson_toJson (hspelled p hp).2, ?_, ?_, ?_⟩
  · -- only an unknown name is unsupported
    intro what
    constructor
    · intro hwhat
      cases read_case honce with
      | unknown s htag h hq =>
          cases hq.symm.trans hwhat
          exact ⟨s, htag, h, rfl⟩
      | nameless _ hq => cases hq.symm.trans hwhat
      | refused _ _ _ _ _ hq => cases hq.symm.trans hwhat
      | read _ _ _ hq => cases hq.symm.trans hwhat
    · rintro ⟨s, htag, h, rfl⟩
      exact ofJson_of_unknown htag (DerivationFunction.ofId_eq_error h)
  · -- and what is not read for another reason is invalid
    constructor
    · rintro ⟨reason, hreason⟩
      cases read_case honce with
      | nameless h _ => exact Or.inl h
      | unknown _ _ _ hq => cases hq.symm.trans hreason
      | refused s a htag h _ _ =>
          refine Or.inr ⟨s, a, htag, h, fun p hspells hvalid => ?_⟩
          cases (hread p hspells hvalid).symm.trans hreason
      | read _ _ _ hq => cases hq.symm.trans hreason
    · rintro (h | ⟨s, a, htag, hname, hnone⟩)
      · exact ⟨_, ofJson_of_nameless h⟩
      · cases read_case honce with
        | nameless h _ => exact absurd htag (h s)
        | unknown t ht h _ =>
            cases htag.symm.trans ht
            exact absurd hname (h a)
        | refused _ _ _ _ reason hq => exact ⟨reason, hq⟩
        | read p hspells hvalid _ => exact absurd hvalid (hnone p hspells)
  · intro p e hspells he
    rw [ofJson_of_spells honce hspells, he]
    rfl

/-- The fields come in any order and with others among them, of a repeated one the last counts, and
    the name is the short one in mixed case. -/
theorem parsed_as_spelled_of_repeated :
    ofJson (Json.lastWins (.object [("memory_kib", .ofNat 8), ("note", .null),
      ("memory_kib", .ofNat 65536), ("algorithm", .string "aRgOn2"), ("iterations", .ofNat 3),
      ("parallelism", .ofNat 16)])) = .ok (argon2 16 65536 3) := by
  refine ((parsed_as_spelled (Json.namesOnce_lastWins _)).1 _).mpr ⟨⟨?_, ?_⟩, by decide⟩
  · exact ⟨"aRgOn2", rfl, .inr (by decide)⟩
  · simp only [fields, List.forall_mem_cons]
    exact ⟨rfl, rfl, rfl, fun _ h => nomatch h⟩

end DerivationParameters

end ContentVault
