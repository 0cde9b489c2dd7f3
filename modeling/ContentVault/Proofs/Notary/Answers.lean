import ContentVault.Notary.Remote
import ContentVault.Proofs.Json.Records
import ContentVault.Proofs.Text.Trimming

/-! # Answers that are taken for transaction ids

    Whether an answer gives a transaction id depends on three things: on its
    status, on the value that its body spells, and on whether the id in it can
    be seen (`NotaryResponse.Grants`).  What the body has to look like is said
    by a relation of its own, `Carries`.  The status need not be one of
    success: all that is asked of it is that it stands for no error.

    Main statement: `store_eq_ok_iff`. -/

namespace ContentVault

namespace RemoteNotary

/-! ## The body -/

/-- Whether a value carries this transaction id: it is an object in which the member of that
    name occurs once and is a text, whatever else there is, or an array of this text. -/
inductive Carries : Json → String → Prop
  | object (before after : List (String × Json)) (tx : String)
      (alone : ∀ m ∈ before ++ after, m.1 ≠ "transaction_id") :
      Carries (.object (before ++ ("transaction_id", .string tx) :: after)) tx
  | array (tx : String) : Carries (.array [.string tx]) tx

/-- The members of an object that are looked at. -/
def relevant (members : List (String × Json)) : List (String × Json) :=
  members.filter fun m => ["transaction_id"].contains m.1

theorem contains_iff {name : String} :
    ["transaction_id"].contains name = true ↔ name = "transaction_id" := by
  rw [List.contains_iff_mem, List.mem_singleton]

theorem name_of_mem_relevant {members : List (String × Json)} {m : String × Json}
    (h : m ∈ relevant members) : m.1 = "transaction_id" :=
  contains_iff.mp (List.mem_filter.mp h).2

theorem relevant_eq_nil_iff {members : List (String × Json)} :
    relevant members = [] ↔ ∀ m ∈ members, m.1 ≠ "transaction_id" := by
  rw [relevant, List.filter_eq_nil_iff]
  exact forall₂_congr fun m _ => not_congr contains_iff

theorem transactionId?_object (members : List (String × Json)) :
    transactionId? (.object members) = match relevant members with
      | [m] => Json.string? m.2
      | _ => none := by
  show ((if Json.distinct ((relevant members).map Prod.fst)
    then some ⟨false, relevant members⟩ else none : Option Json.Fields) >>=
      fun fields => fields.required "transaction_id" Json.string?) = _
  have hname := @name_of_mem_relevant members
  generalize relevant members = given at hname
  match given with
  | [] => rfl
  | [(name, value)] =>
      obtain rfl : name = "transaction_id" := hname List.mem_cons_self
      rfl
  | m :: m' :: rest =>
      -- the name is there twice
      have htwice : m.1 = m'.1 := (hname List.mem_cons_self).trans
        (hname (List.mem_cons_of_mem m List.mem_cons_self)).symm
      have hnot : Json.distinct ((m :: m' :: rest).map Prod.fst) = false := by
        rw [List.map_cons, List.map_cons, Json.distinct, htwice, List.contains_cons,
          beq_self_eq_true]
        rfl
      rw [hnot]
      rfl

/-- The decoder of answers accepts what carries a transaction id, and nothing else. -/
theorem transactionId?_eq_some_iff {value : Json} {tx : String} :
    transactionId? value = some tx ↔ Carries value tx := by
  constructor
  · intro h
    cases value with
    | object members =>
        rw [transactionId?_object] at h
        split at h
        · -- one member was looked at; those before and after it have other names
          rename_i m hrelevant
          obtain ⟨name, value⟩ := m
          obtain ⟨before, after, rfl, hbefore, hname, hafter⟩ :=
            List.filter_eq_cons_iff.mp hrelevant
          obtain rfl : name = "transaction_id" := contains_iff.mp hname
          obtain rfl := Json.string?_eq_some_iff.mp h
          refine .object before after tx fun m hm => ?_
          rcases List.mem_append.mp hm with hm | hm
          · exact fun heq => hbefore m hm (contains_iff.mpr heq)
          · exact relevant_eq_nil_iff.mp hafter m hm
        · cases h
    | array items =>
        match items with
        | [] => cases h
        | [item] =>
            obtain rfl := Json.string?_eq_some_iff.mp (show Json.string? item = some tx from h)
            exact .array tx
        | _ :: _ :: _ => cases h
    | _ => cases h
  · intro h
    cases h with
    | object before after tx alone =>
        have hbefore := relevant_eq_nil_iff.mpr fun m hm => alone m (List.mem_append_left _ hm)
        have hafter := relevant_eq_nil_iff.mpr fun m hm => alone m (List.mem_append_right _ hm)
        have hrelevant : relevant (before ++ ("transaction_id", .string tx) :: after)
            = [("transaction_id", .string tx)] := by
          rw [relevant, List.filter_append]
          show relevant before ++ ("transaction_id", _) :: relevant after = _
          rw [hbefore, hafter]
          rfl
        rw [transactionId?_object, hrelevant]
        rfl
    | array tx => rfl

end RemoteNotary

/-! ## The whole answer -/

/-- Whether a status is taken for that of an answer with a transaction id: it is final, stands
    for no error of the client or of the server, and does not rule out a body. -/
def NotaryResponse.IsAccepted (status : Nat) : Prop :=
  (200 ≤ status ∧ status ≤ 399 ∨ 600 ≤ status ∧ status ≤ 999) ∧ status ≠ 204 ∧ status ≠ 304

/-- Whether an answer gives this transaction id. -/
structure NotaryResponse.Grants (r : NotaryResponse) (tx : String) : Prop where
  status : IsAccepted r.status
  body : ∃ value, Json.parseBytes? r.body = some value ∧ RemoteNotary.Carries value tx
  visible : ∃ c ∈ tx.toList, Text.isBlank c = false

namespace RemoteNotary

theorem isAccepted_iff {status : Nat} : NotaryResponse.IsAccepted status ↔
    isFinal status = true ∧ isError status = false ∧ isBodiless status = false := by
  simp only [NotaryResponse.IsAccepted, isFinal, isError, isBodiless, Bool.or_eq_true,
    Bool.or_eq_false_iff, Bool.and_eq_true, Bool.and_eq_false_iff, beq_iff_eq, beq_eq_false_iff_ne,
    decide_eq_true_eq, decide_eq_false_iff_not]
  omega

/-- Nothing is read from no bytes. -/
theorem parseBytes?_nil : Json.parseBytes? [] = none :=
  (Json.parseBytes?_ofString "").trans rfl

/-- What a body comes to. -/
def ofBody (body : Bytes) : Attempt String :=
  match Json.parseBytes? body >>= transactionId? with
  | none => .error (failed "invalid notarization response: no transaction id")
  | some id =>
    if (Text.trim id).isEmpty then
      .error (failed "notarization response carried an empty transaction id")
    else .ok id

theorem ofBody_eq_ok_iff {body : Bytes} {tx : String} :
    ofBody body = .ok tx ↔
      (∃ value, Json.parseBytes? body = some value ∧ Carries value tx) ∧
      ∃ c ∈ tx.toList, Text.isBlank c = false := by
  have hcarries : (∃ value, Json.parseBytes? body = some value ∧ Carries value tx) ↔
      Json.parseBytes? body >>= transactionId? = some tx := by
    rw [Option.bind_eq_bind, Option.bind_eq_some_iff]
    exact exists_congr fun value => and_congr_right fun _ => transactionId?_eq_some_iff.symm
  rw [hcarries, ← Text.isEmpty_trim_eq_false_iff, ofBody]
  constructor
  · intro h
    split at h
    · cases h
    · rename_i id hid
      split at h
      · cases h
      · rename_i hvisible
        cases h
        exact ⟨hid, Bool.eq_false_iff.mpr hvisible⟩
  · rintro ⟨hid, hvisible⟩
    rw [hid]
    exact if_neg (Bool.eq_false_iff.mp hvisible)

theorem ofBody_error {body : Bytes} {e : VaultFailure} (h : ofBody body = .error e) :
    ∃ what, e = .externalService what := by
  rw [ofBody] at h
  split at h
  · cases h
    exact ⟨_, rfl⟩
  · split at h
    · cases h
      exact ⟨_, rfl⟩
    · cases h

/-- An answer comes to what its body does, if its status is accepted, and otherwise to an
    error. -/
theorem interpret_cases (r : NotaryResponse) :
    (NotaryResponse.IsAccepted r.status ∧ interpret (some r) = ofBody r.body) ∨
    (¬ NotaryResponse.IsAccepted r.status ∧ ∃ what, interpret (some r) = .error (failed what)) := by
  have hinterpret : interpret (some r) =
      if !isFinal r.status then .error noAnswer
      else if isError r.status then
        .error (failed ("notarization rejected: status " ++ toString r.status))
      else ofBody (if isBodiless r.status then [] else r.body) := rfl
  rw [hinterpret, isAccepted_iff]
  cases hfinal : isFinal r.status with
  | false => exact Or.inr ⟨fun h => (nomatch h.1), _, rfl⟩
  | true =>
      cases herror : isError r.status with
      | true => exact Or.inr ⟨fun h => (nomatch h.2.1), _, rfl⟩
      | false =>
          cases isBodiless r.status with
          | true =>
              -- whatever was sent, there is no body
              have hempty : ofBody [] =
                  .error (failed "invalid notarization response: no transaction id") := by
                rw [ofBody, parseBytes?_nil]
                rfl
              exact Or.inr ⟨fun h => (nomatch h.2.2), _, hempty⟩
          | false => exact Or.inl ⟨⟨rfl, rfl, rfl⟩, rfl⟩

/-- An answer comes to a transaction id exactly if it gives it. -/
theorem interpret_eq_ok_iff {r : NotaryResponse} {tx : String} :
    interpret (some r) = .ok tx ↔ r.Grants tx := by
  rcases interpret_cases r with ⟨haccepted, hbody⟩ | ⟨hrefused, what, herror⟩
  · rw [hbody, ofBody_eq_ok_iff]
    exact ⟨fun ⟨hcarries, hvisible⟩ => ⟨haccepted, hcarries, hvisible⟩,
      fun h => ⟨h.body, h.visible⟩⟩
  · rw [herror]
    exact iff_of_false (fun h => nomatch h) fun h => hrefused h.status

/-- All errors are those of an external service. -/
theorem interpret_error {answer : Option NotaryResponse} {e : VaultFailure}
    (h : interpret answer = .error e) : ∃ what, e = .externalService what := by
  cases answer with
  | none =>
      cases h
      exact ⟨_, rfl⟩
  | some r =>
      rcases interpret_cases r with ⟨-, hbody⟩ | ⟨-, what, herror⟩
      · exact ofBody_error (hbody.symm.trans h)
      · exact ⟨what, (Except.error.inj (herror.symm.trans h)).symm⟩

/-! ## Calls -/

/-- Whether a service is sent this digest and gives this transaction id for it. -/
def Obtains (n : RemoteNotary) (exchange : NotaryRequest → Option NotaryResponse) (id : String)
    (hash : Fingerprint) (tx : String) : Prop :=
  ∃ request r, n.request? id hash = some request ∧ exchange request = some r ∧ r.Grants tx

/-- A call comes to a transaction id exactly if the service gives it. -/
theorem store_eq_ok_iff (n : RemoteNotary) (exchange : NotaryRequest → Option NotaryResponse)
    (id : String) (hash : Fingerprint) (tx : String) :
    n.store exchange id hash = .ok tx ↔ n.Obtains exchange id hash tx := by
  rw [store]
  cases hrequest : n.request? id hash with
  | none =>
      refine iff_of_false (fun h => nomatch h) ?_
      rintro ⟨request, r, hrequest', -⟩
      cases hrequest.symm.trans hrequest'
  | some request =>
      show interpret (exchange request) = _ ↔ _
      constructor
      · intro h
        cases hanswer : exchange request with
        | none =>
            rw [hanswer] at h
            cases h
        | some r => exact ⟨request, r, hrequest, hanswer, interpret_eq_ok_iff.mp (hanswer ▸ h)⟩
      · rintro ⟨request', r, hrequest', hanswer, hgrants⟩
        cases hrequest.symm.trans hrequest'
        rw [hanswer]
        exact interpret_eq_ok_iff.mpr hgrants

/-- A call that comes to nothing is the fault of the service. -/
theorem store_error {n : RemoteNotary} {exchange : NotaryRequest → Option NotaryResponse}
    {id : String} {hash : Fingerprint} {e : VaultFailure}
    (h : n.store exchange id hash = .error e) : ∃ what, e = .externalService what := by
  rw [store] at h
  split at h
  · cases h
    exact ⟨_, rfl⟩
  · exact interpret_error h

end RemoteNotary

end ContentVault
