import ContentVault.Json.Record
import ContentVault.Proofs.Json.Members
import ContentVault.Proofs.Json.Settled
import ContentVault.Proofs.Text.Spelling
import Mathlib.Data.List.Basic

/-! # Records, read back field by field

    A record is written with the fields that are there.  Its names are distinct, so
    each field is looked up as what was written, or found missing (`fields?_record`,
    `AreGiven.lookup`).  What is read for a field then depends on the field alone:
    `AreGiven.required` and `AreGiven.withDefault` for one that is always written,
    `AreGiven.optional` and `AreGiven.nullable` for one that may be left out.

    Values that were not written here have their fields in any order, with others
    among them (`required_filter_eq_some_iff`), or in an array by their places
    (`field?`). -/

namespace ContentVault.Json

/-! ## Scalars -/

/-- A number is read as it was written if it has enough bits. -/
theorem natural?_ofNat {bits n : Nat} (h : n < 1 <<< bits) : natural? bits (ofNat n) = some n := by
  show Option.filter (fun k => decide (k < 1 <<< bits)) (some n) = _
  rw [Option.filter_some, if_pos (decide_eq_true h)]

theorem word32?_ofNat (n : UInt32) : word32? (ofNat n.toNat) = some n := by
  rw [word32?, natural?_ofNat n.toNat_lt]
  exact congrArg some UInt32.ofNat_toNat

theorem word64?_ofNat (n : UInt64) : word64? (ofNat n.toNat) = some n := by
  rw [word64?, natural?_ofNat n.toNat_lt]
  exact congrArg some UInt64.ofNat_toNat

theorem Number.natural?_eq_some_iff {n : Number} {k : Nat} :
    n.natural? = some k ↔ n = .ofNat k := by
  obtain ⟨negative, whole, fraction, exponent⟩ := n
  rw [Number.natural?, Number.ofNat]
  cases negative <;> cases fraction <;> cases exponent <;> simp

theorem word32?_eq_some_iff {value : Json} {n : UInt32} :
    word32? value = some n ↔ value = .ofNat n.toNat := by
  constructor
  · intro h
    obtain ⟨k, hk, rfl⟩ := Option.map_eq_some_iff.mp h
    cases value with
    | number literal =>
        obtain ⟨hnatural, hbits⟩ := Option.filter_eq_some_iff.mp hk
        rw [Number.natural?_eq_some_iff.mp hnatural,
          UInt32.toNat_ofNat_of_lt' (of_decide_eq_true hbits)]
        rfl
    | _ => cases hk
  · rintro rfl
    exact word32?_ofNat n

theorem string?_eq_some_iff {value : Json} {s : String} :
    string? value = some s ↔ value = .string s := by
  cases value with
  | string t => exact ⟨fun h => congrArg Json.string (Option.some.inj h),
      fun h => congrArg some (Json.string.inj h)⟩
  | _ => exact iff_of_false (fun h => nomatch h) (fun h => nomatch h)

theorem bytes?_ofBytes (bs : Bytes) : bytes? (ofBytes bs) = some bs :=
  Text.Base64.decode?_encode bs

theorem nullable?_ofBytes (bs : Bytes) : nullable? bytes? (ofBytes bs) = some (some bs) := by
  show (bytes? (ofBytes bs)).map some = _
  rw [bytes?_ofBytes]
  rfl

theorem nullable?_word64 (n : UInt64) : nullable? word64? (ofNat n.toNat) = some (some n) := by
  show (word64? (ofNat n.toNat)).map some = _
  rw [word64?_ofNat]
  rfl

/-- A list of values that are read as they were written is read as it was written. -/
theorem list?_map {α : Type} {write : α → Json} {read : Json → Option α}
    (hread : ∀ a, read (write a) = some a) (as : List α) :
    list? read (.array (as.map write)) = some as := by
  show (as.map write).mapM read = some as
  induction as with
  | nil => rfl
  | cons a as ih =>
      rw [List.map_cons, List.mapM_cons, hread, ih]
      rfl

/-! ## The members of a record -/

/-- The members that are written for fields: those that are there. -/
def given (fields : List (String × Option Json)) : List (String × Json) :=
  fields.filterMap fun (name, value) => value.map fun value => (name, value)

theorem mem_given {fields : List (String × Option Json)} {name : String} {value : Json} :
    (name, value) ∈ given fields ↔ (name, some value) ∈ fields := by
  rw [given, List.mem_filterMap]
  constructor
  · rintro ⟨⟨n, v⟩, hmem, hv⟩
    obtain ⟨v, rfl, heq⟩ := Option.map_eq_some_iff.mp hv
    cases heq
    exact hmem
  · intro hmem
    exact ⟨(name, some value), hmem, rfl⟩

theorem names_given (fields : List (String × Option Json)) :
    ((given fields).map Prod.fst).Sublist (fields.map Prod.fst) := by
  induction fields with
  | nil => exact List.Sublist.slnil
  | cons field fields ih =>
      obtain ⟨name, value⟩ := field
      cases value with
      | none => exact ih.cons name
      | some value => exact ih.cons_cons name

theorem distinct_iff_nodup (names : List String) : distinct names = true ↔ names.Nodup := by
  induction names with
  | nil => exact iff_of_true rfl List.nodup_nil
  | cons name names ih =>
      rw [distinct, Bool.and_eq_true, ih, List.nodup_cons, Bool.not_eq_true', ← Bool.not_eq_true,
        List.contains_iff_mem]

/-- Whether what is written for a field is settled, if anything is. -/
def IsSettledField (depth : Nat) (field : String × Option Json) : Prop :=
  ∀ value ∈ field.2, value.IsSettled depth

theorem IsSettledField.some {depth : Nat} {name : String} {value : Json}
    (h : value.IsSettled depth) : IsSettledField depth (name, some value) := by
  intro v hv
  exact Option.some.inj hv ▸ h

theorem IsSettledField.map {depth : Nat} {name : String} {α : Type} {write : α → Json}
    (h : ∀ a, (write a).IsSettled depth) (a : Option α) :
    IsSettledField depth (name, a.map write) := by
  intro v hv
  obtain ⟨a, -, rfl⟩ := Option.map_eq_some_iff.mp hv
  exact h a

/-- Settled fields with distinct names make a settled record. -/
theorem IsSettled.record {depth : Nat} {fields : List (String × Option Json)}
    (hnames : (fields.map Prod.fst).Nodup) (h : fields.Forall (IsSettledField depth)) :
    IsSettled (depth + 1) (record fields) := by
  refine .object (hnames.sublist (names_given fields)) ?_
  rintro ⟨name, value⟩ hmem
  exact List.forall_iff_forall_mem.mp h (name, some value) (mem_given.mp hmem) value rfl

/-! ## Looking fields up -/

/-- Whether members are what was written for fields with distinct names. -/
structure AreGiven (fields : List (String × Option Json)) (members : List (String × Json)) :
    Prop where
  eq : members = given fields
  distinct : (fields.map Prod.fst).Nodup

/-- All members of a record are fields of it. -/
theorem fields?_record (v : Json) {fields : List (String × Option Json)} (hv : v = record fields)
    (hnames : (fields.map Prod.fst).Nodup) :
    ∃ members, fields? (fields.map Prod.fst) v = some ⟨false, members⟩ ∧
      AreGiven fields members := by
  subst hv
  refine ⟨given fields, ?_, rfl, hnames⟩
  have hall : (given fields).filter (fun m => (fields.map Prod.fst).contains m.1) = given fields :=
    List.filter_eq_self.mpr fun m hm => List.contains_iff_mem.mpr
      ((names_given fields).mem (List.mem_map_of_mem hm))
  have hdistinct : distinct ((given fields).map Prod.fst) = true :=
    (distinct_iff_nodup _).mpr (hnames.sublist (names_given fields))
  show (if distinct (((given fields).filter _).map Prod.fst) then
    some (Fields.mk false ((given fields).filter _)) else none) = _
  rw [hall, if_pos hdistinct]

namespace AreGiven

variable {fields : List (String × Option Json)} {members : List (String × Json)}

/-- A field is looked up as it was written. -/
theorem lookup (h : AreGiven fields members) {name : String} {value : Option Json}
    (hmem : (name, value) ∈ fields) : members.lookup name = value := by
  obtain ⟨rfl, hnames⟩ := h
  induction fields with
  | nil => cases hmem
  | cons field fields ih =>
      obtain ⟨n, v⟩ := field
      rw [List.map_cons, List.nodup_cons] at hnames
      rcases List.mem_cons.mp hmem with heq | hrest
      · cases heq
        cases value with
        | some value => exact List.lookup_cons_self
        | none =>
            -- the name is nowhere else either
            refine List.lookup_eq_none_iff.mpr fun m hm => bne_iff_ne.mpr fun heq => hnames.1 ?_
            obtain ⟨field, hfield, hname⟩ := List.mem_map.mp
              ((names_given fields).mem (List.mem_map_of_mem (f := Prod.fst) hm))
            exact List.mem_map.mpr ⟨field, hfield, hname.trans heq.symm⟩
      · have hne : name ≠ n := fun heq =>
          hnames.1 (List.mem_map.mpr ⟨(name, value), hrest, heq⟩)
        cases v with
        | none => exact ih hrest hnames.2
        | some v =>
            show ((n, v) :: given fields).lookup name = value
            rw [List.lookup_cons, beq_false_of_ne hne]
            exact ih hrest hnames.2

/-- The same by the place of the field. -/
theorem get? (h : AreGiven fields members) (place : Nat) {name : String} {value : Option Json}
    (hplace : fields[place]? = some (name, value)) :
    (Fields.mk false members).get? name = value :=
  h.lookup (List.mem_of_getElem? hplace)

variable {α : Type} {name : String} {value : Json}

/-- A field that was written is read as its value is. -/
theorem required (h : AreGiven fields members) (place : Nat)
    (hplace : fields[place]? = some (name, some value)) (read : Json → Option α) :
    (Fields.mk false members).required name read = read value := by
  rw [Fields.required, h.get? place hplace]
  rfl

/-- The same for a field that could have been left to its default. -/
theorem withDefault (h : AreGiven fields members) (place : Nat)
    (hplace : fields[place]? = some (name, some value)) (default : α) (read : Json → Option α) :
    (Fields.mk false members).withDefault name default read = read value := by
  rw [Fields.withDefault, h.get? place hplace]

/-- A field that is left out if there is nothing to write is read as what there was. -/
theorem optional (h : AreGiven fields members) (place : Nat) {write : α → Json} {a : Option α}
    (hplace : fields[place]? = some (name, a.map write)) {read : Json → Option α}
    (hread : ∀ a, nullable? read (write a) = some (some a)) :
    (Fields.mk false members).optional name read = some a := by
  rw [Fields.optional, h.get? place hplace]
  cases a with
  | none => rfl
  | some a => exact hread a

/-- The same for one whose default is that there is nothing. -/
theorem nullable (h : AreGiven fields members) (place : Nat) {write : α → Json} {a : Option α}
    (hplace : fields[place]? = some (name, a.map write)) {read : Json → Option α}
    (hread : ∀ a, nullable? read (write a) = some (some a)) :
    (Fields.mk false members).withDefault name none (nullable? read) = some a := by
  rw [Fields.withDefault, h.get? place hplace]
  cases a with
  | none => rfl
  | some a => exact hread a

end AreGiven

/-! ## Objects that name each member once -/

/-- Whether an object names each of its members once, as an object of a value in its own right
    does. -/
def NamesOnce : Json → Prop
  | .object members => (members.map Prod.fst).Nodup
  | _ => True

theorem names_insertMember (name : String) (value : Json) (members : List (String × Json)) :
    (insertMember name value members).map Prod.fst =
      if name ∈ members.map Prod.fst then members.map Prod.fst
      else members.map Prod.fst ++ [name] := by
  induction members with
  | nil => rfl
  | cons m members ih =>
      obtain ⟨n, v⟩ := m
      simp only [insertMember, List.map_cons, List.mem_cons]
      by_cases hname : n = name
      · subst hname
        rw [if_pos rfl, if_pos (Or.inl rfl)]
        rfl
      · simp only [if_neg hname, List.map_cons, ih, or_iff_right (Ne.symm hname)]
        split <;> rfl

/-- Of a repeated member one is left. -/
theorem namesOnce_lastWins (v : Json) : NamesOnce v.lastWins := by
  have hkept : ∀ members done : List (String × Json), (done.map Prod.fst).Nodup →
      ((membersLastWins members done).map Prod.fst).Nodup := by
    intro members
    induction members with
    | nil =>
        intro done hdone
        exact hdone
    | cons m members ih =>
        intro done hdone
        refine ih (insertMember m.1 (lastWins m.2) done) ?_
        rw [names_insertMember]
        split
        · exact hdone
        · rename_i hnew
          refine List.nodup_append.mpr ⟨hdone, List.pairwise_singleton _ _, ?_⟩
          intro name hname n hn heq
          exact hnew (List.mem_singleton.mp hn ▸ heq ▸ hname)
  cases v with
  | object members => exact hkept members [] List.nodup_nil
  | _ => trivial

/-- Of an object that names each member once, those are read that are fields. -/
theorem fields?_object {members : List (String × Json)} (h : NamesOnce (.object members))
    (names : List String) :
    fields? names (.object members) = some ⟨false, members.filter fun m => names.contains m.1⟩ := by
  have hsub := (List.filter_sublist (p := fun m => names.contains m.1) (l := members)).map Prod.fst
  exact if_pos ((distinct_iff_nodup _).mpr (h.sublist hsub))

/-- What is no field is not missed when a field is looked up. -/
theorem lookup_filter {name : String} {names : List String} (h : name ∈ names)
    (members : List (String × Json)) :
    (members.filter fun m => names.contains m.1).lookup name = members.lookup name := by
  induction members with
  | nil => rfl
  | cons m members ih =>
      rw [List.filter_cons, List.lookup_cons]
      by_cases hname : name = m.1
      · subst hname
        rw [if_pos (List.contains_iff_mem.mpr h), List.lookup_cons]
        simp only [beq_self_eq_true]
      · rw [beq_false_of_ne hname]
        split
        · rw [List.lookup_cons, beq_false_of_ne hname]
          exact ih
        · exact ih

/-- A field is read as the member of its name is. -/
theorem required_filter {α : Type} {name : String} {names : List String} (h : name ∈ names)
    (members : List (String × Json)) (read : Json → Option α) :
    (Fields.mk false (members.filter fun m => names.contains m.1)).required name read
      = members.lookup name >>= read := by
  show ((members.filter _).lookup name >>= read) = _
  rw [lookup_filter h]

/-- A field that can be read is written in one way only. -/
theorem required_filter_eq_some_iff {α : Type} {name : String} {names : List String}
    (h : name ∈ names) {members : List (String × Json)} {read : Json → Option α}
    {write : α → Json} (hread : ∀ {value a}, read value = some a ↔ value = write a) {a : α} :
    (Fields.mk false (members.filter fun m => names.contains m.1)).required name read = some a ↔
      members.lookup name = some (write a) := by
  rw [required_filter h, Option.bind_eq_bind, Option.bind_eq_some_iff]
  constructor
  · rintro ⟨value, hvalue, ha⟩
    rw [hvalue, hread.mp ha]
  · intro hvalue
    exact ⟨write a, hvalue, hread.mpr rfl⟩

/-! ## Fields by name or by place -/

/-- What a record gives for a field: a member of an object, or an item in the field's place. -/
def field? (names : List String) (name : String) : Json → Option Json
  | .object members => members.lookup name
  | .array items => (names.zip items).lookup name
  | _ => none

section Fields

variable {names : List String} {name : String} {v x : Json} {F : Fields}

/-- What is found by name is found in any shape. -/
theorem field?_of_get? (h : v.get? name = some x) (names : List String) :
    v.field? names name = some x := by
  cases v with
  | object members => exact h
  | _ => cases h

theorem get?_of_fields? (h : fields? names v = some F) (hname : name ∈ names) :
    F.get? name = v.field? names name := by
  cases v with
  | object members =>
      rw [fields?] at h
      split at h
      · cases h
        exact lookup_filter hname members
      · cases h
  | array items =>
      rw [fields?] at h
      split at h
      · cases h
        rfl
      · cases h
  | _ => cases h

theorem withDefault_of_fields? (h : fields? names v = some F) (hname : name ∈ names)
    (hx : v.field? names name = some x) {α : Type} (default : α) (read : Json → Option α) :
    F.withDefault name default read = read x := by
  rw [Fields.withDefault, get?_of_fields? h hname, hx]

theorem required_of_fields? (h : fields? names v = some F) (hname : name ∈ names)
    (hx : v.field? names name = some x) {α : Type} (read : Json → Option α) :
    F.required name read = read x := by
  rw [Fields.required, get?_of_fields? h hname, hx]
  rfl

/-- What is no field can be set without the fields changing. -/
theorem fields?_set (h : name ∉ names) (m : Json) :
    fields? names (v.set name m) = fields? names v := by
  cases v with
  | object members =>
      have hkeep : names.contains name = false :=
        Bool.not_eq_true _ ▸ fun hmem => h (List.contains_iff_mem.mp hmem)
      have hfilter : (insertMember name m members).filter (fun k => names.contains k.1)
          = members.filter fun k => names.contains k.1 := filter_insertMember hkeep m
      show (if distinct (((insertMember name m members).filter _).map Prod.fst) then
        some (Fields.mk false ((insertMember name m members).filter _)) else none) = _
      rw [hfilter]
      rfl
  | _ => rfl

end Fields

/-- Each of a list that is read can be read. -/
theorem exists_of_list? {α : Type} {read : Json → Option α} {items : List Json} {as : List α}
    (h : list? read (.array items) = some as) {i : Nat} {x : Json} (hx : items[i]? = some x) :
    ∃ a, read x = some a := by
  rw [list?] at h
  induction items generalizing as i with
  | nil => cases hx
  | cons item items ih =>
      rw [List.mapM_cons] at h
      obtain ⟨a, ha, h⟩ := Option.bind_eq_some_iff.mp h
      obtain ⟨rest, hrest, -⟩ := Option.bind_eq_some_iff.mp h
      cases i with
      | zero =>
          cases hx
          exact ⟨a, ha⟩
      | succ i => exact ih hrest hx

/-! ## Texts -/

/-- What is read from a settled value is read from its text. -/
theorem parse?_render_bind {α : Type} {v : Json} {depth : Nat} (h : v.IsSettled depth)
    {read? : Json → Option α} {a : α} (hread : read? v = some a) :
    (parse? v.render >>= read?) = some a := by
  rw [parse?_render h.sound]
  exact hread

/-- If reading takes each value back from what is printed, no two values are printed alike. -/
theorem render_eq_iff {α : Type} {toJson : α → Json} {read? : Json → Option α}
    (h : ∀ a, (parse? (toJson a).render >>= read?) = some a) (a b : α) :
    (toJson a).render = (toJson b).render ↔ a = b := by
  constructor
  · intro heq
    have hsame : some a = some b := by
      rw [← h a, ← h b, heq]
    exact Option.some.inj hsame
  · intro heq
    rw [heq]

end ContentVault.Json
