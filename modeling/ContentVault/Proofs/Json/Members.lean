import ContentVault.Json.Basic
import Mathlib.Data.List.Basic

/-! # The members of an object, set and looked up

    Setting a member puts it in the place of the one that has its name, else at the
    end.  It is found under its name from then on, and the others as they were
    (`get?_set_self`, `get?_set_of_ne`); of two that are set under one name the
    second counts (`set_set`), members of different names are set in any order
    (`set_comm`), and setting what is there already changes nothing (`set_eq_self`). -/

namespace ContentVault.Json

section Members

variable {name : String} {members : List (String × Json)}

theorem lookup_insertMember (name : String) (value : Json) (members : List (String × Json))
    (n : String) :
    (insertMember name value members).lookup n = if n = name then some value
      else members.lookup n := by
  have hcons : ∀ (k : String) (v : Json) (rest : List (String × Json)),
      ((k, v) :: rest).lookup n = if n = k then some v else rest.lookup n := by
    intro k v rest
    rw [List.lookup_cons]
    by_cases hn : n = k
    · rw [if_pos hn, beq_iff_eq.mpr hn]
    · rw [if_neg hn, beq_false_of_ne hn]
  induction members with
  | nil => exact hcons name value []
  | cons m members ih =>
      obtain ⟨k, v⟩ := m
      rw [insertMember]
      by_cases hk : k = name
      · subst hk
        rw [if_pos rfl, hcons, hcons]
        by_cases hn : n = k
        · rw [if_pos hn, if_pos hn]
        · rw [if_neg hn, if_neg hn, if_neg hn]
      · rw [if_neg hk, hcons, hcons, ih]
        by_cases hn : n = k
        · subst hn
          rw [if_pos rfl, if_neg hk, if_pos rfl]
        · rw [if_neg hn, if_neg hn]

theorem insertMember_insertMember (name : String) (value other : Json)
    (members : List (String × Json)) :
    insertMember name value (insertMember name other members)
      = insertMember name value members := by
  induction members with
  | nil => exact if_pos rfl
  | cons m members ih =>
      obtain ⟨k, v⟩ := m
      rw [insertMember, insertMember]
      by_cases hk : k = name
      · rw [if_pos hk, if_pos hk, insertMember, if_pos hk]
      · rw [if_neg hk, if_neg hk, insertMember, if_neg hk, ih]

/-- The order matters only for two new names. -/
theorem insertMember_comm {other : String} (hne : name ≠ other)
    (h : name ∈ members.map Prod.fst) (value v : Json) :
    insertMember other v (insertMember name value members)
      = insertMember name value (insertMember other v members) := by
  induction members with
  | nil => cases h
  | cons m members ih =>
      obtain ⟨k, w⟩ := m
      by_cases hk : k = name
      · subst hk
        rw [insertMember, if_pos rfl, insertMember, if_neg hne, insertMember, if_neg hne,
          insertMember, if_pos rfl]
      · have hrest : name ∈ members.map Prod.fst :=
          (List.mem_cons.mp h).resolve_left fun heq => hk heq.symm
        rw [insertMember, if_neg hk]
        by_cases ho : k = other
        · rw [insertMember, if_pos ho, insertMember, if_pos ho, insertMember, if_neg hk]
        · rw [insertMember, if_neg ho, insertMember, if_neg ho, insertMember, if_neg hk, ih hrest]

theorem insertMember_of_lookup {value : Json} (h : members.lookup name = some value) :
    insertMember name value members = members := by
  induction members with
  | nil => cases h
  | cons m members ih =>
      obtain ⟨k, v⟩ := m
      rw [List.lookup_cons] at h
      rw [insertMember]
      by_cases hk : k = name
      · rw [beq_iff_eq.mpr hk.symm] at h
        rw [if_pos hk, Option.some.inj h]
      · rw [beq_false_of_ne (Ne.symm hk)] at h
        rw [if_neg hk, ih h]

theorem mem_names_of_lookup {value : Json} (h : members.lookup name = some value) :
    name ∈ members.map Prod.fst := by
  obtain ⟨before, after, rfl, -⟩ := List.lookup_eq_some_iff.mp h
  simp

/-- What is not kept does not matter among what is. -/
theorem filter_insertMember {keep : String → Bool} (h : keep name = false) (value : Json) :
    (insertMember name value members).filter (fun m => keep m.1)
      = members.filter fun m => keep m.1 := by
  induction members with
  | nil =>
      rw [insertMember, List.filter_cons, h]
      rfl
  | cons m members ih =>
      obtain ⟨k, v⟩ := m
      rw [insertMember]
      by_cases hk : k = name
      · subst hk
        rw [if_pos rfl, List.filter_cons, List.filter_cons, h]
        rfl
      · rw [if_neg hk, List.filter_cons, List.filter_cons, ih]

end Members

section Objects

variable {value member : Json} {name n : String}

theorem get?_set_self (h : value.get? name = some member) (m : Json) :
    (value.set name m).get? name = some m := by
  cases value with
  | object members =>
      show (insertMember name m members).lookup name = _
      rw [lookup_insertMember, if_pos rfl]
  | _ => cases h

theorem get?_set_of_ne (h : n ≠ name) (value m : Json) :
    (value.set name m).get? n = value.get? n := by
  cases value with
  | object members =>
      show (insertMember name m members).lookup n = _
      rw [lookup_insertMember, if_neg h]
      rfl
  | _ => rfl

theorem set_set (value : Json) (name : String) (m k : Json) :
    (value.set name m).set name k = value.set name k := by
  cases value with
  | object members => exact congrArg Json.object (insertMember_insertMember name k m members)
  | _ => rfl

theorem set_comm (hne : name ≠ n) (h : value.get? name = some member) (m k : Json) :
    (value.set name m).set n k = (value.set n k).set name m := by
  cases value with
  | object members =>
      exact congrArg Json.object (insertMember_comm hne (mem_names_of_lookup h) m k)
  | _ => rfl

theorem set_eq_self (h : value.get? name = some member) : value.set name member = value := by
  cases value with
  | object members => exact congrArg Json.object (insertMember_of_lookup h)
  | _ => rfl

end Objects

end ContentVault.Json
