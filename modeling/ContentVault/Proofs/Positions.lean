import Mathlib.Data.List.Basic

/-! # Lists by position

    A list of parties is added to at its end, and a party that goes on is replaced
    where it stands.  Here is what stands at which position afterwards. -/

namespace ContentVault.Positions

variable {α : Type} {l : List α} {i j : Nat} {a b : α}

theorem set_self (h : l[i]? = some b) : (l.set i a)[i]? = some a := by
  rw [List.getElem?_set_self']
  exact Option.map_eq_some_iff.mpr ⟨b, h, rfl⟩

theorem set_of_ne (h : l[j]? = some b) (hne : j ≠ i) : (l.set i a)[j]? = some b :=
  (List.getElem?_set_ne (Ne.symm hne)).trans h

/-- What stands in a list in which one party was replaced. -/
theorem of_set (h : (l.set i a)[j]? = some b) :
    (j = i ∧ b = a) ∨ (j ≠ i ∧ l[j]? = some b) := by
  by_cases hj : j = i
  · subst hj
    rw [List.getElem?_set_self'] at h
    obtain ⟨_, -, rfl⟩ := Option.map_eq_some_iff.mp h
    exact Or.inl ⟨rfl, rfl⟩
  · rw [List.getElem?_set_ne (Ne.symm hj)] at h
    exact Or.inr ⟨hj, h⟩

theorem concat (h : l[i]? = some b) : (l ++ [a])[i]? = some b := by
  rw [List.getElem?_append_left (List.getElem?_eq_some_iff.mp h).1]
  exact h

/-- What stands in a list with one more party. -/
theorem of_concat (h : (l ++ [a])[j]? = some b) :
    l[j]? = some b ∨ (j = l.length ∧ b = a) := by
  rcases Nat.lt_trichotomy j l.length with hlt | rfl | hgt
  · rw [List.getElem?_append_left hlt] at h
    exact Or.inl h
  · rw [List.getElem?_concat_length] at h
    exact Or.inr ⟨rfl, (Option.some.inj h).symm⟩
  · rw [List.getElem?_eq_none] at h
    · cases h
    · rw [List.length_append]
      exact hgt

end ContentVault.Positions
