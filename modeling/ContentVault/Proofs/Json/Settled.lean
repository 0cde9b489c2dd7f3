import ContentVault.Proofs.Json.Reading

/-! # Printed JSON, read as a value in its own right

    A text that is taken for a value in its own right is not taken as it stands:
    numbers beyond range and values nested too deeply are refused, and of a
    repeated member all but the last are dropped.  A value in which there is
    nothing to refuse and nothing to drop is settled (`IsSettled`).  Scalars are,
    numbers up to 64 bits, and so are arrays and objects of settled values, if no
    name of a member is there twice (`IsSettled.array`, `IsSettled.object`).

    Main statement: `parseValue?_render`, printing a settled value loses nothing. -/

namespace ContentVault.Json

/-- Whether a value comes out of its text as it went in: it has a text, can be represented with
    `depth` levels of nesting to go, and has no member that another one replaces. -/
structure IsSettled (depth : Nat) (v : Json) : Prop where
  sound : v.IsSound
  admissible : v.admissibleWithin depth = true
  unrepeated : v.lastWins = v

/-! ## Numbers -/

theorem le_foldl_digits (digits : List Char) (start : Nat) :
    start ≤ digits.foldl (fun n c => n * 10 + (c.toNat - 48)) start := by
  induction digits generalizing start with
  | nil => exact Nat.le_refl start
  | cons d digits ih =>
      have hnext := ih (start * 10 + (d.toNat - 48))
      rw [List.foldl_cons]
      omega

/-- As long as the number fits, all digits count. -/
theorem significant_eq {digits : List Char} {start : Nat}
    (h : digits.foldl (fun n c => n * 10 + (c.toNat - 48)) start < UInt64.size) :
    significant digits start = (digits.foldl (fun n c => n * 10 + (c.toNat - 48)) start, 0) := by
  induction digits generalizing start with
  | nil => rfl
  | cons d digits ih =>
      rw [List.foldl_cons] at h ⊢
      have hfits := Nat.lt_of_le_of_lt (le_foldl_digits digits _) h
      rw [significant]
      show (if _ < UInt64.size then _ else _) = _
      rw [if_pos hfits]
      exact ih h

/-- Rounding adds less than one in the last digit that is kept. -/
theorem roundDouble_le (n : Nat) : roundDouble n ≤ n + 1 <<< (n.log2 + 1 - 53) := by
  have hle : ∀ unit, n / unit * unit ≤ n := Nat.div_mul_le_self n
  simp only [roundDouble]
  split
  · rw [Nat.add_one_mul]
    exact Nat.add_le_add_right (hle _) _
  · exact Nat.le_add_right_of_le (hle _)

/-- Numbers of 64 bits are within range. -/
theorem overflows_ofNat {n : Nat} (h : n < UInt64.size) : (Number.ofNat n).overflows = false := by
  have hdigits : (Nat.toDigits 10 n).foldl (fun n c => n * 10 + (c.toNat - 48)) 0 = n :=
    Text.digitsValue_toDigits n
  have hsignificant : significant (Nat.toDigits 10 n ++ []) 0 = (n, 0) := by
    rw [List.append_nil, significant_eq (hdigits.symm ▸ h), hdigits]
  have hlog : n.log2 ≤ 63 := by
    rcases Nat.eq_zero_or_pos n with rfl | hpos
    · decide
    · exact Nat.le_of_lt_succ ((Nat.log2_lt (Nat.ne_of_gt hpos)).mpr h)
  have hunit : 1 <<< (n.log2 + 1 - 53) ≤ 2 ^ 11 := by
    rw [Nat.one_shiftLeft]
    exact Nat.pow_le_pow_right (by decide) (by omega)
  have hround := roundDouble_le n
  have hlimit : UInt64.size + 2 ^ 11 ≤ (1 <<< 1024) - (1 <<< 970) := by decide
  have hsmall : ¬ roundDouble n * roundDouble (Nat.pow 10 0) ≥ (1 <<< 1024) - (1 <<< 970) := by
    have hone : roundDouble (Nat.pow 10 0) = 1 := by decide
    rw [hone, Nat.mul_one]
    omega
  rw [Number.overflows, Number.ofNat, hsignificant]
  show (if n == 0 || false then false
    else decide (roundDouble n * roundDouble (Nat.pow 10 0) ≥ (1 <<< 1024) - (1 <<< 970))) = false
  rw [decide_eq_false hsmall, ite_self]

/-! ## Scalars -/

namespace IsSettled

variable {depth : Nat}

theorem string (s : String) : IsSettled depth (.string s) :=
  ⟨trivial, rfl, rfl⟩

theorem bool (b : Bool) : IsSettled depth (.bool b) :=
  ⟨trivial, rfl, rfl⟩

theorem ofNat {n : Nat} (h : n < UInt64.size) : IsSettled depth (.ofNat n) where
  sound := isSound_ofNat n
  admissible := by
    show (!(Number.ofNat n).overflows) = true
    rw [overflows_ofNat h]
    rfl
  unrepeated := rfl

theorem word32 (n : UInt32) : IsSettled depth (.ofNat n.toNat) :=
  ofNat (Nat.lt_trans n.toNat_lt (by decide))

theorem word64 (n : UInt64) : IsSettled depth (.ofNat n.toNat) :=
  ofNat n.toNat_lt

/-! ## Arrays and objects -/

/-- An array of settled values is settled. -/
theorem array {items : List Json} (h : ∀ item ∈ items, IsSettled depth item) :
    IsSettled (depth + 1) (.array items) := by
  have hall : AreSoundItems items ∧ itemsAdmissible depth items = true ∧
      itemsLastWins items = items := by
    induction items with
    | nil => exact ⟨trivial, rfl, rfl⟩
    | cons item items ih =>
        obtain ⟨hitem, hitems⟩ := List.forall_mem_cons.mp h
        obtain ⟨hsound, hadmissible, hunrepeated⟩ := ih hitems
        refine ⟨⟨hitem.sound, hsound⟩, ?_, ?_⟩
        · rw [itemsAdmissible, hitem.admissible, hadmissible]
          rfl
        · rw [itemsLastWins, hitem.unrepeated, hunrepeated]
  exact ⟨hall.1, hall.2.1, congrArg Json.array hall.2.2⟩

end IsSettled

/-- A new name goes to the end. -/
theorem insertMember_of_not_mem {name : String} {members : List (String × Json)}
    (h : name ∉ members.map Prod.fst) (value : Json) :
    insertMember name value members = members ++ [(name, value)] := by
  induction members with
  | nil => rfl
  | cons m members ih =>
      obtain ⟨n, v⟩ := m
      rw [List.map_cons, List.mem_cons, not_or] at h
      rw [insertMember, if_neg (Ne.symm h.1), ih h.2]
      rfl

/-- Where no name comes a second time, nothing is replaced. -/
theorem membersLastWins_eq {members : List (String × Json)} (done : List (String × Json))
    (hsettled : ∀ m ∈ members, lastWins m.2 = m.2)
    (hnew : (done.map Prod.fst ++ members.map Prod.fst).Nodup) :
    membersLastWins members done = done ++ members := by
  induction members generalizing done with
  | nil => rw [membersLastWins, List.append_nil]
  | cons m members ih =>
      obtain ⟨name, value⟩ := m
      obtain ⟨hvalue, hrest⟩ := List.forall_mem_cons.mp hsettled
      rw [List.map_cons] at hnew
      have hname : name ∉ done.map Prod.fst := fun hmem =>
        (List.nodup_append.mp hnew).2.2 name hmem name List.mem_cons_self rfl
      have hinsert : insertMember name (lastWins value) done = done ++ [(name, value)] := by
        rw [hvalue, insertMember_of_not_mem hname]
      rw [membersLastWins, hinsert, ih _ hrest, List.append_assoc]
      · rfl
      · rw [List.map_append, List.append_assoc]
        exact hnew

namespace IsSettled

variable {depth : Nat}

/-- An object of settled values is settled if each name is there once. -/
theorem object {members : List (String × Json)} (hnames : (members.map Prod.fst).Nodup)
    (h : ∀ m ∈ members, IsSettled depth m.2) : IsSettled (depth + 1) (.object members) := by
  have hall : AreSoundMembers members ∧ membersAdmissible depth members = true := by
    clear hnames
    induction members with
    | nil => exact ⟨trivial, rfl⟩
    | cons m members ih =>
        obtain ⟨hm, hmembers⟩ := List.forall_mem_cons.mp h
        obtain ⟨hsound, hadmissible⟩ := ih hmembers
        refine ⟨⟨hm.sound, hsound⟩, ?_⟩
        rw [membersAdmissible, hm.admissible, hadmissible]
        rfl
  refine ⟨hall.1, hall.2, ?_⟩
  have hkept := membersLastWins_eq [] (fun m hm => (h m hm).unrepeated) hnames
  exact congrArg Json.object hkept

end IsSettled

/-! ## Reading a text -/

/-- Printing a settled value loses nothing, also if its text is taken for a value in its own
    right. -/
theorem parseValue?_render {v : Json} (h : v.IsSettled maxDepth) :
    parseValue? v.render = some v := by
  rw [parseValue?, parse?_render h.sound]
  show (if v.admissibleWithin maxDepth = true then some v.lastWins else none) = _
  rw [if_pos h.admissible, h.unrepeated]

end ContentVault.Json
