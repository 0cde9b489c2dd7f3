import ContentVault.Proofs.Time.Spelling

/-! # Moments as text, read with some freedom

    The relaxed reader skips blanks in front of each part and takes numbers of
    fewer digits.  Nothing in a written moment gives it anything to skip, and no
    number stops short.  It also takes the sign in front of a year that is not
    written with four digits (`relaxedYear?_yearText`).  So it reads what is shown
    of every moment back, in whatever year (`readRelaxed?_text`). -/

namespace ContentVault.Timestamp

/-! ## Nothing to skip -/

theorem isBlank_of_isDigit {c : Char} (h : c.isDigit = true) : Text.isBlank c = false := by
  have hlow : 48 ≤ c.toNat ∧ c.toNat ≤ 57 := by
    simpa [Char.isDigit, UInt32.le_iff_toNat_le] using h
  simp only [Text.isBlank, Bool.or_eq_false_iff, Bool.and_eq_false_iff, decide_eq_false_iff_not,
    beq_eq_false_iff_ne]
  omega

theorem skipBlanks_cons {c : Char} (hc : Text.isBlank c = false) (rest : List Char) :
    skipBlanks (c :: rest) = c :: rest :=
  List.dropWhile_cons_of_neg (by rw [hc]; decide)

/-- A sign between two numbers is taken off. -/
theorem relaxedExpect?_cons {c : Char} (hc : Text.isBlank c = false) (rest : List Char) :
    relaxedExpect? c (c :: rest) = some rest := by
  rw [relaxedExpect?, skipBlanks_cons hc]
  exact if_pos rfl

/-! ## Numbers -/

/-- Enough digits are a number, up to the greatest number of them or up to what is no digit. -/
theorem number?_append {least most : Nat} {digits rest : List Char}
    (hdigits : ∀ c ∈ digits, c.isDigit = true) (hleast : least ≤ digits.length)
    (hmost : digits.length ≤ most) (hstop : digits.length = most ∨ Text.NoDigit rest) :
    number? least most (digits ++ rest) = some (Text.digitsValue digits, rest) := by
  show (if (takeDigits most (digits ++ rest)).1.length < least then none
    else some (Text.digitsValue (takeDigits most (digits ++ rest)).1,
      (takeDigits most (digits ++ rest)).2)) = _
  rw [takeDigits_append hdigits hmost hstop, if_neg (Nat.not_lt.mpr hleast)]

/-- A padded number begins with a digit. -/
theorem padded_eq_cons (width n : Nat) : ∃ d ds, padded width n = d :: ds ∧ d.isDigit = true := by
  cases hp : padded width n with
  | nil =>
      have hdigits : Nat.toDigits 10 n = [] := (List.append_eq_nil_iff.mp hp).2
      exact absurd hdigits Nat.toDigits_ne_nil
  | cons d ds =>
      have hmem : d ∈ padded width n := by
        rw [hp]
        exact List.mem_cons_self
      exact ⟨d, ds, rfl, isDigit_of_mem_padded hmem⟩

/-- Two digits are read together, though one would do. -/
theorem relaxedNumber?_padded {n : Nat} (h : n < 10 ^ 2) (rest : List Char) :
    relaxedNumber? (padded 2 n ++ rest) = some (n, rest) := by
  have hlen := length_padded (by decide : 0 < 2) h
  have hskip : skipBlanks (padded 2 n ++ rest) = padded 2 n ++ rest := by
    obtain ⟨d, ds, hp, hd⟩ := padded_eq_cons 2 n
    rw [hp]
    exact skipBlanks_cons (isBlank_of_isDigit hd) (ds ++ rest)
  rw [relaxedNumber?, hskip, number?_append (fun c hc => isDigit_of_mem_padded hc) (by omega)
    (Nat.le_of_eq hlen) (Or.inl hlen), digitsValue_padded]

/-- The digits after a sign are read to the last. -/
theorem number?_signed (n : Nat) {c : Char} (hc : c.isDigit = false) (rest : List Char) :
    number? 1 (padded 4 n ++ c :: rest).length (padded 4 n ++ c :: rest) = some (n, c :: rest) := by
  obtain ⟨d, ds, hp, -⟩ := padded_eq_cons 4 n
  rw [number?_append (fun c hc => isDigit_of_mem_padded hc) (by rw [hp]; simp) (by simp)
    (Or.inr (Text.noDigit_cons rest hc)), digitsValue_padded]

/-! ## Years -/

/-- A year is read as it was written, with or without a sign. -/
theorem relaxedYear?_yearText (year : Int) {c : Char} (hc : c.isDigit = false)
    (rest : List Char) :
    relaxedYear? (yearText year ++ c :: rest) = some (year, c :: rest) := by
  rw [yearText]
  split
  · rename_i hplain
    -- four digits, and the first of them is no sign
    have hfour : number? 1 4 (padded 4 year.toNat ++ c :: rest)
        = some (year.toNat, c :: rest) := by
      have hlen := length_padded (by decide : 0 < 4) (by omega : year.toNat < 10 ^ 4)
      rw [number?_append (fun c hc => isDigit_of_mem_padded hc) (by omega) (Nat.le_of_eq hlen)
        (Or.inl hlen), digitsValue_padded]
    have hback : (year.toNat : Int) = year := Int.toNat_of_nonneg hplain.1
    obtain ⟨d, ds, hp, hd⟩ := padded_eq_cons 4 year.toNat
    have hunsigned : relaxedYear? (padded 4 year.toNat ++ c :: rest)
        = some ((year.toNat : Int), c :: rest) := by
      rw [hp, List.cons_append] at hfour ⊢
      unfold relaxedYear?
      split
      · rename_i heq
        cases heq
        exact absurd hd (by decide)
      · rename_i heq
        cases heq
        exact absurd hd (by decide)
      · rw [hfour]
        rfl
    rw [hunsigned, hback]
  · split
    · rename_i hlate
      have hback : (year.toNat : Int) = year := Int.toNat_of_nonneg hlate
      show (number? 1 (padded 4 year.toNat ++ c :: rest).length
        (padded 4 year.toNat ++ c :: rest)).map _ = _
      rw [number?_signed _ hc]
      show some ((year.toNat : Int), c :: rest) = _
      rw [hback]
    · have hback : -((-year).toNat : Int) = year := by omega
      show (number? 1 (padded 4 (-year).toNat ++ c :: rest).length
        (padded 4 (-year).toNat ++ c :: rest)).map _ = _
      rw [number?_signed _ hc]
      show some (-((-year).toNat : Int), c :: rest) = _
      rw [hback]

/-- No year begins with a blank. -/
theorem skipBlanks_yearText (year : Int) (rest : List Char) :
    skipBlanks (yearText year ++ rest) = yearText year ++ rest := by
  rw [yearText]
  split
  · obtain ⟨d, ds, hp, hd⟩ := padded_eq_cons 4 year.toNat
    rw [hp]
    exact skipBlanks_cons (isBlank_of_isDigit hd) (ds ++ rest)
  · split <;> exact skipBlanks_cons (by decide) _

/-! ## Moments -/

/-- What is shown of a moment is read. -/
theorem readRelaxed?_text (t : Timestamp) : readRelaxed? t.text = some t.shown := by
  have hmonth := t.date.month_range
  have hday := t.date.day_range
  have hdays := daysInMonth_le t.date.year t.date.month
  have hhour := t.hour_lt
  have hminute := t.minute_lt
  have hsecond := t.second_lt
  have hnano := t.nanosecond_lt
  have hdash : Text.isBlank '-' = false := by decide
  have hcolon : Text.isBlank ':' = false := by decide
  rw [readRelaxed?, text, localText, String.toList_ofList]
  simp only [List.append_assoc, List.cons_append]
  rw [skipBlanks_yearText, relaxedYear?_yearText t.date.year (by decide)]
  -- field by field, each number up to the sign that follows it
  simp only [Option.bind_eq_bind, Option.bind_some, relaxedExpect?_cons hdash]
  rw [relaxedNumber?_padded (by omega)]
  simp only [Option.bind_some, relaxedExpect?_cons hdash]
  rw [relaxedNumber?_padded (by omega)]
  simp only [Option.bind_some, divider?, true_or, if_true]
  rw [relaxedNumber?_padded (by omega)]
  simp only [Option.bind_some, relaxedExpect?_cons hcolon]
  rw [relaxedNumber?_padded (by omega)]
  simp only [Option.bind_some, relaxedExpect?_cons hcolon]
  rw [relaxedNumber?_padded (by omega)]
  simp only [Option.bind_some]
  rw [fraction?_fractionText (Nat.mod_lt _ (by decide)) (by decide) (by decide)]
  exact assemble?_shown t

end ContentVault.Timestamp
