import ContentVault.Proofs.Text.Spelling
import ContentVault.Time.Rfc3339
import Mathlib.Algebra.Group.Nat.Defs

/-! # Moments as text, read back

    Each number of a date and time is padded to the width at which the strict
    reader takes it off again (`number?_padded`), and the fraction of a second
    is written with as many digits as are needed (`fraction?_fractionText`).
    What a text shows of a moment in a year of four digits is therefore read back
    exactly (`readStrict?_offsetText`), and that is the moment itself unless no
    clock shows it (`shown_eq_self_iff`).  Other years are written with a sign,
    which the strict reader does not take. -/

namespace ContentVault.Timestamp

/-- Whether the year is one that is written with four digits and no sign. -/
def HasPlainYear (t : Timestamp) : Prop := 0 ≤ t.date.year ∧ t.date.year ≤ 9999

instance (t : Timestamp) : Decidable t.HasPlainYear := by
  unfold HasPlainYear
  infer_instance

/-- Whether a clock shows the moment: only in second 59 may the nanoseconds go on
    for one second more, which is second 60. -/
def IsShown (t : Timestamp) : Prop := t.nanosecond < 1000000000 ∨ t.second = 59

instance (t : Timestamp) : Decidable t.IsShown := by
  unfold IsShown
  infer_instance

/-- The moment that the text of a moment shows. -/
def shown (t : Timestamp) : Timestamp :=
  if h : 1000000000 ≤ t.nanosecond ∧ t.second < 59 then
    { t with
      second := t.second + 1
      nanosecond := t.nanosecond - 1000000000
      second_lt := Nat.succ_lt_succ h.2
      nanosecond_lt := Nat.lt_of_le_of_lt (Nat.sub_le _ _) t.nanosecond_lt }
  else t

theorem shown_of_isShown {t : Timestamp} (h : t.IsShown) : t.shown = t := by
  refine dif_neg fun hover => ?_
  rcases h with hnano | hsecond
  · exact Nat.lt_irrefl _ (Nat.lt_of_le_of_lt hover.1 hnano)
  · exact Nat.ne_of_lt hover.2 hsecond

/-- The text of a moment shows another one exactly if no clock shows it. -/
theorem shown_eq_self_iff {t : Timestamp} : t.shown = t ↔ t.IsShown := by
  refine ⟨fun h => ?_, shown_of_isShown⟩
  rcases Nat.lt_or_ge t.nanosecond 1000000000 with hnano | hnano
  · exact Or.inl hnano
  · refine Or.inr (Nat.le_antisymm (Nat.le_of_lt_succ t.second_lt) (Nat.le_of_not_lt fun hsecond => ?_))
    rw [shown, dif_pos ⟨hnano, hsecond⟩] at h
    exact absurd (congrArg second h) (Nat.succ_ne_self t.second)

/-- The fields of what is shown, read off a clock. -/
theorem shown_fields (t : Timestamp) :
    t.shown.date = t.date ∧ t.shown.hour = t.hour ∧ t.shown.minute = t.minute ∧
      t.shown.second + t.shown.nanosecond / 1000000000 = t.second + t.nanosecond / 1000000000 ∧
      t.shown.nanosecond % 1000000000 = t.nanosecond % 1000000000 := by
  have hnano := t.nanosecond_lt
  unfold shown
  split
  · refine ⟨rfl, rfl, rfl, ?_⟩
    dsimp only
    omega
  · exact ⟨rfl, rfl, rfl, rfl, rfl⟩

theorem isShown_shown (t : Timestamp) : t.shown.IsShown := by
  have hnano := t.nanosecond_lt
  have hsecond := t.second_lt
  unfold shown IsShown
  split
  · dsimp only
    omega
  · omega

@[simp] theorem shown_shown (t : Timestamp) : t.shown.shown = t.shown :=
  shown_of_isShown t.isShown_shown

/-- A moment has the text of what is shown of it. -/
theorem localText_shown (t : Timestamp) : t.shown.localText = t.localText := by
  obtain ⟨hdate, hhour, hminute, hsecond, hnano⟩ := t.shown_fields
  rw [localText, localText, hdate, hhour, hminute, hsecond, hnano]

theorem offsetText_shown (t : Timestamp) : t.shown.offsetText = t.offsetText := by
  rw [offsetText, offsetText, localText_shown]

theorem text_shown (t : Timestamp) : t.shown.text = t.text := by
  rw [text, text, localText_shown]

theorem hasPlainYear_shown {t : Timestamp} : t.shown.HasPlainYear ↔ t.HasPlainYear := by
  rw [HasPlainYear, HasPlainYear, t.shown_fields.1]

/-! ## Digits -/

theorem length_padded {width n : Nat} (hwidth : 0 < width) (h : n < 10 ^ width) :
    (padded width n).length = width := by
  have hle := (Nat.length_toDigits_le_iff (by decide : 1 < 10) hwidth).mpr h
  unfold padded
  rw [List.length_append, List.length_replicate]
  omega

theorem isDigit_of_mem_padded {width n : Nat} {c : Char} (h : c ∈ padded width n) :
    c.isDigit = true := by
  unfold padded at h
  rcases List.mem_append.mp h with h | h
  · rw [List.eq_of_mem_replicate h]
    rfl
  · exact Text.isDigit_of_mem_toDigits h

/-- Padding does not change what digits spell. -/
@[simp] theorem digitsValue_padded (width n : Nat) : Text.digitsValue (padded width n) = n := by
  unfold Text.digitsValue padded
  rw [Text.weigh_eq, Nat.ofDigitChars_append, Nat.ofDigitChars_replicate_zero, Nat.mul_zero,
    Nat.ofDigitChars_ten_toDigits]

/-- Digits are taken off together: up to the greatest number, or up to what is
    no digit. -/
theorem takeDigits_append {most : Nat} {digits rest : List Char}
    (hdigits : ∀ c ∈ digits, c.isDigit = true) (hle : digits.length ≤ most)
    (hstop : digits.length = most ∨ Text.NoDigit rest) :
    takeDigits most (digits ++ rest) = (digits, rest) := by
  induction digits generalizing most with
  | nil =>
      cases most with
      | zero => rfl
      | succ most =>
          cases rest with
          | nil => rfl
          | cons c rest =>
              have hc : c.isDigit = false := by
                rcases hstop with h0 | hno
                · cases h0
                · exact hno c rfl
              show (if c.isDigit then _ else _) = _
              rw [hc]
              rfl
  | cons d digits ih =>
      cases most with
      | zero => cases hle
      | succ most =>
          have hd : d.isDigit = true := hdigits d List.mem_cons_self
          have htail := ih (fun c hc => hdigits c (List.mem_cons_of_mem _ hc))
            (Nat.le_of_succ_le_succ hle) (hstop.imp_left Nat.succ.inj)
          show (if d.isDigit then _ else _) = _
          rw [if_pos hd, List.append_eq, htail]

/-- A padded number is taken off a text. -/
theorem number?_padded {width n : Nat} (hwidth : 0 < width) (h : n < 10 ^ width)
    (rest : List Char) : number? width width (padded width n ++ rest) = some (n, rest) := by
  have hlen := length_padded hwidth h
  have htake : takeDigits width (padded width n ++ rest) = (padded width n, rest) :=
    takeDigits_append (fun c hc => isDigit_of_mem_padded hc) (Nat.le_of_eq hlen) (Or.inl hlen)
  unfold number?
  rw [htake]
  simp only [hlen, Nat.lt_irrefl, if_false, digitsValue_padded]

/-! ## Fractions -/

/-- A fraction of `width` digits counts in units of the last of them. -/
theorem fraction?_padded {width n : Nat} (hpos : 0 < width) (hle : width ≤ 9)
    (h : n < 10 ^ width) {rest : List Char} (hrest : Text.NoDigit rest) :
    fraction? ('.' :: padded width n ++ rest) = some (n * 10 ^ (9 - width), rest) := by
  have hlen := length_padded hpos h
  have htake : takeDigits 9 (padded width n ++ rest) = (padded width n, rest) :=
    takeDigits_append (fun c hc => isDigit_of_mem_padded hc) (Nat.le_trans (Nat.le_of_eq hlen) hle)
      (Or.inr hrest)
  have hsome : (padded width n).isEmpty = false := by
    cases hp : padded width n with
    | nil =>
        rw [hp] at hlen
        exact absurd hlen (Nat.ne_of_lt hpos)
    | cons c cs => rfl
  have hdrop : rest.dropWhile Char.isDigit = rest := by
    cases rest with
    | nil => rfl
    | cons c rest => rw [List.dropWhile_cons_of_neg (by rw [hrest c rfl]; decide)]
  show fraction? ('.' :: (padded width n ++ rest)) = _
  unfold fraction?
  simp only [htake, hsome, hlen, digitsValue_padded, hdrop]
  rfl

/-- Whatever fraction is written, it is the one that is read. -/
theorem fraction?_fractionText {n : Nat} (h : n < 1000000000) {c : Char} {rest : List Char}
    (hdot : c ≠ '.') (hc : c.isDigit = false) :
    fraction? (fractionText n ++ c :: rest) = some (n, c :: rest) := by
  have hno : Text.NoDigit (c :: rest) := Text.noDigit_cons rest hc
  unfold fractionText
  split
  · -- without a point nothing is taken for a fraction
    rename_i hzero
    rw [hzero]
    show fraction? (c :: rest) = _
    unfold fraction?
    split
    · rename_i heq
      cases heq
      exact absurd rfl hdot
    · rfl
  · -- as few digits as will do: three, six or nine
    split
    · rename_i hmillis
      rw [fraction?_padded (by decide) (by decide) (by omega) hno]
      have hn : n / 1000000 * 10 ^ (9 - 3) = n := by omega
      rw [hn]
    · split
      · rename_i hmicros
        rw [fraction?_padded (by decide) (by decide) (by omega) hno]
        have hn : n / 1000 * 10 ^ (9 - 6) = n := by omega
        rw [hn]
      · rw [fraction?_padded (by decide) (by decide) (by omega) hno, Nat.sub_self, Nat.pow_zero,
          Nat.mul_one]

/-! ## Moments -/

/-- A clock without offset shows universal time. -/
theorem ofLocal?_zero (t : Timestamp) : t.ofLocal? 0 = some t := by
  have hh := t.hour_lt
  have hm := t.minute_lt
  have hsum : ((t.hour : Int) * 60 + t.minute - 0) = ((t.hour * 60 + t.minute : Nat) : Int) := by
    omega
  have hmod : (((t.hour * 60 + t.minute : Nat) : Int) % 1440).toNat = t.hour * 60 + t.minute := by
    omega
  have hhour : (t.hour * 60 + t.minute) / 60 = t.hour := by omega
  have hminute : (t.hour * 60 + t.minute) % 60 = t.minute := by omega
  unfold ofLocal?
  simp only [hsum, hmod, hhour, hminute]
  rw [if_neg (by omega), if_pos (by omega)]
  exact ofFields?_fields t

/-- What a clock shows of a moment makes up the moment that is shown. -/
theorem ofParts?_shown (t : Timestamp) :
    ofParts? t.date t.hour t.minute (t.second + t.nanosecond / 1000000000)
      (t.nanosecond % 1000000000) = some t.shown := by
  have hnano := t.nanosecond_lt
  have hsecond := t.second_lt
  obtain ⟨hdate, hhour, hminute, hseconds, hrest⟩ := t.shown_fields
  have hfields := ofFields?_fields t.shown
  rw [hdate, hhour, hminute] at hfields
  rw [← hseconds, ← hrest, ofParts?, if_neg (Nat.not_le.mpr (Nat.mod_lt _ (by decide)))]
  have hsecond' := t.shown.second_lt
  have hnano' := t.shown.nanosecond_lt
  rcases t.isShown_shown with hplain | hlast
  · -- nothing goes on into the next second
    rw [Nat.div_eq_of_lt hplain, Nat.mod_eq_of_lt hplain, Nat.add_zero, if_neg (Nat.ne_of_lt hsecond')]
    exact hfields
  · rcases Nat.lt_or_ge t.shown.nanosecond 1000000000 with hplain | hover
    · rw [Nat.div_eq_of_lt hplain, Nat.mod_eq_of_lt hplain, Nat.add_zero,
        if_neg (Nat.ne_of_lt hsecond')]
      exact hfields
    · have hsixty : t.shown.second + t.shown.nanosecond / 1000000000 = 60 := by omega
      have hback : t.shown.nanosecond % 1000000000 + 1000000000 = t.shown.nanosecond := by omega
      rw [if_pos hsixty, hback, ← hlast]
      exact hfields

theorem assemble?_shown (t : Timestamp) :
    assemble? t.date.year t.date.month t.date.day t.hour t.minute
      (t.second + t.nanosecond / 1000000000) (t.nanosecond % 1000000000) 0 = some t.shown := by
  unfold assemble?
  simp only [Date.ofParts?_parts, Option.bind_eq_bind, Option.bind_some, ofParts?_shown,
    ofLocal?_zero]

/-- A month has no more than 31 days. -/
theorem daysInMonth_le (year : Int) (month : Nat) : daysInMonth year month ≤ 31 := by
  unfold daysInMonth
  split
  · split <;> decide
  · split <;> decide

/-- Of a moment in a year of four digits, what is shown is read. -/
theorem readStrict?_offsetText {t : Timestamp} (h : t.HasPlainYear) :
    readStrict? t.offsetText = some t.shown := by
  obtain ⟨hlow, hhigh⟩ := h
  have hyear : yearText t.date.year = padded 4 t.date.year.toNat := if_pos ⟨hlow, hhigh⟩
  have hback : (t.date.year.toNat : Int) = t.date.year := Int.toNat_of_nonneg hlow
  have hmonth := t.date.month_range
  have hday := t.date.day_range
  have hdays := daysInMonth_le t.date.year t.date.month
  have hhour := t.hour_lt
  have hminute := t.minute_lt
  have hsecond := t.second_lt
  have hnano := t.nanosecond_lt
  unfold readStrict? offsetText localText
  rw [String.toList_ofList, hyear]
  simp only [List.append_assoc, List.cons_append]
  -- field by field, each number up to the sign that follows it
  rw [number?_padded (by decide) (by omega)]
  simp only [Option.bind_eq_bind, Option.bind_some, expect?, if_true]
  rw [number?_padded (by decide) (by omega)]
  simp only [Option.bind_some, if_true]
  rw [number?_padded (by decide) (by omega)]
  simp only [Option.bind_some, divider?, true_or, if_true]
  rw [number?_padded (by decide) (by omega)]
  simp only [Option.bind_some, if_true]
  rw [number?_padded (by decide) (by omega)]
  simp only [Option.bind_some, if_true]
  rw [number?_padded (by decide) (by omega)]
  simp only [Option.bind_some]
  rw [fraction?_fractionText (Nat.mod_lt _ (by decide)) (by decide) (by decide)]
  simp only [Option.bind_some, hback]
  exact assemble?_shown t

end ContentVault.Timestamp
