import ContentVault.Proofs.Time.Spelling
import Mathlib.Data.String.Basic
import Mathlib.Tactic.IntervalCases
import Mathlib.Tactic.Ring

/-! # The order of moments

    Moments in years of four digits that a clock shows are in the order of their
    texts, although a text has no, three, six or nine digits after the point
    (`offsetText_lt_iff`).

    Numbers of a fixed width are in the order of their digits.  What carries the
    fractions over is that the sign which ends the text comes before the point,
    and the point before the digits: a text that has no digit left is before one
    that has (`append_lt_append`). -/

namespace ContentVault

/-! ## Days -/

namespace Date

/-- The months from the March of the year 0 to a month. -/
def monthsTo (year : Int) (month : Nat) : Int := year * 12 + month - 3

/-- The days from the first of that March to the first of a month. -/
def monthStart (months : Int) : Int :=
  months / 12 * 365 + months / 12 / 4 - months / 12 / 100 + months / 12 / 400
    + (153 * (months % 12) + 2) / 5

/-- January and February are counted with the year before. -/
theorem monthStart_monthsTo (year : Int) {month : Nat} (hmonth : 1 ≤ month ∧ month ≤ 12) :
    monthStart (monthsTo year month)
      = (if month ≤ 2 then year - 1 else year) * 365 + (if month ≤ 2 then year - 1 else year) / 4
        - (if month ≤ 2 then year - 1 else year) / 100
        + (if month ≤ 2 then year - 1 else year) / 400
        + (153 * ((month + 9) % 12 : Nat) + 2) / 5 := by
  have hyear : monthsTo year month / 12 = if month ≤ 2 then year - 1 else year := by
    unfold monthsTo
    split <;> omega
  have hrest : monthsTo year month % 12 = ((month + 9) % 12 : Nat) := by
    unfold monthsTo
    omega
  rw [monthStart, hyear, hrest]

theorem days_eq (d : Date) :
    d.days = monthStart (monthsTo d.year d.month) + d.day - 719469 := by
  rw [monthStart_monthsTo d.year d.month_range, days]
  omega

/-- A month begins after the days of the one before it. -/
theorem monthStart_add_le (year : Int) {month : Nat} (hmonth : 1 ≤ month ∧ month ≤ 12) :
    monthStart (monthsTo year month) + daysInMonth year month
      ≤ monthStart (monthsTo year month + 1) := by
  obtain ⟨hfirst, hlast⟩ := hmonth
  by_cases hyear : month = 12
  · subst hyear
    have hnext : monthsTo year 12 + 1 = monthsTo (year + 1) 1 := by
      unfold monthsTo
      omega
    rw [hnext, monthStart_monthsTo _ (by omega), monthStart_monthsTo _ (by omega)]
    simp [daysInMonth]
    omega
  · have hnext : monthsTo year month + 1 = monthsTo year (month + 1) := by
      unfold monthsTo
      omega
    rw [hnext, monthStart_monthsTo _ (by omega), monthStart_monthsTo _ (by omega)]
    unfold daysInMonth isLeapYear
    by_cases hlong : month = 2
    · -- after February comes the next of the years that begin with March
      subst hlong
      simp
      split <;> omega
    · interval_cases month <;> simp at hlong ⊢ <;> omega

theorem monthStart_mono {months later : Int} (h : months ≤ later) :
    monthStart months ≤ monthStart later := by
  obtain ⟨k, rfl⟩ := Int.le.dest h
  induction k with
  | zero => exact Int.le_of_eq (congrArg monthStart (Int.add_zero months).symm)
  | succ k ih =>
      refine Int.le_trans (ih (by omega)) ?_
      unfold monthStart
      omega

/-- Whether a date is before another in the calendar. -/
def IsBefore (d e : Date) : Prop :=
  d.year < e.year ∨ d.year = e.year ∧ (d.month < e.month ∨ d.month = e.month ∧ d.day < e.day)

theorem eq_or_isBefore (d e : Date) : d = e ∨ d.IsBefore e ∨ e.IsBefore d := by
  by_cases hsame : d.year = e.year ∧ d.month = e.month ∧ d.day = e.day
  · left
    obtain ⟨year, month, day, _, _, _⟩ := d
    obtain ⟨_, _, _, _, _, _⟩ := e
    obtain ⟨rfl, rfl, rfl⟩ := hsame
    rfl
  · right
    unfold IsBefore
    omega

/-- Days are counted in the order of the calendar. -/
theorem days_lt_days {d e : Date} (h : d.IsBefore e) : d.days < e.days := by
  have hmonth := d.month_range
  have hmonth' := e.month_range
  have hday := d.day_range
  have hday' := e.day_range
  unfold IsBefore at h
  rw [days_eq, days_eq]
  by_cases hsame : monthsTo d.year d.month = monthsTo e.year e.month
  · -- the same month of the same year
    have hlater : d.day < e.day := by
      unfold monthsTo at hsame
      omega
    rw [hsame]
    omega
  · have hlater : monthsTo d.year d.month + 1 ≤ monthsTo e.year e.month := by
      unfold monthsTo at hsame ⊢
      omega
    have hends := monthStart_add_le d.year hmonth
    have hbegins := monthStart_mono hlater
    omega

end Date

namespace Timestamp

/-! ## Digits -/

/-- What digits are worth after a point, in units of the last of so many places. -/
def worth (places : Nat) (digits : List Char) : Nat :=
  Text.digitsValue digits * 10 ^ (places - digits.length)

theorem worth_cons {places : Nat} (d : Char) {digits : List Char}
    (hlen : digits.length ≤ places) :
    worth (places + 1) (d :: digits) = (d.toNat - 48) * 10 ^ places + worth places digits := by
  have hsum : 10 ^ digits.length * 10 ^ (places - digits.length) = 10 ^ places := by
    rw [← Nat.pow_add, Nat.add_sub_cancel' hlen]
  have hvalue : Text.digitsValue (d :: digits)
      = 10 ^ digits.length * (d.toNat - 48) + Text.digitsValue digits := by
    rw [Text.digitsValue, Text.digitsValue, Text.weigh_eq, Text.weigh_eq, Nat.ofDigitChars_cons,
      Nat.ofDigitChars_eq_ofDigitChars_zero, Nat.mul_zero, Nat.zero_add]
    rfl
  rw [worth, worth, hvalue, List.length_cons, Nat.add_sub_add_right, Nat.add_mul, ← hsum]
  ring

theorem worth_lt {places : Nat} {digits : List Char} (hdigits : ∀ c ∈ digits, c.isDigit = true)
    (hlen : digits.length ≤ places) : worth places digits < 10 ^ places := by
  induction digits generalizing places with
  | nil => exact (Nat.zero_mul _).trans_lt (Nat.pow_pos (by decide))
  | cons d digits ih =>
      obtain ⟨places, rfl⟩ : ∃ p, places = p + 1 :=
        ⟨places - 1, (Nat.sub_add_cancel (Nat.le_trans (Nat.succ_pos _) hlen)).symm⟩
      have hrest := ih (fun c hc => hdigits c (List.mem_cons_of_mem d hc))
        (Nat.le_of_succ_le_succ hlen)
      have hd : d.toNat - 48 ≤ 9 := by
        have hrange := Char.isDigit_iff_toNat.mp (hdigits d List.mem_cons_self)
        have hnine : '9'.toNat = 57 := rfl
        omega
      have hfirst := Nat.mul_le_mul_right (10 ^ places) hd
      rw [worth_cons d (Nat.le_of_succ_le_succ hlen), Nat.pow_succ]
      omega

/-- Digits that are worth less come first.  Where the first ones end before the
    others, the sign after them has to come before all digits. -/
theorem append_lt_append {places : Nat} {ds es r s : List Char}
    (hds : ∀ c ∈ ds, c.isDigit = true) (hes : ∀ c ∈ es, c.isDigit = true)
    (hlen : ds.length ≤ places) (hlen' : es.length ≤ places)
    (hstop : ds.length < es.length → ∃ c rest, r = c :: rest ∧ c < '0')
    (h : worth places ds < worth places es) : ds ++ r < es ++ s := by
  induction ds generalizing es places with
  | nil =>
      cases es with
      | nil => exact absurd h (Nat.lt_irrefl _)
      | cons e es =>
          obtain ⟨c, rest, rfl, hc⟩ := hstop (Nat.succ_pos _)
          have he : '0' ≤ e := (Char.isDigit_iff_toNat.mp (hes e List.mem_cons_self)).1
          exact List.cons_lt_cons_iff.mpr (Or.inl (lt_of_lt_of_le hc he))
  | cons d ds ih =>
      cases es with
      | nil =>
          rw [show worth places [] = 0 from Nat.zero_mul _] at h
          cases h
      | cons e es =>
          obtain ⟨places, rfl⟩ : ∃ p, places = p + 1 :=
            ⟨places - 1, (Nat.sub_add_cancel (Nat.le_trans (Nat.succ_pos _) hlen)).symm⟩
          replace hlen := Nat.le_of_succ_le_succ hlen
          replace hlen' := Nat.le_of_succ_le_succ hlen'
          rw [worth_cons d hlen, worth_cons e hlen'] at h
          have hes' : ∀ c ∈ es, c.isDigit = true := fun c hc => hes c (List.mem_cons_of_mem e hc)
          refine List.cons_lt_cons_iff.mpr ?_
          rcases lt_trichotomy d e with hde | rfl | hde
          · exact Or.inl hde
          · refine Or.inr ⟨rfl, ih (fun c hc => hds c (List.mem_cons_of_mem d hc)) hes' hlen hlen'
              (fun hshort => hstop (Nat.succ_lt_succ hshort)) (by omega)⟩
          · -- the first digit counts more than all that follow
            have hrest := worth_lt hes' hlen'
            have he := (Char.isDigit_iff_toNat.mp (hes e List.mem_cons_self)).1
            have hmore : e.toNat - 48 + 1 ≤ d.toNat - 48 := by
              have hlt : e.toNat < d.toNat := hde
              have hzero : '0'.toNat = 48 := rfl
              omega
            have hfirst := Nat.mul_le_mul_right (10 ^ places) hmore
            rw [Nat.add_mul, Nat.one_mul] at hfirst
            omega

theorem worth_padded {width n places : Nat} (hwidth : 0 < width) (h : n < 10 ^ width) :
    worth places (padded width n) = n * 10 ^ (places - width) := by
  rw [worth, digitsValue_padded, length_padded hwidth h]

/-- A number of a fixed width comes before a greater one, whatever follows; if it
    is the same, what follows decides. -/
theorem padded_append_lt {width m n : Nat} (hwidth : 0 < width) (hm : m < 10 ^ width)
    (hn : n < 10 ^ width) {r s : List Char} (h : m < n ∨ m = n ∧ r < s) :
    padded width m ++ r < padded width n ++ s := by
  rcases h with hlt | ⟨rfl, hrest⟩
  · have hlen := length_padded hwidth hm
    have hlen' := length_padded hwidth hn
    refine append_lt_append (fun _ => isDigit_of_mem_padded) (fun _ => isDigit_of_mem_padded)
      (Nat.le_of_eq hlen) (Nat.le_of_eq hlen') (fun hshort => ?_) ?_
    · rw [hlen, hlen'] at hshort
      exact absurd hshort (Nat.lt_irrefl _)
    · rw [worth_padded hwidth hm, worth_padded hwidth hn, Nat.sub_self, Nat.pow_zero, Nat.mul_one,
        Nat.mul_one]
      exact hlt
  · exact List.append_left_lt hrest

/-! ## Fractions -/

/-- A fraction is a point and digits that are worth it, or nothing at all. -/
theorem fractionText_cases {n : Nat} (h : n < 1000000000) :
    (n = 0 ∧ fractionText n = []) ∨
    (0 < n ∧ ∃ digits, fractionText n = '.' :: digits ∧ (∀ c ∈ digits, c.isDigit = true) ∧
      digits.length ≤ 9 ∧ worth 9 digits = n) := by
  have hdigits : ∀ width m, 0 < width → width ≤ 9 → m < 10 ^ width → m * 10 ^ (9 - width) = n →
      (∀ c ∈ padded width m, c.isDigit = true) ∧ (padded width m).length ≤ 9 ∧
        worth 9 (padded width m) = n := by
    intro width m hpos hle hm hworth
    refine ⟨fun _ => isDigit_of_mem_padded, ?_, (worth_padded hpos hm).trans hworth⟩
    rw [length_padded hpos hm]
    exact hle
  unfold fractionText
  by_cases hzero : n = 0
  · exact Or.inl ⟨hzero, if_pos hzero⟩
  · refine Or.inr ⟨Nat.pos_of_ne_zero hzero, ?_⟩
    rw [if_neg hzero]
    split
    · exact ⟨_, rfl, hdigits 3 _ (by decide) (by decide) (by omega) (by omega)⟩
    · split
      · exact ⟨_, rfl, hdigits 6 _ (by decide) (by decide) (by omega) (by omega)⟩
      · exact ⟨_, rfl, hdigits 9 n (by decide) (by decide) h (by omega)⟩

/-- The smaller fraction comes first, if the sign after it comes before the point
    and all digits. -/
theorem fractionText_append_lt {m n : Nat} (hm : m < 1000000000) (hn : n < 1000000000)
    (h : m < n) {c : Char} (hdot : c < '.') (hdigit : c < '0') (rest : List Char) :
    fractionText m ++ c :: rest < fractionText n ++ c :: rest := by
  obtain ⟨rfl, -⟩ | ⟨-, es, hes, hesdigits, heslen, hesworth⟩ := fractionText_cases hn
  · cases h
  · rw [hes, List.cons_append]
    obtain ⟨-, hds⟩ | ⟨-, ds, hds, hdsdigits, hdslen, hdsworth⟩ := fractionText_cases hm
    · rw [hds]
      exact List.cons_lt_cons_iff.mpr (Or.inl hdot)
    · rw [hds, List.cons_append]
      refine List.cons_lt_cons_iff.mpr (Or.inr ⟨rfl, ?_⟩)
      refine append_lt_append hdsdigits hesdigits hdslen heslen (fun _ => ⟨c, rest, rfl, hdigit⟩) ?_
      rw [hdsworth, hesworth]
      exact h

/-! ## Moments -/

/-- Where a moment stands in the order of time.  Every second has room for one more,
    so that second 60 is after second 59 and before the next minute. -/
def place (t : Timestamp) : Int :=
  (((t.date.days * 24 + t.hour) * 60 + t.minute) * 60 + t.second) * 2000000000 + t.nanosecond

/-- But for what goes on for a second more, it is the order of the nanoseconds since
    1970. -/
theorem place_lt_place_iff {t u : Timestamp} (ht : t.nanosecond < 1000000000)
    (hu : u.nanosecond < 1000000000) : t.place < u.place ↔ t.nanoseconds < u.nanoseconds := by
  unfold place nanoseconds
  dsimp only
  omega

/-- A moment that stands before another has the smaller reading where they differ
    first. -/
theorem readings_of_place_lt {t u : Timestamp} (h : t.place < u.place) :
    t.date.year < u.date.year ∨ t.date.year = u.date.year ∧
    (t.date.month < u.date.month ∨ t.date.month = u.date.month ∧
    (t.date.day < u.date.day ∨ t.date.day = u.date.day ∧
    (t.hour < u.hour ∨ t.hour = u.hour ∧
    (t.minute < u.minute ∨ t.minute = u.minute ∧
    (t.second < u.second ∨ t.second = u.second ∧ t.nanosecond < u.nanosecond))))) := by
  have hhour := t.hour_lt
  have hminute := t.minute_lt
  have hsecond := t.second_lt
  have hnano := t.nanosecond_lt
  have hhour' := u.hour_lt
  have hminute' := u.minute_lt
  have hsecond' := u.second_lt
  have hnano' := u.nanosecond_lt
  unfold place at h
  rcases Date.eq_or_isBefore t.date u.date with hsame | hbefore | hafter
  · -- on one day the clock decides
    rw [hsame] at h ⊢
    omega
  · unfold Date.IsBefore at hbefore
    omega
  · have hdays := Date.days_lt_days hafter
    omega

/-- On a clock, the earlier of two moments of one minute has the smaller second, or
    the smaller fraction of the same one. -/
theorem clock_of_reading_lt {t u : Timestamp} (ht : t.IsShown)
    (h : t.second < u.second ∨ t.second = u.second ∧ t.nanosecond < u.nanosecond) :
    t.second + t.nanosecond / 1000000000 < u.second + u.nanosecond / 1000000000 ∨
    t.second + t.nanosecond / 1000000000 = u.second + u.nanosecond / 1000000000 ∧
      t.nanosecond % 1000000000 < u.nanosecond % 1000000000 := by
  have hsecond := u.second_lt
  have hnano := t.nanosecond_lt
  have hnano' := u.nanosecond_lt
  unfold IsShown at ht
  omega

/-- The earlier moment has the text that comes first, if a sign follows that comes
    before the point and all digits. -/
theorem localText_append_lt {t u : Timestamp} (ht : t.HasPlainYear) (hu : u.HasPlainYear)
    (hshown : t.IsShown) (h : t.place < u.place) {c : Char} (hdot : c < '.') (hdigit : c < '0') (rest : List Char) :
    t.localText ++ c :: rest < u.localText ++ c :: rest := by
  have hyear : yearText t.date.year = padded 4 t.date.year.toNat := if_pos ht
  have hyear' : yearText u.date.year = padded 4 u.date.year.toNat := if_pos hu
  obtain ⟨hlow, hhigh⟩ := ht
  obtain ⟨hlow', hhigh'⟩ := hu
  have hmonth := t.date.month_range
  have hmonth' := u.date.month_range
  have hday := Nat.le_trans t.date.day_range.2 (daysInMonth_le _ _)
  have hday' := Nat.le_trans u.date.day_range.2 (daysInMonth_le _ _)
  have hhour := t.hour_lt
  have hhour' := u.hour_lt
  have hminute := t.minute_lt
  have hminute' := u.minute_lt
  have hsecond := t.second_lt
  have hsecond' := u.second_lt
  have hnano := t.nanosecond_lt
  have hnano' := u.nanosecond_lt
  have hrest : ∀ n : Nat, n % 1000000000 < 1000000000 := fun n => Nat.mod_lt n (by decide)
  have hsame : ∀ {a : Char} {r s : List Char}, r < s → a :: r < a :: s :=
    fun hrs => List.cons_lt_cons_iff.mpr (Or.inr ⟨rfl, hrs⟩)
  unfold localText
  rw [hyear, hyear']
  simp only [List.append_assoc, List.cons_append]
  -- field by field: the first in which they differ decides
  refine padded_append_lt (by decide) (by omega) (by omega)
    ((readings_of_place_lt h).imp (by omega) fun ⟨hy, h⟩ => ⟨by rw [hy], hsame ?_⟩)
  refine padded_append_lt (by decide) (by omega) (by omega)
    (h.imp_right fun ⟨hm, h⟩ => ⟨hm, hsame ?_⟩)
  refine padded_append_lt (by decide) (by omega) (by omega)
    (h.imp_right fun ⟨hd, h⟩ => ⟨hd, hsame ?_⟩)
  refine padded_append_lt (by decide) (by omega) (by omega)
    (h.imp_right fun ⟨hh, h⟩ => ⟨hh, hsame ?_⟩)
  refine padded_append_lt (by decide) (by omega) (by omega)
    (h.imp_right fun ⟨hm, h⟩ => ⟨hm, hsame ?_⟩)
  refine padded_append_lt (by decide) (by omega) (by omega)
    ((clock_of_reading_lt hshown h).imp_right fun ⟨hs, h⟩ => ⟨hs, ?_⟩)
  exact fractionText_append_lt (hrest _) (hrest _) h hdot hdigit rest

/-- Moments at one place are the same. -/
theorem eq_of_place_eq {t u : Timestamp} (h : t.place = u.place) : t = u := by
  obtain ⟨date, hour, minute, second, nanosecond, hhour, hminute, hsecond, hnano⟩ := t
  obtain ⟨date', hour', minute', second', nanosecond', hhour', hminute', hsecond', hnano'⟩ := u
  unfold place at h
  dsimp only at h
  rcases Date.eq_or_isBefore date date' with rfl | hbefore | hafter
  · obtain ⟨rfl, rfl, rfl, rfl⟩ : hour = hour' ∧ minute = minute' ∧ second = second' ∧
        nanosecond = nanosecond' := by omega
    rfl
  · have hdays := Date.days_lt_days hbefore
    omega
  · have hdays := Date.days_lt_days hafter
    omega

/-- The texts of moments are in the order of the moments that they show. -/
theorem offsetText_lt_iff {t u : Timestamp} (ht : t.HasPlainYear) (hu : u.HasPlainYear) :
    t.offsetText < u.offsetText ↔ t.shown.place < u.shown.place := by
  have hforth : ∀ {t u : Timestamp}, t.HasPlainYear → u.HasPlainYear →
      t.shown.place < u.shown.place → t.offsetText < u.offsetText := by
    intro t u ht hu h
    rw [← t.offsetText_shown, ← u.offsetText_shown, offsetText, offsetText,
      String.lt_iff_toList_lt, String.toList_ofList, String.toList_ofList]
    exact localText_append_lt (hasPlainYear_shown.mpr ht) (hasPlainYear_shown.mpr hu)
      t.isShown_shown h (by decide) (by decide) _
  refine ⟨fun h => ?_, hforth ht hu⟩
  rcases lt_trichotomy t.shown.place u.shown.place with hlt | heq | hgt
  · exact hlt
  · rw [← t.offsetText_shown, eq_of_place_eq heq, u.offsetText_shown] at h
    exact absurd h (lt_irrefl _)
  · exact absurd h (lt_asymm (hforth hu ht hgt))

end Timestamp

end ContentVault
