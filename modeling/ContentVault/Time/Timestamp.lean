/-!
# Points in time

A `Timestamp` is a moment of coordinated universal time, kept as its calendar reading: a date of the Gregorian
calendar and a time of day down to the nanosecond. Both carry the proof that they exist. The nanoseconds may go on for
one second more. After second 59 that is the second 60 of a minute that has one; after any other second it is a moment
that no clock shows, but nothing forbids it. Moments are ordered by their readings, and `Timestamp.nanoseconds` places
them on a line of numbers where spans can be subtracted.
-/

namespace ContentVault

/-! ## Dates -/

/-- Whether a year has a 29th of February. -/
def isLeapYear (year : Int) : Bool := year % 4 == 0 && (year % 100 != 0 || year % 400 == 0)

/-- The number of days of a month. -/
def daysInMonth (year : Int) (month : Nat) : Nat :=
  if month == 2 then if isLeapYear year then 29 else 28
  else if month == 4 || month == 6 || month == 9 || month == 11 then 30
  else 31

/-- The first and the last year that can be represented. -/
def firstYear : Int := -262143

/-- See `firstYear`. -/
def lastYear : Int := 262142

/-- A date. -/
structure Date where
  year : Int
  month : Nat
  day : Nat
  year_range : firstYear ≤ year ∧ year ≤ lastYear
  month_range : 1 ≤ month ∧ month ≤ 12
  day_range : 1 ≤ day ∧ day ≤ daysInMonth year month
deriving DecidableEq

namespace Date

/-- The date with these numbers, if there is one. -/
def ofParts? (year : Int) (month day : Nat) : Option Date :=
  if hy : firstYear ≤ year ∧ year ≤ lastYear then
    if hm : 1 ≤ month ∧ month ≤ 12 then
      if hd : 1 ≤ day ∧ day ≤ daysInMonth year month then some ⟨year, month, day, hy, hm, hd⟩ else none
    else none
  else none

@[simp] theorem ofParts?_parts (d : Date) : ofParts? d.year d.month d.day = some d := by
  simp [ofParts?, d.year_range, d.month_range, d.day_range]

/-- The day after. -/
def next? (d : Date) : Option Date :=
  if d.day < daysInMonth d.year d.month then ofParts? d.year d.month (d.day + 1)
  else if d.month < 12 then ofParts? d.year (d.month + 1) 1
  else ofParts? (d.year + 1) 1 1

/-- The day before. -/
def previous? (d : Date) : Option Date :=
  if 1 < d.day then ofParts? d.year d.month (d.day - 1)
  else if 1 < d.month then ofParts? d.year (d.month - 1) (daysInMonth d.year (d.month - 1))
  else ofParts? (d.year - 1) 12 31

/-- Days since the first of January 1970. Years are counted from March, so that the leap day comes last. -/
def days (d : Date) : Int :=
  let year := if d.month ≤ 2 then d.year - 1 else d.year
  let month := (d.month + 9) % 12
  let dayOfYear : Int := (153 * month + 2) / 5 + d.day - 1
  year * 365 + year / 4 - year / 100 + year / 400 + dayOfYear - 719468

end Date

/-! ## Moments -/

/-- A moment. -/
structure Timestamp where
  date : Date
  hour : Nat
  minute : Nat
  second : Nat
  /-- Since the beginning of the second, or of the one before if that is second 60. -/
  nanosecond : Nat
  hour_lt : hour < 24
  minute_lt : minute < 60
  second_lt : second < 60
  nanosecond_lt : nanosecond < 2000000000
deriving DecidableEq

namespace Timestamp

/-- The moment with these fields, if there is one. -/
def ofFields? (date : Date) (hour minute second nanosecond : Nat) : Option Timestamp :=
  if h : hour < 24 ∧ minute < 60 ∧ second < 60 ∧ nanosecond < 2000000000 then
    some ⟨date, hour, minute, second, nanosecond, h.1, h.2.1, h.2.2.1, h.2.2.2⟩
  else none

@[simp] theorem ofFields?_fields (t : Timestamp) :
    ofFields? t.date t.hour t.minute t.second t.nanosecond = some t := by
  simp [ofFields?, t.hour_lt, t.minute_lt, t.second_lt, t.nanosecond_lt]

/-- The moment that a clock shows like this, second 60 included, if there is one. -/
def ofParts? (date : Date) (hour minute second nanosecond : Nat) : Option Timestamp :=
  if 1000000000 ≤ nanosecond then none
  else if second = 60 then ofFields? date hour minute 59 (nanosecond + 1000000000)
  else ofFields? date hour minute second nanosecond

/-- The moment of universal time that a clock shows as `t` which is `offset` minutes ahead, `offset` being less than
a day in either direction. -/
def ofLocal? (t : Timestamp) (offset : Int) : Option Timestamp := do
  let minutes : Int := t.hour * 60 + t.minute - offset
  let date ←
    if minutes < 0 then t.date.previous?
    else if minutes < 1440 then some t.date
    else t.date.next?
  let minutes := (minutes % 1440).toNat
  ofFields? date (minutes / 60) (minutes % 60) t.second t.nanosecond

/-- Nanoseconds since the beginning of 1970, every day being taken to have the same length. -/
def nanoseconds (t : Timestamp) : Int :=
  let seconds : Int := ((t.date.days * 24 + t.hour) * 60 + t.minute) * 60 + t.second
  seconds * 1000000000 + t.nanosecond

/-- The beginning of a day. -/
def midnight (date : Date) : Timestamp :=
  ⟨date, 0, 0, 0, 0, by decide, by decide, by decide, by decide⟩

/-- Where the first moment that can be represented is on that line. -/
def earliest : Int := (midnight ⟨firstYear, 1, 1, by decide, by decide, by decide⟩).nanoseconds

/-- The place on that line a number of seconds before a moment, if there is a moment there. -/
def secondsBefore? (t : Timestamp) (seconds : Nat) : Option Int :=
  let place := t.nanoseconds - seconds * 1000000000
  if earliest ≤ place then some place else none

end Timestamp

end ContentVault
