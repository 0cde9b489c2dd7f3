import ContentVault.Text.Decimal
import ContentVault.Text.Letters
import ContentVault.Time.Timestamp

/-!
# Times as text

The Internet date-time format, `2024-01-01T00:00:00Z`. It is written with the fewest of no, three, six or nine
fraction digits that are exact, and with either `Z` (`Timestamp.text`) or `+00:00` (`Timestamp.offsetText`) at the
end. There are two readers. `readStrict?` takes the format to the letter; `readRelaxed?` also takes numbers with
fewer digits, signed years, blanks between the parts and the zone `UTC`.
-/

namespace ContentVault.Timestamp

/-! ## Writing -/

/-- A number with at least `width` digits. -/
def padded (width n : Nat) : List Char :=
  let digits := Nat.toDigits 10 n
  List.replicate (width - digits.length) '0' ++ digits

/-- A year: four digits, and more than that or a negative one with its sign. -/
def yearText (year : Int) : List Char :=
  if 0 ≤ year ∧ year ≤ 9999 then padded 4 year.toNat
  else if 0 ≤ year then '+' :: padded 4 year.toNat
  else '-' :: padded 4 (-year).toNat

/-- The fraction of a second, with a point in front. -/
def fractionText (nanosecond : Nat) : List Char :=
  if nanosecond = 0 then []
  else if nanosecond % 1000000 = 0 then '.' :: padded 3 (nanosecond / 1000000)
  else if nanosecond % 1000 = 0 then '.' :: padded 6 (nanosecond / 1000)
  else '.' :: padded 9 nanosecond

/-- A moment without its zone. Nanoseconds that go on for one second more count with the next second. -/
def localText (t : Timestamp) : List Char :=
  yearText t.date.year ++ '-' :: padded 2 t.date.month ++ '-' :: padded 2 t.date.day ++
    'T' :: padded 2 t.hour ++ ':' :: padded 2 t.minute ++
    ':' :: padded 2 (t.second + t.nanosecond / 1000000000) ++ fractionText (t.nanosecond % 1000000000)

/-- A moment, with the zone as `Z`. -/
def text (t : Timestamp) : String := String.ofList (t.localText ++ ['Z'])

/-- A moment, with the zone as an offset. -/
def offsetText (t : Timestamp) : String := String.ofList (t.localText ++ ['+', '0', '0', ':', '0', '0'])

/-! ## Reading the parts -/

/-- Up to `most` leading digits. -/
def takeDigits : (most : Nat) → List Char → List Char × List Char
  | most + 1, c :: cs =>
    if c.isDigit then
      let (digits, rest) := takeDigits most cs
      (c :: digits, rest)
    else ([], c :: cs)
  | _, cs => ([], cs)

/-- A number of `least` to `most` digits. -/
def number? (least most : Nat) (cs : List Char) : Option (Nat × List Char) :=
  let (digits, rest) := takeDigits most cs
  if digits.length < least then none else some (Text.digitsValue digits, rest)

/-- A given character. -/
def expect? (c : Char) : List Char → Option (List Char)
  | d :: rest => if d = c then some rest else none
  | [] => none

/-- The character between date and time. -/
def divider? : List Char → Option (List Char)
  | c :: rest => if c = 'T' ∨ c = 't' ∨ c = ' ' then some rest else none
  | [] => none

/-- The fraction of a second, if there is one, in nanoseconds; digits after the ninth do not count. -/
def fraction? : List Char → Option (Nat × List Char)
  | '.' :: rest =>
    let (digits, rest) := takeDigits 9 rest
    if digits.isEmpty then none
    else some (Text.digitsValue digits * Nat.pow 10 (9 - digits.length), rest.dropWhile Char.isDigit)
  | rest => some (0, rest)

/-- The offset of a zone in minutes: `Z`, or a sign, two digits for the hours and two for the minutes, with what
`between` takes off in between. -/
def offset? (between : List Char → Option (List Char)) : List Char → Option (Int × List Char)
  | [] => none
  | c :: rest =>
    if c = 'Z' ∨ c = 'z' then some (0, rest)
    else if c = '+' ∨ c = '-' ∨ c = '\u2212' then do
      let (hours, rest) ← number? 2 2 rest
      let rest ← between rest
      let (minutes, rest) ← number? 2 2 rest
      if 60 ≤ minutes ∨ 24 ≤ hours then none
      else
        let offset : Int := hours * 60 + minutes
        return (if c = '+' then offset else -offset, rest)
    else none

/-- Takes the blanks off. -/
def skipBlanks (cs : List Char) : List Char := cs.dropWhile Text.isBlank

/-- The moment that the parts of a text make up. -/
def assemble? (year : Int) (month day hour minute second nanosecond : Nat) (offset : Int) :
    Option Timestamp := do
  let date ← Date.ofParts? year month day
  let t ← ofParts? date hour minute second nanosecond
  t.ofLocal? offset

/-! ## The two readers -/

/-- Reads the format to the letter. -/
def readStrict? (s : String) : Option Timestamp := do
  let (year, cs) ← number? 4 4 s.toList
  let (month, cs) ← expect? '-' cs >>= number? 2 2
  let (day, cs) ← expect? '-' cs >>= number? 2 2
  let (hour, cs) ← divider? cs >>= number? 2 2
  let (minute, cs) ← expect? ':' cs >>= number? 2 2
  let (second, cs) ← expect? ':' cs >>= number? 2 2
  let (nanosecond, cs) ← fraction? cs
  let (offset, cs) ← offset? (expect? ':') cs
  if cs.isEmpty then assemble? year month day hour minute second nanosecond offset else none

/-- A year: up to four digits, or any number of them after a sign. -/
def relaxedYear? : List Char → Option (Int × List Char)
  | '-' :: cs => (number? 1 cs.length cs).map fun (n, rest) => (-n, rest)
  | '+' :: cs => (number? 1 cs.length cs).map fun (n, rest) => (n, rest)
  | cs => (number? 1 4 cs).map fun (n, rest) => (n, rest)

/-- A number of one or two digits, blanks in front of it being skipped. -/
def relaxedNumber? (cs : List Char) : Option (Nat × List Char) := number? 1 2 (skipBlanks cs)

/-- A given character, blanks in front of it being skipped. -/
def relaxedExpect? (c : Char) (cs : List Char) : Option (List Char) := expect? c (skipBlanks cs)

/-- A zone: `UTC` in any case, or an offset whose parts colons and blanks may separate. -/
def relaxedZone? (cs : List Char) : Option (Int × List Char) :=
  if (cs.take 3).map Char.toLower = ['u', 't', 'c'] then some (0, cs.drop 3)
  else offset? (fun cs => some (cs.dropWhile fun c => c == ':' || Text.isBlank c)) cs

/-- Reads the format with some freedom. -/
def readRelaxed? (s : String) : Option Timestamp := do
  let (year, cs) ← relaxedYear? (skipBlanks s.toList)
  let (month, cs) ← relaxedExpect? '-' cs >>= relaxedNumber?
  let (day, cs) ← relaxedExpect? '-' cs >>= relaxedNumber?
  let (hour, cs) ← divider? cs >>= relaxedNumber?
  let (minute, cs) ← relaxedExpect? ':' cs >>= relaxedNumber?
  let (second, cs) ← relaxedExpect? ':' cs >>= relaxedNumber?
  let (nanosecond, cs) ← fraction? cs
  let (offset, cs) ← relaxedZone? (skipBlanks cs)
  if (skipBlanks cs).isEmpty then assemble? year month day hour minute second nanosecond offset else none

end ContentVault.Timestamp
