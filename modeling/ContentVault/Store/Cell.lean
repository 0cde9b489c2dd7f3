import ContentVault.Bytes
import ContentVault.Failure
import ContentVault.Json.Basic
import ContentVault.Text.Decimal

/-!
# Cells

What a table keeps in one place: nothing, an integer of 64 bits, a text or a byte string. A column prefers one of these
kinds and takes the others too: a column of texts turns an integer into its digits, a column of integers turns a text
that spells an integer into that integer, and what cannot be turned is kept as it is. A reader that wants a certain kind
and finds another is told that the database is at fault.
-/

namespace ContentVault

/-- What is kept in one place of a table. -/
inductive Cell where
  | null
  | integer (n : Int)
  | text (s : String)
  | blob (bytes : Bytes)
deriving DecidableEq

/-- The kind of cell that a column prefers. -/
inductive CellKind where
  | integer
  | text
  | blob
deriving DecidableEq, Repr

namespace Cell

/-! ## Integers as text -/

/-- Blanks around a number. -/
def isBlank (c : Char) : Bool := c == ' ' || (9 ≤ c.toNat && c.toNat ≤ 13)

/-- Splits a sign off. -/
def splitSign : List Char → Bool × List Char
  | '-' :: cs => (true, cs)
  | '+' :: cs => (false, cs)
  | cs => (false, cs)

/-- The exponent at the end of a number, if there is nothing else. -/
def exponent? : List Char → Option Int
  | [] => some 0
  | c :: cs =>
    let (negative, digits) := splitSign cs
    if (c == 'e' || c == 'E') && !digits.isEmpty && digits.all Char.isDigit then
      some (if negative then -Text.digitsValue digits else Text.digitsValue digits)
    else none

/-- A number times a power of ten, if it is whole and of moderate size. -/
def scaled? (n : Nat) (exponent : Int) : Option Nat :=
  if n = 0 then some 0
  else if 0 ≤ exponent then if exponent ≤ 20 then some (n * Nat.pow 10 exponent.toNat) else none
  else
    let places := (-exponent).toNat
    let unit := Nat.pow 10 places
    if (Nat.toDigits 10 n).length ≤ places then none
    else if n % unit = 0 then some (n / unit)
    else none

/-- The size of an integer that is spelled with a fraction or an exponent. Such a spelling has the precision of a
floating-point number. -/
def decimalSize? (whole fraction : List Char) (exponent : Int) : Option Nat := do
  let n ← scaled? (Text.digitsValue (whole ++ fraction)) (exponent - fraction.length)
  let n := Json.roundDouble n
  if n < 0x8000000000000000 then some n else none

/-- The integer that a text spells. -/
def integerOfText? (s : String) : Option Int := do
  let cs := ((s.toList.dropWhile isBlank).reverse.dropWhile isBlank).reverse
  let (negative, cs) := splitSign cs
  let whole := cs.takeWhile Char.isDigit
  let sign (n : Nat) : Int := if negative then -n else n
  match cs.dropWhile Char.isDigit with
  | [] =>
    let n := sign (Text.digitsValue whole)
    if whole.isEmpty || n < -0x8000000000000000 || 0x8000000000000000 ≤ n then none else some n
  | rest =>
    let (fraction, rest) := match rest with
      | '.' :: rest => (rest.takeWhile Char.isDigit, rest.dropWhile Char.isDigit)
      | rest => ([], rest)
    if whole.isEmpty && fraction.isEmpty then none
    else
      let exponent ← exponent? rest
      sign <$> decimalSize? whole fraction exponent

/-! ## Kinds -/

/-- A cell as a column keeps it that prefers this kind. -/
def stored (kind : CellKind) (cell : Cell) : Cell :=
  match kind, cell with
  | .text, integer n => text (toString n)
  | .integer, text s => ((integerOfText? s).map integer).getD cell
  | _, _ => cell

/-- The error for a cell of the wrong kind. -/
def wrongKind : VaultFailure := .database "cell of another kind"

/-- The text in a cell. -/
def asText : Cell → Attempt String
  | text s => .ok s
  | _ => .error wrongKind

/-- The text in a cell, if there is anything in it. -/
def asOptionalText : Cell → Attempt (Option String)
  | null => .ok none
  | text s => .ok (some s)
  | _ => .error wrongKind

/-- The integer in a cell. -/
def asInteger : Cell → Attempt Int
  | integer n => .ok n
  | _ => .error wrongKind

/-- The truth value in a cell: an integer, of which only zero is false. -/
def asFlag (cell : Cell) : Attempt Bool := cell.asInteger.map fun n => n != 0

/-- The byte string in a cell. -/
def asBlob : Cell → Attempt Bytes
  | blob bytes => .ok bytes
  | _ => .error wrongKind

/-- A text in a cell, or nothing. -/
def ofOptionalText : Option String → Cell
  | some s => text s
  | none => null

/-- A truth value in a cell. -/
def ofFlag (b : Bool) : Cell := integer (if b then 1 else 0)

end Cell

end ContentVault
