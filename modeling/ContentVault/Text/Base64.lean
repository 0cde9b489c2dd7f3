import ContentVault.Bytes

/-!
# Base64 text

The standard alphabet with padding: four digits for three bytes, the last group filled up with `=`. Reading is
strict, padding must be there and unused bits must be zero, so that every byte string has exactly one written
form.
-/

namespace ContentVault.Text.Base64

/-- The digit for a number below 64. -/
def symbol (n : Nat) : Char :=
  if n < 26 then Char.ofNat (65 + n)
  else if n < 52 then Char.ofNat (71 + n)
  else if n < 62 then Char.ofNat (n - 4)
  else if n = 62 then '+'
  else '/'

/-- The number a digit stands for. -/
def value? (c : Char) : Option Nat :=
  let n := c.toNat
  if 65 ≤ n ∧ n ≤ 90 then some (n - 65)
  else if 97 ≤ n ∧ n ≤ 122 then some (n - 71)
  else if 48 ≤ n ∧ n ≤ 57 then some (n + 4)
  else if c = '+' then some 62
  else if c = '/' then some 63
  else none

/-- The digits of a byte string. -/
def encodeChars : Bytes → List Char
  | [] => []
  | [a] =>
    let n := a.toNat
    [symbol (n / 4), symbol (n % 4 * 16), '=', '=']
  | [a, b] =>
    let n := a.toNat * 256 + b.toNat
    [symbol (n / 1024), symbol (n / 16 % 64), symbol (n % 16 * 4), '=']
  | a :: b :: c :: rest =>
    let n := a.toNat * 65536 + b.toNat * 256 + c.toNat
    symbol (n / 262144) :: symbol (n / 4096 % 64) :: symbol (n / 64 % 64) :: symbol (n % 64) ::
      encodeChars rest

/-- A byte string in Base64. -/
def encode (bs : Bytes) : String := String.ofList (encodeChars bs)

/-- The one byte of a last group of two digits. -/
def lastOne? (c d : Char) : Option Bytes := do
  let x ← value? c
  let y ← value? d
  if y % 16 = 0 then return [UInt8.ofNat (x * 4 + y / 16)] else none

/-- The two bytes of a last group of three digits. -/
def lastTwo? (c d e : Char) : Option Bytes := do
  let x ← value? c
  let y ← value? d
  let z ← value? e
  let n := x * 1024 + y * 16 + z / 4
  if z % 4 = 0 then return [UInt8.ofNat (n / 256), UInt8.ofNat (n % 256)] else none

/-- The three bytes of a full group. -/
def group? (c d e f : Char) : Option Bytes := do
  let x ← value? c
  let y ← value? d
  let z ← value? e
  let w ← value? f
  let n := x * 262144 + y * 4096 + z * 64 + w
  return [UInt8.ofNat (n / 65536), UInt8.ofNat (n / 256 % 256), UInt8.ofNat (n % 256)]

/-- The bytes that digits spell. -/
def decodeChars? : List Char → Option Bytes
  | [] => some []
  | [c, d, '=', '='] => lastOne? c d
  | [c, d, e, '='] => lastTwo? c d e
  | c :: d :: e :: f :: rest => do
    let bytes ← group? c d e f
    let more ← decodeChars? rest
    return bytes ++ more
  | _ => none

/-- The byte string that a Base64 text spells, if it is one. -/
def decode? (s : String) : Option Bytes := decodeChars? s.toList

end ContentVault.Text.Base64
