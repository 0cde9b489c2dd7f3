import ContentVault.Bytes

/-!
# Hexadecimal text

Two digits a byte, lower case. Digests, keys and nonces are written this way.
-/

namespace ContentVault.Text

/-- The digit for a number below sixteen. -/
def hexDigit (n : Nat) : Char :=
  if n < 10 then Char.ofNat (48 + n) else Char.ofNat (87 + n)

/-- The number a digit stands for, in either case. -/
def hexValue? (c : Char) : Option Nat :=
  let n := c.toNat
  if 48 ≤ n ∧ n ≤ 57 then some (n - 48)
  else if 97 ≤ n ∧ n ≤ 102 then some (n - 87)
  else if 65 ≤ n ∧ n ≤ 70 then some (n - 55)
  else none

/-- The digits of a byte string. -/
def hexChars : Bytes → List Char
  | [] => []
  | b :: bs => hexDigit (b.toNat / 16) :: hexDigit (b.toNat % 16) :: hexChars bs

/-- A byte string in hexadecimal. -/
def hex (bs : Bytes) : String := String.ofList (hexChars bs)

@[simp] theorem length_hexChars (bs : Bytes) : (hexChars bs).length = 2 * bs.length := by
  induction bs with
  | nil => rfl
  | cons b bs ih => simp [hexChars, ih]; omega

/-- The bytes that pairs of digits spell. -/
def unhexChars? : List Char → Option Bytes
  | [] => some []
  | c :: d :: rest => do
    let high ← hexValue? c
    let low ← hexValue? d
    let bytes ← unhexChars? rest
    return UInt8.ofNat (16 * high + low) :: bytes
  | [_] => none

/-- The byte string that a text of hexadecimal digits spells, if it is one. -/
def unhex? (s : String) : Option Bytes := unhexChars? s.toList

end ContentVault.Text
