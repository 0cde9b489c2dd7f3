/-!
# Byte strings

Everything that moves through the vault is a byte string: plaintext, ciphertext frames, salts, nonces,
digests. A byte string is a list of bytes, so streams can be cut and joined with the list operations and
their laws. The module adds the few operations lists do not have: the two numeric readings (`bigEndian`,
`littleEndian` and their inverses), the bytewise `xor`, and the UTF-8 bytes of a text.

Main statements: `length_bigEndian`, and `xor_xor_cancel`, which makes every XOR cipher its own inverse.
-/

namespace ContentVault

/-- A byte string. -/
abbrev Bytes := List UInt8

namespace Bytes

/-! ## Text -/

/-- The UTF-8 bytes of a text. -/
def ofString (s : String) : Bytes := s.toUTF8.data.toList

/-- The text with these UTF-8 bytes, if they are well formed. -/
def toString? (bs : Bytes) : Option String := String.fromUTF8? ⟨bs.toArray⟩

/-! ## Numbers -/

/-- The low `width` bytes of `n`, most significant first. -/
def bigEndian : (width : Nat) → (n : Nat) → Bytes
  | 0, _ => []
  | width + 1, n => bigEndian width (n / 256) ++ [UInt8.ofNat (n % 256)]

/-- The low `width` bytes of `n`, least significant first. -/
def littleEndian : (width : Nat) → (n : Nat) → Bytes
  | 0, _ => []
  | width + 1, n => UInt8.ofNat (n % 256) :: littleEndian width (n / 256)

/-- The number a byte string spells, most significant byte first. -/
def toNatBE (bs : Bytes) : Nat := bs.foldl (fun acc b => acc * 256 + b.toNat) 0

/-- The number a byte string spells, least significant byte first. -/
def toNatLE (bs : Bytes) : Nat := bs.foldr (fun b acc => acc * 256 + b.toNat) 0

@[simp] theorem length_bigEndian (width n : Nat) : (bigEndian width n).length = width := by
  induction width generalizing n with
  | zero => rfl
  | succ width ih => simp [bigEndian, ih]

@[simp] theorem length_littleEndian (width n : Nat) : (littleEndian width n).length = width := by
  induction width generalizing n with
  | zero => rfl
  | succ width ih => simp [littleEndian, ih]

theorem toNatBE_concat (bs : Bytes) (b : UInt8) :
    toNatBE (bs ++ [b]) = toNatBE bs * 256 + b.toNat := by
  simp [toNatBE]

/-! ## Bytewise exclusive or -/

/-- Exclusive or, byte by byte, over the shorter of the two. -/
def xor (as bs : Bytes) : Bytes := List.zipWith (· ^^^ ·) as bs

@[simp] theorem length_xor (as bs : Bytes) : (xor as bs).length = min as.length bs.length := by
  simp [xor]

/-- Masking twice with the same long enough mask gives the byte string back. -/
theorem xor_xor_cancel (as mask : Bytes) (long : as.length ≤ mask.length) :
    xor (xor as mask) mask = as := by
  induction as generalizing mask with
  | nil => simp [xor]
  | cons a as ih =>
    cases mask with
    | nil => simp at long
    | cons m mask =>
      have := ih mask (by simpa using long)
      simp only [xor, List.zipWith_cons_cons] at this ⊢
      rw [this, UInt8.xor_assoc, UInt8.xor_self, UInt8.xor_zero]

end Bytes

end ContentVault
