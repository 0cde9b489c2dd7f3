import ContentVault.Aead.Basic

/-!
# AES with a 256-bit key

The block cipher on 128-bit blocks, in the encryption direction only, which is all that counter mode needs. A
block is four 32-bit columns. The substitution box is computed from its definition, inversion in the field of 256
elements followed by an affine map, and a round looks up the products of a substituted byte in one table.
-/

namespace ContentVault.Aes256

/-! ## The field of 256 elements -/

/-- Multiplication by the polynomial `x`. -/
def double (a : UInt8) : UInt8 := (a <<< 1) ^^^ (if a &&& 0x80 == 0 then 0 else 0x1b)

/-- Multiplication, over the low `n` bits of the second factor. -/
def mulBits : (n : Nat) → (a b : UInt8) → UInt8
  | 0, _, _ => 0
  | n + 1, a, b => (if b &&& 1 == 0 then 0 else a) ^^^ mulBits n (double a) (b >>> 1)

/-- Multiplication. -/
def mul (a b : UInt8) : UInt8 := mulBits 8 a b

/-- The inverse, zero for zero: the 254th power, as the product of the powers 2, 4, …, 128. -/
def inverse (a : UInt8) : UInt8 :=
  ((List.range 7).foldl (fun (power, product) _ =>
    let power := mul power power
    (power, mul product power)) (a, (1 : UInt8))).2

/-- The bits of a byte, rotated to the left. -/
def rotl8 (a : UInt8) (n : UInt8) : UInt8 := (a <<< n) ||| (a >>> (8 - n))

/-- The substitution of a byte. -/
def substitute (a : UInt8) : UInt8 :=
  let i := inverse a
  i ^^^ rotl8 i 1 ^^^ rotl8 i 2 ^^^ rotl8 i 3 ^^^ rotl8 i 4 ^^^ 0x63

/-- The substitution of every byte. -/
def box : Array UInt8 := Array.ofFn fun a : Fin 256 => substitute (UInt8.ofNat a)

/-- Four bytes as a column, the first one on top. -/
def column (a b c d : UInt8) : UInt32 :=
  (a.toUInt32 <<< 24) ||| (b.toUInt32 <<< 16) ||| (c.toUInt32 <<< 8) ||| d.toUInt32

/-- What a substituted byte of the first row adds to its column: its products by 2, 1, 1 and 3. -/
def products : Array UInt32 :=
  box.map fun s => column (double s) s s (double s ^^^ s)

/-! ## Rounds -/

/-- A block: four columns. -/
structure Block where
  c0 : UInt32
  c1 : UInt32
  c2 : UInt32
  c3 : UInt32

@[inline] def rotr (x : UInt32) (n : UInt32) : UInt32 := (x >>> n) ||| (x <<< (32 - n))

/-- The substitution of byte `i` of a column, counted from the top. -/
@[inline] def boxByte (x : UInt32) (i : UInt32) : UInt32 :=
  (box.getD ((x >>> (24 - 8 * i)) &&& 0xff).toNat 0).toUInt32

/-- The products of byte `i` of a column, turned to its row. -/
@[inline] def productsOf (x : UInt32) (i : UInt32) : UInt32 :=
  rotr (products.getD ((x >>> (24 - 8 * i)) &&& 0xff).toNat 0) (8 * i)

/-- The substitution of the four bytes of a column. -/
def boxWord (x : UInt32) : UInt32 :=
  (boxByte x 0 <<< 24) ||| (boxByte x 1 <<< 16) ||| (boxByte x 2 <<< 8) ||| boxByte x 3

/-- One column after a round, from the four columns that its bytes come from and its round key. -/
@[inline] def mixColumn (a b c d key : UInt32) : UInt32 :=
  productsOf a 0 ^^^ productsOf b 1 ^^^ productsOf c 2 ^^^ productsOf d 3 ^^^ key

/-- One column after the last round, which does not mix. -/
@[inline] def lastColumn (a b c d key : UInt32) : UInt32 :=
  ((boxByte a 0 <<< 24) ||| (boxByte b 1 <<< 16) ||| (boxByte c 2 <<< 8) ||| boxByte d 3) ^^^ key

/-- The expanded key: sixty columns. -/
abbrev Schedule := Array UInt32

/-- Extends the schedule by `n` columns. -/
def extend : (n : Nat) → (constant : UInt8) → Schedule → Schedule
  | 0, _, w => w
  | n + 1, constant, w =>
    let i := w.size
    let last := w.getD (i - 1) 0
    let before := w.getD (i - 8) 0
    if i % 8 == 0 then
      extend n (double constant) (w.push (before ^^^ boxWord (rotr last 24) ^^^ (constant.toUInt32 <<< 24)))
    else if i % 8 == 4 then extend n constant (w.push (before ^^^ boxWord last))
    else extend n constant (w.push (before ^^^ last))

/-- The columns of a byte string. -/
def columns : Bytes → Array UInt32 → Array UInt32
  | a :: b :: c :: d :: rest, w => columns rest (w.push (column a b c d))
  | _, w => w

/-- Expands a key. -/
def schedule (key : Key) : Schedule := extend 52 1 (columns key.bytes (Array.mkEmpty 60))

/-- The last `n` of the thirteen mixing rounds and the closing one. -/
def rounds (w : Schedule) : (n : Nat) → (a b c d : UInt32) → Block
  | 0, a, b, c, d =>
    ⟨lastColumn a b c d (w.getD 56 0), lastColumn b c d a (w.getD 57 0),
      lastColumn c d a b (w.getD 58 0), lastColumn d a b c (w.getD 59 0)⟩
  | n + 1, a, b, c, d =>
    let k := 4 * (13 - n)
    rounds w n (mixColumn a b c d (w.getD k 0)) (mixColumn b c d a (w.getD (k + 1) 0))
      (mixColumn c d a b (w.getD (k + 2) 0)) (mixColumn d a b c (w.getD (k + 3) 0))

/-- Encrypts a block. -/
def encrypt (w : Schedule) (x : Block) : Block :=
  rounds w 13 (x.c0 ^^^ w.getD 0 0) (x.c1 ^^^ w.getD 1 0) (x.c2 ^^^ w.getD 2 0) (x.c3 ^^^ w.getD 3 0)

/-- The four bytes of a column. -/
def columnBytes (x : UInt32) : Bytes :=
  [(x >>> 24).toUInt8, (x >>> 16).toUInt8, (x >>> 8).toUInt8, x.toUInt8]

/-- The bytes of a block. -/
def Block.toBytes (x : Block) : Bytes :=
  columnBytes x.c0 ++ columnBytes x.c1 ++ columnBytes x.c2 ++ columnBytes x.c3

@[simp] theorem Block.length_toBytes (x : Block) : x.toBytes.length = 16 := by
  simp [Block.toBytes, columnBytes]

end ContentVault.Aes256
