import ContentVault.Bytes

/-!
# SHA-256

The Merkle–Damgård hash with 32-bit words and 64-byte blocks. A `State` is a chaining value of eight words;
`compress` absorbs one block of sixteen words into it. The block is passed as words, not as bytes, so that
the keyed constructions built on top (`Hmac`) can feed a chaining value back in without writing it out first.

Main statement: `length_digest`, a digest has 32 bytes.
-/

namespace ContentVault.Sha256

/-- A chaining value. -/
structure State where
  a : UInt32
  b : UInt32
  c : UInt32
  d : UInt32
  e : UInt32
  f : UInt32
  g : UInt32
  h : UInt32
deriving Inhabited

/-- The chaining value before the first block. -/
def State.initial : State :=
  ⟨0x6a09e667, 0xbb67ae85, 0x3c6ef372, 0xa54ff53a, 0x510e527f, 0x9b05688c, 0x1f83d9ab, 0x5be0cd19⟩

/-- One constant per round: the fractional bits of the cube roots of the first 64 primes. -/
def roundConstants : Array UInt32 := #[
  0x428a2f98, 0x71374491, 0xb5c0fbcf, 0xe9b5dba5, 0x3956c25b, 0x59f111f1, 0x923f82a4, 0xab1c5ed5,
  0xd807aa98, 0x12835b01, 0x243185be, 0x550c7dc3, 0x72be5d74, 0x80deb1fe, 0x9bdc06a7, 0xc19bf174,
  0xe49b69c1, 0xefbe4786, 0x0fc19dc6, 0x240ca1cc, 0x2de92c6f, 0x4a7484aa, 0x5cb0a9dc, 0x76f988da,
  0x983e5152, 0xa831c66d, 0xb00327c8, 0xbf597fc7, 0xc6e00bf3, 0xd5a79147, 0x06ca6351, 0x14292967,
  0x27b70a85, 0x2e1b2138, 0x4d2c6dfc, 0x53380d13, 0x650a7354, 0x766a0abb, 0x81c2c92e, 0x92722c85,
  0xa2bfe8a1, 0xa81a664b, 0xc24b8b70, 0xc76c51a3, 0xd192e819, 0xd6990624, 0xf40e3585, 0x106aa070,
  0x19a4c116, 0x1e376c08, 0x2748774c, 0x34b0bcb5, 0x391c0cb3, 0x4ed8aa4a, 0x5b9cca4f, 0x682e6ff3,
  0x748f82ee, 0x78a5636f, 0x84c87814, 0x8cc70208, 0x90befffa, 0xa4506ceb, 0xbef9a3f7, 0xc67178f2]

@[inline] def rotr (x : UInt32) (n : UInt32) : UInt32 := (x >>> n) ||| (x <<< (32 - n))

@[inline] def bigSigma0 (x : UInt32) : UInt32 := rotr x 2 ^^^ rotr x 13 ^^^ rotr x 22
@[inline] def bigSigma1 (x : UInt32) : UInt32 := rotr x 6 ^^^ rotr x 11 ^^^ rotr x 25
@[inline] def smallSigma0 (x : UInt32) : UInt32 := rotr x 7 ^^^ rotr x 18 ^^^ (x >>> 3)
@[inline] def smallSigma1 (x : UInt32) : UInt32 := rotr x 17 ^^^ rotr x 19 ^^^ (x >>> 10)

/-- Takes each bit from `y` where `x` has a one and from `z` where it has a zero. -/
@[inline] def choose (x y z : UInt32) : UInt32 := (x &&& y) ^^^ (~~~x &&& z)

/-- The bit that at least two of the three have. -/
@[inline] def majority (x y z : UInt32) : UInt32 := (x &&& y) ^^^ (x &&& z) ^^^ (y &&& z)

/-- Extends the message schedule by `n` words, each from four earlier ones. -/
def extend : (n : Nat) → Array UInt32 → Array UInt32
  | 0, w => w
  | n + 1, w =>
    let i := w.size
    extend n (w.push
      (smallSigma1 (w.getD (i - 2) 0) + w.getD (i - 7) 0 +
        smallSigma0 (w.getD (i - 15) 0) + w.getD (i - 16) 0))

/-- The last `n` of the 64 rounds over the schedule `w`. -/
def rounds (w : Array UInt32) :
    (n : Nat) → (a b c d e f g h : UInt32) → State
  | 0, a, b, c, d, e, f, g, h => ⟨a, b, c, d, e, f, g, h⟩
  | n + 1, a, b, c, d, e, f, g, h =>
    let i := 63 - n
    let t1 := h + bigSigma1 e + choose e f g + roundConstants.getD i 0 + w.getD i 0
    let t2 := bigSigma0 a + majority a b c
    rounds w n (t1 + t2) a b c (d + t1) e f g

/-- Absorbs one block of sixteen words. -/
def State.compress (s : State) (block : Array UInt32) : State :=
  let r := rounds (extend 48 block) 64 s.a s.b s.c s.d s.e s.f s.g s.h
  ⟨s.a + r.a, s.b + r.b, s.c + r.c, s.d + r.d, s.e + r.e, s.f + r.f, s.g + r.g, s.h + r.h⟩

/-! ## Bytes in, bytes out -/

/-- The four bytes of a word, most significant first. -/
def wordBytes (w : UInt32) : Bytes :=
  [(w >>> 24).toUInt8, (w >>> 16).toUInt8, (w >>> 8).toUInt8, w.toUInt8]

/-- A chaining value written out. -/
def State.toBytes (s : State) : Bytes :=
  wordBytes s.a ++ wordBytes s.b ++ wordBytes s.c ++ wordBytes s.d ++
    wordBytes s.e ++ wordBytes s.f ++ wordBytes s.g ++ wordBytes s.h

@[simp] theorem State.length_toBytes (s : State) : s.toBytes.length = 32 := by
  simp [State.toBytes, wordBytes]

/-- Absorbs a message word by word. `block` holds the words of the block being read; the sixteenth completes it.
What is left over, less than a word or less than a block, is not absorbed. -/
def absorb (s : State) (block : Array UInt32) : Bytes → State × Array UInt32
  | b0 :: b1 :: b2 :: b3 :: rest =>
    let w := (b0.toUInt32 <<< 24) ||| (b1.toUInt32 <<< 16) ||| (b2.toUInt32 <<< 8) ||| b3.toUInt32
    if block.size = 15 then
      absorb (s.compress (block.push w)) (Array.mkEmpty 64) rest
    else
      absorb s (block.push w) rest
  | _ => (s, block)

/-- The padding after `total` bytes: a one bit, zeros up to the last eight bytes of a block, and the length in
bits. -/
def padding (total : Nat) : Bytes :=
  0x80 :: List.replicate ((119 - total % 64) % 64) 0 ++ Bytes.bigEndian 8 (total * 8)

/-- Absorbs the end of a message: `rest` and the padding for `total` bytes, starting at a block boundary. -/
def State.finish (s : State) (total : Nat) (rest : Bytes) : State :=
  (absorb s (Array.mkEmpty 64) (rest ++ padding total)).1

/-- The SHA-256 digest of a message. -/
def digest (message : Bytes) : Bytes :=
  (State.initial.finish message.length message).toBytes

/-- A digest has 32 bytes. -/
@[simp] theorem length_digest (message : Bytes) : (digest message).length = 32 := by
  simp [digest]

end ContentVault.Sha256
