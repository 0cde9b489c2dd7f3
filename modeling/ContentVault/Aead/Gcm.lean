import ContentVault.Aead.Aes256

/-!
# AES-256-GCM

Counter mode over AES-256, authenticated by a polynomial hash over the field of 2^128 elements. The counter
block of a nonce starts at 1; block 1 masks the tag and the keystream begins at block 2.

Main statements: `length_keystream` and `length_tag`, which make the pair an `Aead`.
-/

namespace ContentVault.Gcm

open Aes256 (Schedule Block)

/-! ## The field of 2^128 elements -/

/-- An element; the coefficient of the lowest power is the highest bit of `hi`. -/
structure Element where
  hi : UInt64
  lo : UInt64

/-- The sum of two elements. -/
@[inline] def Element.add (x y : Element) : Element := ⟨x.hi ^^^ y.hi, x.lo ^^^ y.lo⟩

/-- Sum of the multiples `v`, `x·v`, `x²·v`, … that the next `n` coefficients (the high bits of `xs`, then those
of `next`) ask for, on top of `z`. -/
def mulBits : (n : Nat) → (xs next vh vl zh zl : UInt64) → Element
  | 0, _, _, _, _, zh, zl => ⟨zh, zl⟩
  | n + 1, xs, next, vh, vl, zh, zl =>
    let take : UInt64 := -(xs >>> 63)
    let fold : UInt64 := -(vl &&& 1)
    let xs' := (xs <<< 1) ||| (next >>> 63)
    mulBits n xs' (next <<< 1)
      ((vh >>> 1) ^^^ (fold &&& 0xe100000000000000)) ((vl >>> 1) ||| (vh <<< 63))
      (zh ^^^ (take &&& vh)) (zl ^^^ (take &&& vl))

/-- The product of two elements. -/
def Element.mul (x y : Element) : Element := mulBits 128 x.hi x.lo y.hi y.lo 0 0

/-- The element written in up to sixteen bytes, zeros filling up what is missing. -/
def Element.ofBytes (bytes : Bytes) : Element :=
  let half (bs : Bytes) : UInt64 :=
    (bs ++ List.replicate (8 - bs.length) 0).foldl (fun acc (b : UInt8) => (acc <<< 8) ||| b.toUInt64) 0
  ⟨half (bytes.take 8), half ((bytes.drop 8).take 8)⟩

/-- The sixteen bytes of an element. -/
def Element.toBytes (x : Element) : Bytes :=
  Bytes.bigEndian 8 x.hi.toNat ++ Bytes.bigEndian 8 x.lo.toNat

@[simp] theorem Element.length_toBytes (x : Element) : x.toBytes.length = 16 := by
  simp [Element.toBytes]

/-! ## Hash and keystream -/

/-- Hashes further bytes, sixteen at a time. -/
def absorb (key : Element) (y : Element) (bytes : Bytes) : Element :=
  if bytes.isEmpty then y
  else absorb key ((y.add (.ofBytes (bytes.take 16))).mul key) (bytes.drop 16)
termination_by bytes.length
decreasing_by
  cases bytes with
  | nil => simp at *
  | cons b bs =>
    simp only [List.length_drop, List.length_cons]
    omega

/-- The `i`-th block of the cipher in counter mode. -/
def counterBlock (w : Schedule) (nonce : Nonce) (i : Nat) : Bytes :=
  let columns := Aes256.columns nonce.bytes (Array.mkEmpty 3)
  (Aes256.encrypt w ⟨columns.getD 0 0, columns.getD 1 0, columns.getD 2 0, UInt32.ofNat i⟩).toBytes

@[simp] theorem length_counterBlock (w : Schedule) (nonce : Nonce) (i : Nat) :
    (counterBlock w nonce i).length = 16 := by
  simp [counterBlock]

/-- The first `count` bytes of the keystream. -/
def keystream (key : Key) (nonce : Nonce) (count : Nat) : Bytes :=
  let w := Aes256.schedule key
  ((List.range ((count + 15) / 16)).flatMap fun i => counterBlock w nonce (i + 2)).take count

theorem length_keystream (key : Key) (nonce : Nonce) (count : Nat) :
    (keystream key nonce count).length = count := by
  simp [keystream, List.length_flatMap, List.map_const']
  omega

/-- The tag of associated data and a ciphertext. -/
def tag (key : Key) (nonce : Nonce) (aad cipher : Bytes) : Bytes :=
  let w := Aes256.schedule key
  let hashKey := Element.ofBytes (Aes256.encrypt w ⟨0, 0, 0, 0⟩).toBytes
  let lengths := Bytes.bigEndian 8 (8 * aad.length) ++ Bytes.bigEndian 8 (8 * cipher.length)
  let hash := absorb hashKey (absorb hashKey (absorb hashKey ⟨0, 0⟩ aad) cipher) lengths
  (hash.add (.ofBytes (counterBlock w nonce 1))).toBytes

theorem length_tag (key : Key) (nonce : Nonce) (aad cipher : Bytes) :
    (tag key nonce aad cipher).length = tagLength := by
  simp [tag, tagLength]

/-- AES-256-GCM. -/
def aead : Aead := .ofStream keystream tag length_keystream length_tag

end ContentVault.Gcm
