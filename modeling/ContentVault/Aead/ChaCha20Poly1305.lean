import ContentVault.Aead.Basic

/-!
# ChaCha20-Poly1305

A stream cipher of 64-byte blocks, authenticated by evaluating the message as a polynomial modulo the prime
2^130 - 5. Block 0 of the stream keys the authenticator and the keystream begins at block 1.

Main statements: `length_keystream` and `length_tag`, which make the pair an `Aead`.
-/

namespace ContentVault.ChaCha20Poly1305

/-! ## The stream -/

@[inline] def rotl (x : UInt32) (n : UInt32) : UInt32 := (x <<< n) ||| (x >>> (32 - n))

/-- Mixes the four state words at the given places. -/
def mix (v : Array UInt32) (a b c d : Nat) : Array UInt32 :=
  let va := v.getD a 0 + v.getD b 0
  let vd := rotl (v.getD d 0 ^^^ va) 16
  let vc := v.getD c 0 + vd
  let vb := rotl (v.getD b 0 ^^^ vc) 12
  let va := va + vb
  let vd := rotl (vd ^^^ va) 8
  let vc := vc + vd
  let vb := rotl (vb ^^^ vc) 7
  (((v.setIfInBounds a va).setIfInBounds b vb).setIfInBounds c vc).setIfInBounds d vd

/-- Two rounds: the four columns, then the four diagonals. -/
def doubleRound (v : Array UInt32) : Array UInt32 :=
  let v := mix (mix (mix (mix v 0 4 8 12) 1 5 9 13) 2 6 10 14) 3 7 11 15
  mix (mix (mix (mix v 0 5 10 15) 1 6 11 12) 2 7 8 13) 3 4 9 14

/-- `n` double rounds. -/
def doubleRounds : (n : Nat) → Array UInt32 → Array UInt32
  | 0, v => v
  | n + 1, v => doubleRounds n (doubleRound v)

/-- The words of a byte string, least significant byte first. -/
def words : Bytes → List UInt32
  | a :: b :: c :: d :: rest =>
    (a.toUInt32 ||| (b.toUInt32 <<< 8) ||| (c.toUInt32 <<< 16) ||| (d.toUInt32 <<< 24)) :: words rest
  | _ => []

/-- The four bytes of a word, least significant first. -/
def wordBytes (w : UInt32) : Bytes :=
  [w.toUInt8, (w >>> 8).toUInt8, (w >>> 16).toUInt8, (w >>> 24).toUInt8]

/-- The state of block `i`: four constants, the key, the counter and the nonce. -/
def initial (key : Key) (nonce : Nonce) (i : Nat) : Array UInt32 :=
  ([0x61707865, 0x3320646e, 0x79622d32, 0x6b206574] ++ words key.bytes ++ [UInt32.ofNat i] ++
    words nonce.bytes).toArray

/-- Block `i` of the stream. -/
def block (key : Key) (nonce : Nonce) (i : Nat) : Bytes :=
  let start := initial key nonce i
  let v := doubleRounds 10 start
  (List.range 16).flatMap fun j => wordBytes (v.getD j 0 + start.getD j 0)

@[simp] theorem length_block (key : Key) (nonce : Nonce) (i : Nat) : (block key nonce i).length = 64 := by
  simp [block, List.length_flatMap, wordBytes, List.map_const']

/-- The first `count` bytes of the keystream. -/
def keystream (key : Key) (nonce : Nonce) (count : Nat) : Bytes :=
  ((List.range ((count + 63) / 64)).flatMap fun i => block key nonce (i + 1)).take count

theorem length_keystream (key : Key) (nonce : Nonce) (count : Nat) :
    (keystream key nonce count).length = count := by
  simp [keystream, List.length_flatMap, List.map_const']
  omega

/-! ## The authenticator -/

/-- The modulus. -/
def prime : Nat := (1 <<< 130) - 5

/-- Evaluates further bytes at the point `r`, sixteen at a time, each group with a one written after it. -/
def absorb (r : Nat) (acc : Nat) (bytes : Bytes) : Nat :=
  if bytes.isEmpty then acc
  else absorb r ((acc + Bytes.toNatLE (bytes.take 16 ++ [1])) * r % prime) (bytes.drop 16)
termination_by bytes.length
decreasing_by
  cases bytes with
  | nil => simp at *
  | cons b bs =>
    simp only [List.length_drop, List.length_cons]
    omega

/-- Zeros up to a multiple of sixteen bytes. -/
def padded (bytes : Bytes) : Bytes := bytes ++ List.replicate ((16 - bytes.length % 16) % 16) 0

/-- The tag of associated data and a ciphertext. -/
def tag (key : Key) (nonce : Nonce) (aad cipher : Bytes) : Bytes :=
  let oneTime := block key nonce 0
  let r := Bytes.toNatLE (oneTime.take 16) &&& 0x0ffffffc0ffffffc0ffffffc0fffffff
  let s := Bytes.toNatLE ((oneTime.drop 16).take 16)
  let lengths := Bytes.littleEndian 8 aad.length ++ Bytes.littleEndian 8 cipher.length
  Bytes.littleEndian 16 (absorb r 0 (padded aad ++ padded cipher ++ lengths) + s)

theorem length_tag (key : Key) (nonce : Nonce) (aad cipher : Bytes) :
    (tag key nonce aad cipher).length = tagLength := by
  simp [tag, tagLength]

/-- ChaCha20-Poly1305. -/
def aead : Aead := .ofStream keystream tag length_keystream length_tag

end ContentVault.ChaCha20Poly1305
