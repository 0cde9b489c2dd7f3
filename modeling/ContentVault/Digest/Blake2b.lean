import ContentVault.Bytes

/-!
# BLAKE2b

The hash with 64-bit words and 128-byte blocks, unkeyed, with a chosen output length of at most 64 bytes. It is
the building block of the memory-hard key derivation in `Argon2`.
-/

namespace ContentVault.Blake2b

/-- The constants of the initial chaining value and of the working state. -/
def constants : Array UInt64 := #[
  0x6a09e667f3bcc908, 0xbb67ae8584caa73b, 0x3c6ef372fe94f82b, 0xa54ff53a5f1d36f1,
  0x510e527fade682d1, 0x9b05688c2b3e6c1f, 0x1f83d9abfb41bd6b, 0x5be0cd19137e2179]

/-- The order in which each of the twelve rounds takes the message words. -/
def messageOrders : List (Array Nat) := [
  #[0, 1, 2, 3, 4, 5, 6, 7, 8, 9, 10, 11, 12, 13, 14, 15],
  #[14, 10, 4, 8, 9, 15, 13, 6, 1, 12, 0, 2, 11, 7, 5, 3],
  #[11, 8, 12, 0, 5, 2, 15, 13, 10, 14, 3, 6, 7, 1, 9, 4],
  #[7, 9, 3, 1, 13, 12, 11, 14, 2, 6, 5, 10, 4, 0, 15, 8],
  #[9, 0, 5, 7, 2, 4, 10, 15, 14, 1, 11, 12, 6, 8, 3, 13],
  #[2, 12, 6, 10, 0, 11, 8, 3, 4, 13, 7, 5, 15, 14, 1, 9],
  #[12, 5, 1, 15, 14, 13, 4, 10, 0, 7, 6, 3, 9, 2, 8, 11],
  #[13, 11, 7, 14, 12, 1, 3, 9, 5, 0, 15, 4, 8, 6, 2, 10],
  #[6, 15, 14, 9, 11, 3, 0, 8, 12, 2, 13, 7, 1, 4, 10, 5],
  #[10, 2, 8, 4, 7, 6, 1, 5, 15, 11, 9, 14, 3, 12, 13, 0],
  #[0, 1, 2, 3, 4, 5, 6, 7, 8, 9, 10, 11, 12, 13, 14, 15],
  #[14, 10, 4, 8, 9, 15, 13, 6, 1, 12, 0, 2, 11, 7, 5, 3]]

@[inline] def rotr (x : UInt64) (n : UInt64) : UInt64 := (x >>> n) ||| (x <<< (64 - n))

/-- Mixes two message words into the four state words at the given places. -/
def mix (v : Array UInt64) (a b c d : Nat) (x y : UInt64) : Array UInt64 :=
  let va := v.getD a 0 + v.getD b 0 + x
  let vd := rotr (v.getD d 0 ^^^ va) 32
  let vc := v.getD c 0 + vd
  let vb := rotr (v.getD b 0 ^^^ vc) 24
  let va := va + vb + y
  let vd := rotr (vd ^^^ va) 16
  let vc := vc + vd
  let vb := rotr (vb ^^^ vc) 63
  (((v.setIfInBounds a va).setIfInBounds b vb).setIfInBounds c vc).setIfInBounds d vd

/-- One round: the four columns, then the four diagonals, over the message words in the order `s`. -/
def round (m v : Array UInt64) (s : Array Nat) : Array UInt64 :=
  let word (i : Nat) : UInt64 := m.getD (s.getD i 0) 0
  let v := mix v 0 4 8 12 (word 0) (word 1)
  let v := mix v 1 5 9 13 (word 2) (word 3)
  let v := mix v 2 6 10 14 (word 4) (word 5)
  let v := mix v 3 7 11 15 (word 6) (word 7)
  let v := mix v 0 5 10 15 (word 8) (word 9)
  let v := mix v 1 6 11 12 (word 10) (word 11)
  let v := mix v 2 7 8 13 (word 12) (word 13)
  mix v 3 4 9 14 (word 14) (word 15)

/-- The words of a byte string, least significant byte first; missing bytes count as zero. -/
def words (bytes : Bytes) : Array UInt64 :=
  Array.ofFn fun i : Fin 16 => UInt64.ofNat (Bytes.toNatLE ((bytes.drop (8 * i)).take 8))

/-- Absorbs one block, `total` being the number of message bytes up to and with it. -/
def compress (chain : Array UInt64) (block : Bytes) (total : Nat) (last : Bool) : Array UInt64 :=
  let counter := [UInt64.ofNat total, UInt64.ofNat (total >>> 64)]
  let final : UInt64 := if last then 0xffffffffffffffff else 0
  let masks := [0, 0, 0, 0] ++ counter ++ [final, 0]
  let v := chain ++ (constants.toList.zipWith (· ^^^ ·) masks).toArray
  let v := messageOrders.foldl (round (words block)) v
  chain.mapIdx fun i h => h ^^^ v.getD i 0 ^^^ v.getD (i + 8) 0

/-- Absorbs a message after `done` bytes; its last block, full or not, is marked as the last. -/
def absorb (chain : Array UInt64) (done : Nat) (message : Bytes) : Array UInt64 :=
  if message.length ≤ 128 then
    compress chain message (done + message.length) true
  else
    absorb (compress chain (message.take 128) (done + 128) false) (done + 128) (message.drop 128)
termination_by message.length
decreasing_by simp; omega

@[simp] theorem size_absorb (chain : Array UInt64) (done : Nat) (message : Bytes) :
    (absorb chain done message).size = chain.size := by
  fun_induction absorb chain done message with
  | case1 => simp [compress]
  | case2 _ _ _ _ ih => rw [ih]; simp [compress]

/-- The digest of a message, `length` bytes long (at most 64). -/
def digest (length : Nat) (message : Bytes) : Bytes :=
  let parameters : UInt64 := 0x01010000 ^^^ UInt64.ofNat length
  let chain := absorb (constants.modify 0 (· ^^^ parameters)) 0 message
  (chain.toList.flatMap fun word => Bytes.littleEndian 8 word.toNat).take length

/-- A digest has the length that was asked for. -/
theorem length_digest {length : Nat} (short : length ≤ 64) (message : Bytes) :
    (digest length message).length = length := by
  simp [digest, List.length_flatMap, List.map_const', constants]
  omega

end ContentVault.Blake2b
