import ContentVault.Bytes

/-!
# BLAKE3

The tree hash with 32-bit words, in its plain (unkeyed) mode with 32 bytes of output. A message is cut into
chunks of 1024 bytes; chunks are the leaves of a binary tree whose left subtrees are complete, and every node,
chunk or parent, is reduced to a chaining value by the same compression function under different flags.

Main statement: `length_digest`, a digest has 32 bytes.
-/

namespace ContentVault.Blake3

/-- A chaining value: eight words. -/
abbrev Chain := Vector UInt32 8

/-- The chaining value every chunk and every parent starts from. -/
def Chain.initial : Chain :=
  #v[0x6a09e667, 0xbb67ae85, 0x3c6ef372, 0xa54ff53a, 0x510e527f, 0x9b05688c, 0x1f83d9ab, 0x5be0cd19]

/-! ## Compression -/

/-- What a compression is told about the node it belongs to. -/
structure Flags where
  bits : UInt32

namespace Flags

def none : Flags := ⟨0⟩
def chunkStart : Flags := ⟨1⟩
def chunkEnd : Flags := ⟨2⟩
def parent : Flags := ⟨4⟩
def root : Flags := ⟨8⟩

/-- Both sets of flags. -/
def union (f g : Flags) : Flags := ⟨f.bits ||| g.bits⟩

end Flags

@[inline] def rotr (x : UInt32) (n : UInt32) : UInt32 := (x >>> n) ||| (x <<< (32 - n))

/-- Mixes two message words into the four state words at the given places. -/
def mix (v : Array UInt32) (a b c d : Nat) (x y : UInt32) : Array UInt32 :=
  let va := v.getD a 0 + v.getD b 0 + x
  let vd := rotr (v.getD d 0 ^^^ va) 16
  let vc := v.getD c 0 + vd
  let vb := rotr (v.getD b 0 ^^^ vc) 12
  let va := va + vb + y
  let vd := rotr (vd ^^^ va) 8
  let vc := vc + vd
  let vb := rotr (vb ^^^ vc) 7
  (((v.setIfInBounds a va).setIfInBounds b vb).setIfInBounds c vc).setIfInBounds d vd

/-- One round: the four columns, then the four diagonals. -/
def round (v m : Array UInt32) : Array UInt32 :=
  let v := mix v 0 4 8 12 (m.getD 0 0) (m.getD 1 0)
  let v := mix v 1 5 9 13 (m.getD 2 0) (m.getD 3 0)
  let v := mix v 2 6 10 14 (m.getD 4 0) (m.getD 5 0)
  let v := mix v 3 7 11 15 (m.getD 6 0) (m.getD 7 0)
  let v := mix v 0 5 10 15 (m.getD 8 0) (m.getD 9 0)
  let v := mix v 1 6 11 12 (m.getD 10 0) (m.getD 11 0)
  let v := mix v 2 7 8 13 (m.getD 12 0) (m.getD 13 0)
  mix v 3 4 9 14 (m.getD 14 0) (m.getD 15 0)

/-- The order in which a round passes the message words on to the next. -/
def messageOrder : Array Nat := #[2, 6, 3, 10, 7, 0, 4, 13, 1, 11, 12, 5, 9, 14, 15, 8]

/-- `n` rounds, the message words reordered after each. -/
def rounds : (n : Nat) → (v m : Array UInt32) → Array UInt32
  | 0, v, _ => v
  | n + 1, v, m => rounds n (round v m) (messageOrder.map fun i => m.getD i 0)

/-- Compresses one block of sixteen words, of which `length` bytes count, into a chaining value. -/
def compress (chain : Chain) (block : Array UInt32) (counter : Nat) (length : Nat) (flags : Flags) : Chain :=
  let tail : Array UInt32 := #[0x6a09e667, 0xbb67ae85, 0x3c6ef372, 0xa54ff53a,
    UInt32.ofNat counter, UInt32.ofNat (counter >>> 32), UInt32.ofNat length, flags.bits]
  let v := rounds 7 (chain.toArray ++ tail) block
  Vector.ofFn fun i => v.getD i 0 ^^^ v.getD (i + 8) 0

/-! ## Nodes -/

/-- The words of a block, least significant byte first; missing bytes count as zero. -/
def blockWords : Bytes → Array UInt32 → Array UInt32
  | b0 :: b1 :: b2 :: b3 :: rest, words =>
    blockWords rest (words.push
      (b0.toUInt32 ||| (b1.toUInt32 <<< 8) ||| (b2.toUInt32 <<< 16) ||| (b3.toUInt32 <<< 24)))
  | [], words => words
  | tail, words => words.push (UInt32.ofNat (Bytes.toNatLE tail))

/-- The chaining value of a chunk: its blocks in order, the last of them (full or not) marked as the end. -/
def chunk (index : Nat) (top : Flags) (chain : Chain) (start : Flags) (message : Bytes) : Chain :=
  if message.length ≤ 64 then
    compress chain (blockWords message (Array.mkEmpty 16)) index message.length
      ((start.union .chunkEnd).union top)
  else
    let chain := compress chain (blockWords (message.take 64) (Array.mkEmpty 16)) index 64 start
    chunk index top chain .none (message.drop 64)
termination_by message.length
decreasing_by simp; omega

/-- The chaining value of a parent. -/
def parent (top : Flags) (left right : Chain) : Chain :=
  compress .initial (left.toArray ++ right.toArray) 0 64 (Flags.parent.union top)

/-- How many of `chunks > 1` chunks go to the left: the largest power of two that leaves some for the right. -/
def leftChunks (chunks : Nat) : Nat := 1 <<< (chunks - 1).log2

theorem leftChunks_pos (chunks : Nat) : 0 < leftChunks chunks := by
  unfold leftChunks
  rw [Nat.one_shiftLeft]
  exact Nat.two_pow_pos _

theorem leftChunks_lt {chunks : Nat} (many : 1 < chunks) : leftChunks chunks < chunks := by
  have := Nat.log2_self_le (Nat.sub_ne_zero_of_lt many)
  unfold leftChunks
  rw [Nat.one_shiftLeft]
  omega

/-- The chaining value of the subtree over `message`, whose first chunk has number `index`. -/
def tree (index : Nat) (top : Flags) (message : Bytes) : Chain :=
  if message.length ≤ 1024 then
    chunk index top .initial .chunkStart message
  else
    let left := leftChunks ((message.length + 1023) / 1024)
    parent top
      (tree index .none (message.take (left * 1024)))
      (tree (index + left) .none (message.drop (left * 1024)))
termination_by message.length
decreasing_by
  · have : leftChunks ((message.length + 1023) / 1024) < (message.length + 1023) / 1024 := leftChunks_lt (by omega)
    simp
    omega
  · have := leftChunks_pos ((message.length + 1023) / 1024)
    simp
    omega

/-- The four bytes of a word, least significant first. -/
def wordBytes (w : UInt32) : Bytes :=
  [w.toUInt8, (w >>> 8).toUInt8, (w >>> 16).toUInt8, (w >>> 24).toUInt8]

/-- The BLAKE3 digest of a message. -/
def digest (message : Bytes) : Bytes := (tree 0 .root message).toList.flatMap wordBytes

/-- A digest has 32 bytes. -/
@[simp] theorem length_digest (message : Bytes) : (digest message).length = 32 := by
  simp [digest, List.length_flatMap, wordBytes, List.map_const']

end ContentVault.Blake3
