import ContentVault.Digest.Blake2b

/-!
# Argon2id

The memory-hard key derivation, version 0x13, with 32 bytes of output. It fills a matrix of 1024-byte blocks,
`lanes` rows of `columns` blocks each, where a new block mixes the previous one of its lane with an earlier block
chosen by a pseudo-random word. In the first half of the first pass that word does not depend on the secret, later
it is read off the previous block.

The matrix is one array. A block is 128 words of 64 bits, and each word is kept as its low and its high half, so
that a cell of the array is a plain scalar and the whole fill works in place.
-/

namespace ContentVault.Argon2

/-! ## Words and blocks -/

/-- Cells per block. -/
def blockCells : Nat := 256

/-- The word at place `j`, counted in words. -/
@[inline] def word (cells : Array UInt32) (j : Nat) : UInt64 :=
  (cells.getD (2 * j) 0).toUInt64 ||| ((cells.getD (2 * j + 1) 0).toUInt64 <<< 32)

/-- Writes the word at place `j`, counted in words. -/
@[inline] def setWord (cells : Array UInt32) (j : Nat) (x : UInt64) : Array UInt32 :=
  (cells.setIfInBounds (2 * j) x.toUInt32).setIfInBounds (2 * j + 1) (x >>> 32).toUInt32

@[inline] def rotr (x : UInt64) (n : UInt64) : UInt64 := (x >>> n) ||| (x <<< (64 - n))

/-- Addition strengthened by the product of the low halves. -/
@[inline] def addMul (x y : UInt64) : UInt64 :=
  x + y + 2 * ((x &&& 0xffffffff) * (y &&& 0xffffffff))

/-- Four words. -/
structure Quad where
  a : UInt64
  b : UInt64
  c : UInt64
  d : UInt64

/-- Mixes four words. -/
@[inline] def mix (a b c d : UInt64) : Quad :=
  let a := addMul a b
  let d := rotr (d ^^^ a) 32
  let c := addMul c d
  let b := rotr (b ^^^ c) 24
  let a := addMul a b
  let d := rotr (d ^^^ a) 16
  let c := addMul c d
  let b := rotr (b ^^^ c) 63
  ⟨a, b, c, d⟩

/-- Permutes sixteen words of a block: pairs of neighbours, `stride` words apart, from `start` on. -/
def permute (cells : Array UInt32) (start stride : Nat) : Array UInt32 :=
  let p0 := start
  let p1 := start + stride
  let p2 := start + 2 * stride
  let p3 := start + 3 * stride
  let p4 := start + 4 * stride
  let p5 := start + 5 * stride
  let p6 := start + 6 * stride
  let p7 := start + 7 * stride
  let q0 := mix (word cells p0) (word cells p2) (word cells p4) (word cells p6)
  let q1 := mix (word cells (p0 + 1)) (word cells (p2 + 1)) (word cells (p4 + 1)) (word cells (p6 + 1))
  let q2 := mix (word cells p1) (word cells p3) (word cells p5) (word cells p7)
  let q3 := mix (word cells (p1 + 1)) (word cells (p3 + 1)) (word cells (p5 + 1)) (word cells (p7 + 1))
  let r0 := mix q0.a q1.b q2.c q3.d
  let r1 := mix q1.a q2.b q3.c q0.d
  let r2 := mix q2.a q3.b q0.c q1.d
  let r3 := mix q3.a q0.b q1.c q2.d
  let cells := setWord (setWord cells p0 r0.a) (p0 + 1) r1.a
  let cells := setWord (setWord cells p1 r2.a) (p1 + 1) r3.a
  let cells := setWord (setWord cells p2 r3.b) (p2 + 1) r0.b
  let cells := setWord (setWord cells p3 r1.b) (p3 + 1) r2.b
  let cells := setWord (setWord cells p4 r2.c) (p4 + 1) r3.c
  let cells := setWord (setWord cells p5 r0.c) (p5 + 1) r1.c
  let cells := setWord (setWord cells p6 r1.d) (p6 + 1) r2.d
  setWord (setWord cells p7 r3.d) (p7 + 1) r0.d

/-- Permutes the last `n` of the eight rows of a block. -/
def permuteRows : (n : Nat) → Array UInt32 → Array UInt32
  | 0, cells => cells
  | n + 1, cells => permuteRows n (permute cells (16 * (7 - n)) 2)

/-- Permutes the last `n` of the eight columns of a block. -/
def permuteColumns : (n : Nat) → Array UInt32 → Array UInt32
  | 0, cells => cells
  | n + 1, cells => permuteColumns n (permute cells (2 * (7 - n)) 16)

/-- The permutation of a whole block. -/
def permuteBlock (cells : Array UInt32) : Array UInt32 := permuteColumns 8 (permuteRows 8 cells)

/-! ## Filling -/

/-- The matrix, and a block to compute in. -/
structure Memory where
  cells : Array UInt32
  work : Array UInt32

/-- Puts the exclusive or of two blocks into the working block and into block `dest` (on top of what is there, if
`keep`), for the last `n` cells. The blocks are given by their first cells. -/
def load (prev ref dest : Nat) (keep : Bool) :
    (n : Nat) → (cells work : Array UInt32) → Memory
  | 0, cells, work => ⟨cells, work⟩
  | n + 1, cells, work =>
    let i := 255 - n
    let x := cells.getD (prev + i) 0 ^^^ cells.getD (ref + i) 0
    let y := if keep then x ^^^ cells.getD (dest + i) 0 else x
    load prev ref dest keep n (cells.setIfInBounds (dest + i) y) (work.setIfInBounds i x)

/-- Adds the working block to block `dest` by exclusive or, for the last `n` cells. -/
def store (dest : Nat) : (n : Nat) → (cells work : Array UInt32) → Memory
  | 0, cells, work => ⟨cells, work⟩
  | n + 1, cells, work =>
    let i := 255 - n
    store dest n
      (cells.setIfInBounds (dest + i) (cells.getD (dest + i) 0 ^^^ work.getD i 0)) work

/-- Computes block `dest` from the blocks `prev` and `ref`. -/
def fillBlock (m : Memory) (prev ref dest : Nat) (keep : Bool) : Memory :=
  let ⟨cells, work⟩ := load (blockCells * prev) (blockCells * ref) (blockCells * dest) keep 256 m.cells m.work
  store (blockCells * dest) 256 cells (permuteBlock work)

/-- The mixing function on two blocks that stand alone. -/
def mixBlocks (x y : Array UInt32) : Array UInt32 :=
  let z := Array.zipWith (· ^^^ ·) x y
  Array.zipWith (· ^^^ ·) z (permuteBlock z)

/-- What a derivation works with. -/
structure Shape where
  lanes : Nat
  columns : Nat
  passes : Nat

/-- Blocks of a lane that are filled before the lanes wait for each other. -/
def Shape.segment (s : Shape) : Nat := s.columns / 4

/-- A segment: where the fill is. -/
structure Position where
  pass : Nat
  lane : Nat
  slice : Nat

/-- Whether the words that choose blocks are independent of the secret here. -/
def Position.independent (p : Position) : Bool := p.pass == 0 && p.slice < 2

/-- The `counter`-th block of choosing words of a segment. -/
def addresses (s : Shape) (p : Position) (counter : Nat) : Array UInt32 :=
  let zero : Array UInt32 := Array.replicate blockCells 0
  let fields := [p.pass, p.lane, p.slice, s.lanes * s.columns, s.passes, 2, counter]
  let input := fields.zipIdx.foldl (fun cells (x, j) => setWord cells j (UInt64.ofNat x)) zero
  mixBlocks zero (mixBlocks zero input)

/-- The block of the matrix that the choosing word `j` selects for column `index` of a segment. -/
def reference (s : Shape) (p : Position) (index : Nat) (j : UInt64) : Nat :=
  let first := p.pass == 0
  let lane := if first && p.slice == 0 then p.lane else (j >>> 32).toNat % s.lanes
  let same := lane == p.lane
  let before := if first then p.slice * s.segment else s.columns - s.segment
  let area :=
    if same then before + index - 1
    else if index == 0 then before - 1 else before
  let low := j &&& 0xffffffff
  let x := (low * low) >>> 32
  let y := ((UInt64.ofNat area * x) >>> 32).toNat
  let start := if first || p.slice == 3 then 0 else (p.slice + 1) * s.segment
  lane * s.columns + (start + (area - 1 - y)) % s.columns

/-- Fills the last `n` blocks of a segment. -/
def fillSegment (s : Shape) (p : Position) (n : Nat) (choosers : Array UInt32) (m : Memory) : Memory :=
  match n with
  | 0 => m
  | n + 1 =>
    let index := s.segment - 1 - n
    let choosers :=
      if p.independent && (index % 128 == 0 || choosers.isEmpty) then addresses s p (index / 128 + 1)
      else choosers
    let column := p.slice * s.segment + index
    let dest := p.lane * s.columns + column
    let prev := if column == 0 then dest + s.columns - 1 else dest - 1
    let j := if p.independent then word choosers (index % 128) else word m.cells (128 * prev)
    fillSegment s p n choosers (fillBlock m prev (reference s p index j) dest (p.pass != 0))

/-- Every segment, in the order in which they are filled. -/
def Shape.positions (s : Shape) : List Position :=
  (List.range s.passes).flatMap fun pass =>
    (List.range 4).flatMap fun slice =>
      (List.range s.lanes).map fun lane => ⟨pass, lane, slice⟩

/-- Fills one segment; the first two blocks of each lane are given. -/
def fill (s : Shape) (m : Memory) (p : Position) : Memory :=
  let given := if p.pass == 0 && p.slice == 0 then 2 else 0
  fillSegment s p (s.segment - given) #[] m

/-! ## Derivation -/

/-- The chain of digests behind a long output: 32 bytes of each, and all of the last one. -/
def longTail : (n : Nat) → (length : Nat) → (v : Bytes) → Bytes
  | 0, length, v => Blake2b.digest length v
  | n + 1, length, v =>
    let v := Blake2b.digest 64 v
    v.take 32 ++ longTail n (length - 32) v

/-- The variable-length hash. -/
def longDigest (length : Nat) (input : Bytes) : Bytes :=
  let input := Bytes.littleEndian 4 length ++ input
  if length ≤ 64 then Blake2b.digest length input
  else longTail ((length + 31) / 32 - 2) length input

/-- Writes a block given as bytes. -/
def putBlock (cells : Array UInt32) (block : Nat) (bytes : Bytes) : Array UInt32 :=
  let rec go (cells : Array UInt32) (i : Nat) : Bytes → Array UInt32
    | b0 :: b1 :: b2 :: b3 :: rest =>
      go (cells.setIfInBounds i
        (b0.toUInt32 ||| (b1.toUInt32 <<< 8) ||| (b2.toUInt32 <<< 16) ||| (b3.toUInt32 <<< 24)))
        (i + 1) rest
    | _ => cells
  go cells (blockCells * block) bytes

/-- A length and the bytes it counts. -/
def counted (bytes : Bytes) : Bytes := Bytes.littleEndian 4 bytes.length ++ bytes

/-- The 32-byte key for a secret, a salt, a number of lanes, a memory size in KiB and a number of passes. -/
def derive (secret salt : Bytes) (lanes memory passes : Nat) : Bytes :=
  let shape : Shape := ⟨lanes, 4 * (memory / (4 * lanes)), passes⟩
  let numbers := [lanes, 32, memory, passes, 0x13, 2].flatMap (Bytes.littleEndian 4)
  let seed := Blake2b.digest 64 (numbers ++ counted secret ++ counted salt ++ counted [] ++ counted [])
  let cells := Array.replicate (blockCells * lanes * shape.columns) 0
  let start (cells : Array UInt32) (lane : Nat) : Array UInt32 :=
    let given (column : Nat) : Bytes :=
      longDigest 1024 (seed ++ Bytes.littleEndian 4 column ++ Bytes.littleEndian 4 lane)
    putBlock (putBlock cells (lane * shape.columns) (given 0)) (lane * shape.columns + 1) (given 1)
  let cells := (List.range lanes).foldl start cells
  let memory := shape.positions.foldl (fill shape) ⟨cells, Array.replicate blockCells 0⟩
  let lastCell (i lane : Nat) : UInt32 :=
    memory.cells.getD (blockCells * (lane * shape.columns + shape.columns - 1) + i) 0
  let result := (List.range blockCells).map fun i =>
    (List.range lanes).foldl (fun x lane => x ^^^ lastCell i lane) 0
  longDigest 32 (result.flatMap fun x => Bytes.littleEndian 4 x.toNat)

@[simp] theorem length_derive (secret salt : Bytes) (lanes memory passes : Nat) :
    (derive secret salt lanes memory passes).length = 32 := by
  simp [derive, longDigest, Blake2b.length_digest]

end ContentVault.Argon2
