import NetlinkSchema.Bytes

/-!
# BLAKE3

The 32-byte BLAKE3 digest of a byte string. The string is cut into chunks of 1024 bytes, the chunks
are the leaves of a binary tree whose left subtrees are full, and each node is compressed to eight
words. A chunk is compressed block by block, 64 bytes at a time.

## Main definitions

* `Blake3.compress`: The compression of a block.
* `Blake3.Node`: A node of the tree, before its last compression.
* `Blake3.tree`: The root of the tree over a byte string.
* `Blake3.digest`: The digest of a byte string.
-/

namespace NetlinkSchema

namespace Blake3

/-- The sixteen words of a block or of the state of a compression. -/
abbrev Words := Vector UInt32 16

/-- The eight words that a node is compressed to. -/
abbrev Chain := Vector UInt32 8

/-- The words that chains start from. -/
def start : Chain :=
  #v[0x6A09E667, 0xBB67AE85, 0x3C6EF372, 0xA54FF53A, 0x510E527F, 0x9B05688C, 0x1F83D9AB, 0x5BE0CD19]

/-- Where the words of a block go from one round to the next. -/
def permutation : Vector (Fin 16) 16 := #v[2, 6, 3, 10, 7, 0, 4, 13, 1, 11, 12, 5, 9, 14, 15, 8]

/-- Rotates a word to the right. -/
def rotate (w : UInt32) (n : UInt32) : UInt32 := (w >>> n) ||| (w <<< (32 - n))

/-- Mixes two words of a block into four words of the state. -/
def mix (v : Words) (a b c d : Fin 16) (x y : UInt32) : Words :=
  let va := v[a] + v[b] + x
  let vd := rotate (v[d] ^^^ va) 16
  let vc := v[c] + vd
  let vb := rotate (v[b] ^^^ vc) 12
  let va := va + vb + y
  let vd := rotate (vd ^^^ va) 8
  let vc := vc + vd
  let vb := rotate (vb ^^^ vc) 7
  (((v.set a va).set b vb).set c vc).set d vd

/-- Mixes a block into the state, by columns and then by diagonals. -/
def round (v m : Words) : Words :=
  let v := mix v 0 4 8 12 m[0] m[1]
  let v := mix v 1 5 9 13 m[2] m[3]
  let v := mix v 2 6 10 14 m[4] m[5]
  let v := mix v 3 7 11 15 m[6] m[7]
  let v := mix v 0 5 10 15 m[8] m[9]
  let v := mix v 1 6 11 12 m[10] m[11]
  let v := mix v 2 7 8 13 m[12] m[13]
  mix v 3 4 9 14 m[14] m[15]

/-- The given number of rounds, the block permuted between them. -/
def rounds : Nat → (v m : Words) → Words
  | 0, v, _ => v
  | n + 1, v, m => rounds n (round v m) (permutation.map fun i => m[i])

/-- Where a block stands in the tree. -/
structure Flags where
  chunkStart : Bool
  chunkEnd : Bool
  parent : Bool
  root : Bool

namespace Flags

/-- The bits of the flags. -/
def bits (f : Flags) : UInt32 :=
  (if f.chunkStart then 1 else 0) ||| (if f.chunkEnd then 2 else 0)
    ||| (if f.parent then 4 else 0) ||| (if f.root then 8 else 0)

end Flags

/-- Compresses a block of `size` bytes into a chain. -/
def compress (chain : Chain) (block : Words) (counter : UInt64) (size : Nat) (flags : Flags) :
    Chain :=
  let v : Words := #v[
    chain[0], chain[1], chain[2], chain[3], chain[4], chain[5], chain[6], chain[7],
    start[0], start[1], start[2], start[3],
    counter.toUInt32, (counter >>> 32).toUInt32, UInt32.ofNat size, flags.bits]
  let v := rounds 7 v block
  #v[v[0] ^^^ v[8], v[1] ^^^ v[9], v[2] ^^^ v[10], v[3] ^^^ v[11],
    v[4] ^^^ v[12], v[5] ^^^ v[13], v[6] ^^^ v[14], v[7] ^^^ v[15]]

/-- The word of four bytes from an offset on; bytes beyond the end are zero. -/
def wordAt (b : Bytes) (offset : Nat) : UInt32 :=
  UInt32.ofNat (Bytes.toNatLittle ((b.drop offset).take 4))

/-- The words of at most 64 bytes. -/
def blockWords (b : Bytes) : Words := Vector.ofFn fun i => wordAt b (4 * i.val)

/-- A node of the tree, before its last compression. -/
structure Node where
  chain : Chain
  block : Words
  counter : UInt64
  size : Nat
  flags : Flags

namespace Node

/-- The words that an inner node is compressed to. -/
def value (n : Node) : Chain := compress n.chain n.block n.counter n.size n.flags

/-- The words that the root is compressed to. -/
def rootValue (n : Node) : Chain :=
  compress n.chain n.block n.counter n.size { n.flags with root := true }

/-- The node above two others. -/
def parent (left right : Node) : Node :=
  ⟨start, left.value ++ right.value, 0, 64, ⟨false, false, true, false⟩⟩

end Node

/-- The node of a chunk whose blocks so far were compressed to `chain`. -/
def chunkFrom (counter : UInt64) (chain : Chain) (first : Bool) (b : Bytes) : Node :=
  if _h : b.length ≤ 64 then ⟨chain, blockWords b, counter, b.length, ⟨first, true, false, false⟩⟩
  else
    let next := compress chain (blockWords (b.take 64)) counter 64 ⟨first, false, false, false⟩
    chunkFrom counter next false (b.drop 64)
termination_by b.length
decreasing_by simp; omega

/-- The node of a chunk. -/
def chunk (counter : UInt64) (b : Bytes) : Node := chunkFrom counter start true b

/-- The size of the left subtree over `n` bytes, if there is more than one chunk: the greatest
    power of two of chunks that leaves a byte for the right one. -/
def leftSize (n : Nat) : Nat := 1024 * Nat.pow 2 (Nat.log2 ((n - 1) / 1024))

theorem leftSize_lt {n : Nat} (h : 1024 < n) : leftSize n < n := by
  have hq : (n - 1) / 1024 ≠ 0 := by omega
  have := Nat.log2_self_le hq
  simp only [leftSize, Nat.pow_eq]
  omega

theorem leftSize_pos (n : Nat) : 0 < leftSize n := by
  have := Nat.two_pow_pos (Nat.log2 ((n - 1) / 1024))
  simp only [leftSize, Nat.pow_eq]
  omega

/-- The root of the tree over a byte string, whose chunks are numbered from `counter` on. -/
def tree (counter : Nat) (b : Bytes) : Node :=
  if h : b.length ≤ 1024 then chunk (UInt64.ofNat counter) b
  else
    let left := leftSize b.length
    Node.parent (tree counter (b.take left)) (tree (counter + left / 1024) (b.drop left))
termination_by b.length
decreasing_by
  all_goals
    have hlt := leftSize_lt (Nat.lt_of_not_le h)
    have hpos := leftSize_pos b.length
    simp only [List.length_take, List.length_drop]
    omega

/-- The digest of a byte string. -/
def digest (b : Bytes) : Bytes :=
  (tree 0 b).rootValue.toList.flatMap fun w => Bytes.ofNatLittle 4 w.toNat

end Blake3

end NetlinkSchema
