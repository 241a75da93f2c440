import Vouch.Bytes
/-!
# BLAKE3 key derivation

The derive-key mode of BLAKE3: a context string is hashed into a key, and the key material is hashed
under that key to as many octets as are asked for. Input is cut into chunks of 1024 octets, chunks
into blocks of 64, and the chunks' chaining values are combined in a binary tree whose left subtrees
are complete. `deriveKey context n material` is the whole of it.
-/
namespace Vouch.Crypto.Blake3

/-- Eight words: a key or a chaining value. -/
abbrev Chain := Vector UInt32 8

def iv : Chain := #v[
  0x6a09e667, 0xbb67ae85, 0x3c6ef372, 0xa54ff53a, 0x510e527f, 0x9b05688c, 0x1f83d9ab, 0x5be0cd19]

/-! ## Flags of a compression -/

def chunkStart : UInt32 := 1
def chunkEnd : UInt32 := 2
def parentNode : UInt32 := 4
def rootNode : UInt32 := 8
def deriveContext : UInt32 := 32
def deriveMaterial : UInt32 := 64

/-- The message words that each position of the next round takes. -/
def permutation : Vector (Fin 16) 16 := #v[2, 6, 3, 10, 7, 0, 4, 13, 1, 11, 12, 5, 9, 14, 15, 8]

def rotr (x : UInt32) (n : UInt32) : UInt32 := (x >>> n) ||| (x <<< (32 - n))

/-- The quarter round on the words `a b c d` of a state. -/
def mix (v : Vector UInt32 16) (a b c d : Fin 16) (x y : UInt32) : Vector UInt32 16 :=
  let va := v[a] + v[b] + x
  let vd := rotr (v[d] ^^^ va) 16
  let vc := v[c] + vd
  let vb := rotr (v[b] ^^^ vc) 12
  let va := va + vb + y
  let vd := rotr (vd ^^^ va) 8
  let vc := vc + vd
  let vb := rotr (vb ^^^ vc) 7
  (((v.set a va).set b vb).set c vc).set d vd

/-- Columns, then diagonals. -/
def round (v m : Vector UInt32 16) : Vector UInt32 16 :=
  let v := mix v 0 4 8 12 m[0] m[1]
  let v := mix v 1 5 9 13 m[2] m[3]
  let v := mix v 2 6 10 14 m[4] m[5]
  let v := mix v 3 7 11 15 m[6] m[7]
  let v := mix v 0 5 10 15 m[8] m[9]
  let v := mix v 1 6 11 12 m[10] m[11]
  let v := mix v 2 7 8 13 m[12] m[13]
  mix v 3 4 9 14 m[14] m[15]

def permute (m : Vector UInt32 16) : Vector UInt32 16 := permutation.map fun i => m[i]

def rounds : (n : Nat) → (v m : Vector UInt32 16) → Vector UInt32 16
  | 0, v, _ => v
  | n + 1, v, m => rounds n (round v m) (permute m)

/-- A compression that has not been run yet: a node of the tree. -/
structure Node where
  chain : Chain
  block : Vector UInt32 16
  counter : UInt64
  length : UInt32
  flags : UInt32

/-- The sixteen words that a node compresses to. -/
def Node.compress (n : Node) : Vector UInt32 16 :=
  let h := n.chain
  let start : Vector UInt32 16 := #v[h[0], h[1], h[2], h[3], h[4], h[5], h[6], h[7],
    iv[0], iv[1], iv[2], iv[3],
    n.counter.toUInt32, (n.counter >>> 32).toUInt32, n.length, n.flags]
  let v := rounds 7 start n.block
  Vector.ofFn fun i : Fin 16 =>
    if h8 : i.val < 8 then v[i] ^^^ v[i.val + 8] else v[i] ^^^ h[i.val - 8]

/-- The value a node hands to its parent. -/
def Node.chaining (n : Node) : Chain :=
  let v := n.compress
  Vector.ofFn fun i : Fin 8 => v[i.val]

/-- The little-endian words of up to 64 octets, filled up with zeros. -/
def blockWords (b : Bytes) : Vector UInt32 16 :=
  let octet (i : Nat) : UInt32 := (b.getD i 0).toUInt32
  Vector.ofFn fun i : Fin 16 =>
    let j := 4 * i.val
    octet j ||| octet (j + 1) <<< 8 ||| octet (j + 2) <<< 16 ||| octet (j + 3) <<< 24

def wordBytes (x : UInt32) : Bytes :=
  [x.toUInt8, (x >>> 8).toUInt8, (x >>> 16).toUInt8, (x >>> 24).toUInt8]

/-! ## Chunks and the tree -/

/-- The last node of a chunk, its earlier blocks being compressed on the way. -/
def chunkNode (flags : UInt32) (counter : UInt64) :
    (fuel : Nat) → (start : UInt32) → (chain : Chain) → Bytes → Node
  | 0, start, chain, b => ⟨chain, blockWords b, counter, 0, flags ||| start ||| chunkEnd⟩
  | fuel + 1, start, chain, b =>
    if b.length ≤ 64 then
      ⟨chain, blockWords b, counter, UInt32.ofNat b.length, flags ||| start ||| chunkEnd⟩
    else
      let node : Node := ⟨chain, blockWords (b.take 64), counter, 64, flags ||| start⟩
      chunkNode flags counter fuel 0 node.chaining (b.drop 64)

/-- The parent of two nodes. -/
def joinNodes (key : Chain) (flags : UInt32) (left right : Node) : Node :=
  ⟨key, Vector.cast rfl (left.chaining ++ right.chaining), 0, 64, flags ||| parentNode⟩

/-- How many chunks go to the left: the largest power of two below `n`. -/
def leftChunks (n : Nat) : Nat := 1 <<< Nat.log2 (n - 1)

/-- The top node over an input whose first chunk has number `counter`. -/
def treeNode (key : Chain) (flags : UInt32) : (fuel : Nat) → (counter : Nat) → Bytes → Node
  | 0, counter, b => chunkNode flags (UInt64.ofNat counter) 16 chunkStart key b
  | fuel + 1, counter, b =>
    if b.length ≤ 1024 then chunkNode flags (UInt64.ofNat counter) 16 chunkStart key b
    else
      let left := leftChunks ((b.length + 1023) / 1024)
      joinNodes key flags (treeNode key flags fuel counter (b.take (1024 * left)))
        (treeNode key flags fuel (counter + left) (b.drop (1024 * left)))

/-- The first `n` octets of the output stream of a top node. -/
def Node.output (top : Node) (n : Nat) : Bytes :=
  let block (i : Nat) : Bytes :=
    let root : Node := { top with counter := UInt64.ofNat i, flags := top.flags ||| rootNode }
    root.compress.toList.flatMap wordBytes
  ((List.range ((n + 63) / 64)).flatMap block).take n

/-- `n` octets of hash of `input` under `key`. -/
def hashWith (key : Chain) (flags : UInt32) (n : Nat) (input : Bytes) : Bytes :=
  (treeNode key flags input.length 0 input).output n

/-- The key that a context string stands for. -/
def contextKey (context : String) : Chain :=
  let w := blockWords (hashWith iv deriveContext 32 context.toUTF8.toList)
  Vector.ofFn fun i : Fin 8 => w[i.val]

/-- `n` octets derived from key material, apart from those of every other context. -/
def deriveKey (context : String) (n : Nat) (material : Bytes) : Bytes :=
  hashWith (contextKey context) deriveMaterial n material

end Vouch.Crypto.Blake3
