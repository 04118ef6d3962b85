import Haulage.Text.Utf8
import Haulage.Text.Basic

/-!
# BLAKE3

The hash of 32 bytes, plain or keyed. The input is cut into chunks of 1024 bytes and each chunk into
blocks of 64; a chunk chains its blocks through the compression function, and the chunks' results
are combined in pairs, the left part of each pair being the largest power of two that leaves
something to the right.
-/

set_option autoImplicit false

namespace Haulage.Blake3

/-- Eight words that one compression passes to the next. -/
abbrev Chaining := List UInt32

/-- The initial words. -/
def initial : Chaining :=
  [0x6A09E667, 0xBB67AE85, 0x3C6EF372, 0xA54FF53A, 0x510E527F, 0x9B05688C, 0x1F83D9AB, 0x5BE0CD19]

/-- The order in which a round's message words are taken from those of the round before. -/
def permutation : List Nat :=
  [2, 6, 3, 10, 7, 0, 4, 13, 1, 11, 12, 5, 9, 14, 15, 8]

/-- Flags that separate the uses of the compression function. -/
def chunkStart : UInt32 := 1
/-- The last block of a chunk. -/
def chunkEnd : UInt32 := 2
/-- A node above two others. -/
def parentNode : UInt32 := 4
/-- The node whose output is the hash. -/
def root : UInt32 := 8
/-- Keyed mode. -/
def keyed : UInt32 := 16

/-- Rotation to the right. -/
def rotate (w : UInt32) (n : UInt32) : UInt32 :=
  (w >>> n) ||| (w <<< (32 - n))

/-- A word of a state. -/
def word (state : Array UInt32) (i : Nat) : UInt32 :=
  state.getD i 0

/-- The quarter round on four words of the state with two message words. -/
def quarter (state : Array UInt32) (a b c d : Nat) (x y : UInt32) : Array UInt32 :=
  let wa := word state a + word state b + x
  let wd := rotate (word state d ^^^ wa) 16
  let wc := word state c + wd
  let wb := rotate (word state b ^^^ wc) 12
  let wa := wa + wb + y
  let wd := rotate (wd ^^^ wa) 8
  let wc := wc + wd
  let wb := rotate (wb ^^^ wc) 7
  (((state.setIfInBounds a wa).setIfInBounds b wb).setIfInBounds c wc).setIfInBounds d wd

/-- The four columns and the four diagonals of a state. -/
def lanes : List (Nat × Nat × Nat × Nat) :=
  [(0, 4, 8, 12), (1, 5, 9, 13), (2, 6, 10, 14), (3, 7, 11, 15),
   (0, 5, 10, 15), (1, 6, 11, 12), (2, 7, 8, 13), (3, 4, 9, 14)]

/-- One round with the given message words. -/
def round (state message : Array UInt32) : Array UInt32 :=
  (lanes.zipIdx).foldl
    (fun st (lane, i) =>
      quarter st lane.1 lane.2.1 lane.2.2.1 lane.2.2.2 (word message (2 * i))
        (word message (2 * i + 1)))
    state

/-- So many rounds, permuting the message words between them. -/
def rounds : Nat → Array UInt32 → Array UInt32 → Array UInt32
  | 0, state, _ => state
  | n + 1, state, message =>
    rounds n (round state message) ((permutation.map (word message)).toArray)

/-- The compression function; its result is the first eight output words. -/
def compress (chaining : Chaining) (block : Array UInt32) (counter : Nat) (length : Nat)
    (flags : UInt32) : Chaining :=
  let state := (chaining ++ initial.take 4 ++
    [UInt32.ofNat (counter % Nat.pow 2 32), UInt32.ofNat (counter / Nat.pow 2 32),
      UInt32.ofNat length, flags]).toArray
  let final := rounds 7 state block
  (List.range 8).map fun i => word final i ^^^ word final (i + 8)

/-- The number that a little-endian byte sequence stands for. -/
def littleEndian (bytes : Bytes) : Nat :=
  bytes.foldr (fun b acc => b.toNat + 256 * acc) 0

/-- The words of a block; missing bytes count as zero. -/
def blockWords (bytes : Bytes) : Array UInt32 :=
  ((List.range 16).map fun i => UInt32.ofNat (littleEndian ((bytes.drop (4 * i)).take 4))).toArray

/-- The blocks of a chunk, at least one, the last one possibly short. -/
def pieces (size : Nat) : Nat → Bytes → List Bytes
  | 0, bytes => [bytes]
  | fuel + 1, bytes =>
    if bytes.length ≤ size then [bytes] else bytes.take size :: pieces size fuel (bytes.drop size)

/-- What is left to do for a node: all its input but the root flag. -/
structure Node where
  chaining : Chaining
  block : Array UInt32
  counter : Nat
  length : Nat
  flags : UInt32

/-- The chaining value of a node that has a parent. -/
def Node.value (n : Node) : Chaining :=
  compress n.chaining n.block n.counter n.length n.flags

/-- The hash words of a node that has none. -/
def Node.rootValue (n : Node) : Chaining :=
  compress n.chaining n.block 0 n.length (n.flags ||| root)

/-- Chains the blocks of a chunk up to the last. -/
def chunkBlocks (counter : Nat) (flags : UInt32) (first : Bool) (chaining : Chaining) :
    List Bytes → Node
  | [] => ⟨chaining, blockWords [], counter, 0, flags ||| chunkEnd⟩
  | [last] =>
    ⟨chaining, blockWords last, counter, last.length,
      flags ||| (if first then chunkStart else 0) ||| chunkEnd⟩
  | block :: more =>
    let next := compress chaining (blockWords block) counter block.length
      (flags ||| (if first then chunkStart else 0))
    chunkBlocks counter flags false next more

/-- The node of a chunk. -/
def chunkNode (key : Chaining) (flags : UInt32) (counter : Nat) (chunk : Bytes) : Node :=
  chunkBlocks counter flags true key (pieces 64 16 chunk)

/-- The node above two chaining values. -/
def parent (key : Chaining) (flags : UInt32) (left right : Chaining) : Node :=
  ⟨key, (left ++ right).toArray, 0, 64, flags ||| parentNode⟩

/-- The largest power of two below a number of chunks. -/
def leftSize (n : Nat) : Nat :=
  Nat.pow 2 (Nat.log2 (n - 1))

/-- The tree over chunk nodes. -/
def tree (key : Chaining) (flags : UInt32) : Nat → List Node → Option Node
  | _, [] => none
  | _, [node] => some node
  | 0, node :: _ => some node
  | fuel + 1, nodes =>
    let size := leftSize nodes.length
    match tree key flags fuel (nodes.take size), tree key flags fuel (nodes.drop size) with
    | some left, some right => some (parent key flags left.value right.value)
    | left, _ => left

/-- The hash words of an input under a key and mode flags. -/
def hashWords (key : Chaining) (flags : UInt32) (input : Bytes) : Chaining :=
  let chunks := pieces 1024 input.length input
  let nodes := chunks.zipIdx.map fun (chunk, i) => chunkNode key flags i chunk
  match tree key flags nodes.length nodes with
  | some node => node.rootValue
  | none => []

/-- The little-endian bytes of a word. -/
def wordBytes (w : UInt32) : Bytes :=
  (List.range 4).map fun i => (w >>> (UInt32.ofNat (8 * i))).toUInt8

/-- The hash of an input, 32 bytes. -/
def hash (input : Bytes) : Bytes :=
  (hashWords initial 0 input).flatMap wordBytes

/-- The hash of an input under a key of 32 bytes. -/
def keyedHash (key input : Bytes) : Bytes :=
  (hashWords ((blockWords key).toList.take 8) keyed input).flatMap wordBytes

/-- The lower-case hexadecimal text of bytes. -/
def hex (bytes : Bytes) : String :=
  String.ofList (bytes.flatMap fun b =>
    [Text.hexDigit (b.toNat / 16), Text.hexDigit (b.toNat % 16)])

/-- The hash of a text, in hexadecimal. -/
def hashText (s : String) : String :=
  hex (hash (Utf8.encode s))

end Haulage.Blake3
