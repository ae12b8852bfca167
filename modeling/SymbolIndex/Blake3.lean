/-!
# BLAKE3

The hash function BLAKE3 with its 32-byte output. The input is cut into chunks of
1024 bytes, each chunk is compressed block by block, and the chunks are the leaves
of a binary tree whose left half is the largest full one.
-/

namespace SymbolIndex
namespace Blake3

abbrev Words8 := Vector UInt32 8

abbrev Words16 := Vector UInt32 16

def initial : Words8 :=
  #v[0x6A09E667, 0xBB67AE85, 0x3C6EF372, 0xA54FF53A,
     0x510E527F, 0x9B05688C, 0x1F83D9AB, 0x5BE0CD19]

def chunkStart : UInt32 := 1

def chunkEnd : UInt32 := 2

def parentNode : UInt32 := 4

def rootNode : UInt32 := 8

def blockLength : Nat := 64

def chunkLength : Nat := 1024

def rotate (x : UInt32) (n : UInt32) : UInt32 := (x >>> n) ||| (x <<< (32 - n))

/-- Mix one column or diagonal of the state with two message words. -/
def mix (s : Words16) (a b c d : Fin 16) (x y : UInt32) : Words16 :=
  let va := s.get a + s.get b + x
  let vd := rotate (s.get d ^^^ va) 16
  let vc := s.get c + vd
  let vb := rotate (s.get b ^^^ vc) 12
  let va := va + vb + y
  let vd := rotate (vd ^^^ va) 8
  let vc := vc + vd
  let vb := rotate (vb ^^^ vc) 7
  (((s.set a va).set b vb).set c vc).set d vd

def round (s m : Words16) : Words16 :=
  let s := mix s 0 4 8 12 (m.get 0) (m.get 1)
  let s := mix s 1 5 9 13 (m.get 2) (m.get 3)
  let s := mix s 2 6 10 14 (m.get 4) (m.get 5)
  let s := mix s 3 7 11 15 (m.get 6) (m.get 7)
  let s := mix s 0 5 10 15 (m.get 8) (m.get 9)
  let s := mix s 1 6 11 12 (m.get 10) (m.get 11)
  let s := mix s 2 7 8 13 (m.get 12) (m.get 13)
  mix s 3 4 9 14 (m.get 14) (m.get 15)

/-- The order in which the next round reads the message words. -/
def permute (m : Words16) : Words16 :=
  #v[m.get 2, m.get 6, m.get 3, m.get 10, m.get 7, m.get 0, m.get 4, m.get 13,
     m.get 1, m.get 11, m.get 12, m.get 5, m.get 9, m.get 14, m.get 15, m.get 8]

def rounds : Nat -> Words16 -> Words16 -> Words16
  | 0, s, _ => s
  | n + 1, s, m => rounds n (round s m) (permute m)

/-- One call of the compression function, before its result is taken. -/
structure Node where
  chaining : Words8
  block : Words16
  counter : UInt64
  length : UInt32
  flags : UInt32

def Node.compress (n : Node) : Words16 :=
  let h := n.chaining
  let start : Words16 :=
    #v[h.get 0, h.get 1, h.get 2, h.get 3, h.get 4, h.get 5, h.get 6, h.get 7,
       initial.get 0, initial.get 1, initial.get 2, initial.get 3,
       n.counter.toUInt32, (n.counter >>> 32).toUInt32, n.length, n.flags]
  rounds 7 start n.block

def Node.output (n : Node) : Words8 :=
  let s := n.compress
  Vector.ofFn fun i : Fin 8 =>
    s.get ⟨i.val, by omega⟩ ^^^ s.get ⟨i.val + 8, by omega⟩

def wordOf (bytes : List UInt8) : UInt32 :=
  bytes.foldr (fun b acc => (acc <<< 8) ||| b.toUInt32) 0

/-- The sixteen words of a block; what is missing counts as zero. -/
def wordsOf (bytes : List UInt8) : Words16 :=
  Vector.ofFn fun i : Fin 16 => wordOf ((bytes.drop (4 * i.val)).take 4)

/-- The last compression of a chunk, from the chaining value so far. -/
def chunkFrom (counter : UInt64) (h : Words8) (start : UInt32) (bytes : List UInt8) : Node :=
  if bytes.length ≤ blockLength then
    ⟨h, wordsOf bytes, counter, UInt32.ofNat bytes.length, start ||| chunkEnd⟩
  else
    let n : Node := ⟨h, wordsOf (bytes.take blockLength), counter, 64, start⟩
    chunkFrom counter n.output 0 (bytes.drop blockLength)
termination_by bytes.length
decreasing_by
  simp only [blockLength, List.length_drop] at *
  omega

/-- The largest power of two below `n`, doubling from `p`. -/
def powerBelow (n : Nat) : Nat -> Nat -> Nat
  | 0, p => p
  | fuel + 1, p => if 2 * p < n then powerBelow n fuel (2 * p) else p

/-- How many bytes go to the left subtree of an input longer than a chunk. -/
def leftLength (length : Nat) : Nat :=
  let chunks := (length + chunkLength - 1) / chunkLength
  chunkLength * powerBelow chunks chunks 1

def parentOf (left right : Words8) : Node :=
  let block : Words16 := Vector.ofFn fun i : Fin 16 =>
    if h : i.val < 8 then left.get ⟨i.val, h⟩ else right.get ⟨i.val - 8, by omega⟩
  ⟨initial, block, 0, 64, parentNode⟩

/-- The root of the tree over `bytes`, whose first chunk has the given number. -/
def tree : Nat -> UInt64 -> List UInt8 -> Node
  | 0, counter, bytes => chunkFrom counter initial chunkStart bytes
  | fuel + 1, counter, bytes =>
      if bytes.length ≤ chunkLength then chunkFrom counter initial chunkStart bytes
      else
        let n := leftLength bytes.length
        let left := tree fuel counter (bytes.take n)
        let right := tree fuel (counter + UInt64.ofNat (n / chunkLength)) (bytes.drop n)
        parentOf left.output right.output

def bytesOfWord (w : UInt32) : List UInt8 :=
  [w.toUInt8, (w >>> 8).toUInt8, (w >>> 16).toUInt8, (w >>> 24).toUInt8]

def hash (bytes : List UInt8) : List UInt8 :=
  let root := tree bytes.length 0 bytes
  let last : Node := { root with flags := root.flags ||| rootNode }
  last.output.toList.flatMap bytesOfWord

end Blake3
end SymbolIndex
