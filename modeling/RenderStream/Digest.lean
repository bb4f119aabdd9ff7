/-!
# A 128-bit digest

The 128-bit digest of the XXH3 family with seed zero and its standard secret. Inputs of up to 16, up
to 128, up to 240 and more bytes take four different routes: the short ones mix the ends of the
input with the secret, the long ones run eight lanes over stripes of 64 bytes and scramble them
after every block of sixteen stripes. All words are little-endian; all arithmetic wraps.
-/

namespace RenderStream.Digest

/-! ## Constants -/

def secret : ByteArray := ⟨#[
  0xb8, 0xfe, 0x6c, 0x39, 0x23, 0xa4, 0x4b, 0xbe, 0x7c, 0x01, 0x81, 0x2c, 0xf7, 0x21, 0xad, 0x1c,
  0xde, 0xd4, 0x6d, 0xe9, 0x83, 0x90, 0x97, 0xdb, 0x72, 0x40, 0xa4, 0xa4, 0xb7, 0xb3, 0x67, 0x1f,
  0xcb, 0x79, 0xe6, 0x4e, 0xcc, 0xc0, 0xe5, 0x78, 0x82, 0x5a, 0xd0, 0x7d, 0xcc, 0xff, 0x72, 0x21,
  0xb8, 0x08, 0x46, 0x74, 0xf7, 0x43, 0x24, 0x8e, 0xe0, 0x35, 0x90, 0xe6, 0x81, 0x3a, 0x26, 0x4c,
  0x3c, 0x28, 0x52, 0xbb, 0x91, 0xc3, 0x00, 0xcb, 0x88, 0xd0, 0x65, 0x8b, 0x1b, 0x53, 0x2e, 0xa3,
  0x71, 0x64, 0x48, 0x97, 0xa2, 0x0d, 0xf9, 0x4e, 0x38, 0x19, 0xef, 0x46, 0xa9, 0xde, 0xac, 0xd8,
  0xa8, 0xfa, 0x76, 0x3f, 0xe3, 0x9c, 0x34, 0x3f, 0xf9, 0xdc, 0xbb, 0xc7, 0xc7, 0x0b, 0x4f, 0x1d,
  0x8a, 0x51, 0xe0, 0x4b, 0xcd, 0xb4, 0x59, 0x31, 0xc8, 0x9f, 0x7e, 0xc9, 0xd9, 0x78, 0x73, 0x64,
  0xea, 0xc5, 0xac, 0x83, 0x34, 0xd3, 0xeb, 0xc3, 0xc5, 0x81, 0xa0, 0xff, 0xfa, 0x13, 0x63, 0xeb,
  0x17, 0x0d, 0xdd, 0x51, 0xb7, 0xf0, 0xda, 0x49, 0xd3, 0x16, 0x55, 0x26, 0x29, 0xd4, 0x68, 0x9e,
  0x2b, 0x16, 0xbe, 0x58, 0x7d, 0x47, 0xa1, 0xfc, 0x8f, 0xf8, 0xb8, 0xd1, 0x7a, 0xd0, 0x31, 0xce,
  0x45, 0xcb, 0x3a, 0x8f, 0x95, 0x16, 0x04, 0x28, 0xaf, 0xd7, 0xfb, 0xca, 0xbb, 0x4b, 0x40, 0x7e]⟩

def prime32a : UInt64 := 0x9e3779b1
def prime32b : UInt64 := 0x85ebca77
def prime32c : UInt64 := 0xc2b2ae3d
def prime64a : UInt64 := 0x9e3779b185ebca87
def prime64b : UInt64 := 0xc2b2ae3d27d4eb4f
def prime64c : UInt64 := 0x165667b19e3779f9
def prime64d : UInt64 := 0x85ebca77c2b2ae63
def prime64e : UInt64 := 0x27d4eb2f165667c5
def mixA : UInt64 := 0x165667919e3779f9
def mixB : UInt64 := 0x9fb21c651e98df25

/-! ## Words -/

/-- The byte at a position, zero past the end. -/
def byteAt (b : ByteArray) (i : Nat) : UInt64 := if h : i < b.size then b[i].toUInt64 else 0

def word32 (b : ByteArray) (i : Nat) : UInt64 :=
  byteAt b i ||| byteAt b (i + 1) <<< 8 ||| byteAt b (i + 2) <<< 16 ||| byteAt b (i + 3) <<< 24

def word64 (b : ByteArray) (i : Nat) : UInt64 := word32 b i ||| word32 b (i + 4) <<< 32

def key (i : Nat) : UInt64 := word64 secret i

def low32 (x : UInt64) : UInt64 := x &&& 0xffffffff

def swap32 (x : UInt64) : UInt64 :=
  (x &&& 0xff) <<< 24 ||| (x >>> 8 &&& 0xff) <<< 16 ||| (x >>> 16 &&& 0xff) <<< 8 |||
    (x >>> 24 &&& 0xff)

def swap64 (x : UInt64) : UInt64 := swap32 (low32 x) <<< 32 ||| swap32 (x >>> 32)

def rotate32 (x n : UInt64) : UInt64 := low32 (x <<< n ||| low32 x >>> (32 - n))

/-- A pair of words. -/
structure Pair where
  low : UInt64
  high : UInt64
deriving DecidableEq

/-- The full product of two words. -/
def product (x y : UInt64) : Pair :=
  let n := x.toNat * y.toNat
  ⟨UInt64.ofNat n, UInt64.ofNat (n >>> 64)⟩

/-- The two halves of the product, combined. -/
def fold (x y : UInt64) : UInt64 :=
  let p := product x y
  p.low ^^^ p.high

def xorShift (x n : UInt64) : UInt64 := x ^^^ (x >>> n)

def avalanche (x : UInt64) : UInt64 := xorShift (xorShift x 37 * mixA) 32

def avalancheShort (x : UInt64) : UInt64 :=
  xorShift (xorShift (xorShift x 33 * prime64b) 29 * prime64c) 32

/-! ## Up to 16 bytes -/

def empty : Pair := ⟨avalancheShort (key 64 ^^^ key 72), avalancheShort (key 80 ^^^ key 88)⟩

def upTo3 (b : ByteArray) : Pair :=
  let n := b.size
  let lo :=
    byteAt b 0 <<< 16 ||| byteAt b (n / 2) <<< 24 ||| byteAt b (n - 1) ||| UInt64.ofNat n <<< 8
  let hi := rotate32 (swap32 lo) 13
  ⟨avalancheShort (lo ^^^ word32 secret 0 ^^^ word32 secret 4),
    avalancheShort (hi ^^^ word32 secret 8 ^^^ word32 secret 12)⟩

def upTo8 (b : ByteArray) : Pair :=
  let n := b.size
  let keyed := (word32 b 0 + word32 b (n - 4) <<< 32) ^^^ (key 16 ^^^ key 24)
  let p := product keyed (prime64a + UInt64.ofNat n <<< 2)
  let high := p.high + p.low <<< 1
  let low := p.low ^^^ (high >>> 3)
  ⟨xorShift (xorShift low 35 * mixB) 28, avalanche high⟩

def upTo16 (b : ByteArray) : Pair :=
  let n := b.size
  let lo := word64 b 0
  let hi := word64 b (n - 8)
  let p := product (lo ^^^ hi ^^^ (key 32 ^^^ key 40)) prime64a
  let low := p.low + (UInt64.ofNat n - 1) <<< 54
  let hi := hi ^^^ (key 48 ^^^ key 56)
  let high := p.high + hi + low32 hi * (prime32b - 1)
  let q := product (low ^^^ swap64 high) prime64b
  ⟨avalanche q.low, avalanche (q.high + high * prime64b)⟩

/-! ## Up to 240 bytes -/

/-- Sixteen bytes of input under sixteen bytes of the secret, whose words are shifted by `seed`. -/
def mix16 (b : ByteArray) (i s : Nat) (seed : UInt64) : UInt64 :=
  fold (word64 b i ^^^ (key s + seed)) (word64 b (i + 8) ^^^ (key (s + 8) - seed))

/-- Two pieces of sixteen bytes mixed into both lanes. -/
def mix32 (acc : Pair) (b : ByteArray) (i j s : Nat) (seed : UInt64) : Pair :=
  ⟨(acc.low + mix16 b i s seed) ^^^ (word64 b j + word64 b (j + 8)),
    (acc.high + mix16 b j (s + 16) seed) ^^^ (word64 b i + word64 b (i + 8))⟩

/-- Both lanes mixed into the digest. -/
def finish (acc : Pair) (n : Nat) : Pair :=
  ⟨avalanche (acc.low + acc.high),
    0 - avalanche (acc.low * prime64a + acc.high * prime64d + UInt64.ofNat n * prime64b)⟩

/-- 17 to 128 bytes: from the middle outward. -/
def upTo128 (b : ByteArray) : Pair :=
  let n := b.size
  let rounds := (n - 1) / 32
  let acc := (List.range (rounds + 1)).foldr
    (fun k acc => mix32 acc b (16 * k) (n - 16 * (k + 1)) (32 * k) 0) ⟨UInt64.ofNat n * prime64a, 0⟩
  finish acc n

/-- 129 to 240 bytes: from the front, with one mix of the lanes after 128 bytes. -/
def upTo240 (b : ByteArray) : Pair :=
  let n := b.size
  let acc := (List.range 4).foldl
    (fun acc k => mix32 acc b (32 * k) (32 * k + 16) (32 * k) 0) ⟨UInt64.ofNat n * prime64a, 0⟩
  let acc := ⟨avalanche acc.low, avalanche acc.high⟩
  let acc := (List.range (n / 32 - 4)).foldl
    (fun acc k => mix32 acc b (128 + 32 * k) (144 + 32 * k) (3 + 32 * k) 0) acc
  finish (mix32 acc b (n - 16) (n - 32) 103 0) n

/-! ## Longer inputs -/

/-- The eight lanes of the long route. -/
abbrev Lanes := Vector UInt64 8

def lanes : Lanes :=
  #v[prime32c, prime64a, prime64b, prime64c, prime64d, prime32b, prime64e, prime32a]

/-- One stripe of 64 bytes: each word goes into its neighbour's lane, and the product of the halves
of the keyed word into its own. -/
def stripe (acc : Lanes) (b : ByteArray) (i s : Nat) : Lanes :=
  Vector.ofFn fun k =>
    let keyed := word64 b (i + 8 * k) ^^^ key (s + 8 * k)
    let neighbour : Fin 8 := ⟨k.val ^^^ 1, Nat.xor_lt_two_pow (n := 3) k.isLt (by decide)⟩
    acc.get k + word64 b (i + 8 * neighbour) + low32 keyed * (keyed >>> 32)

def scramble (acc : Lanes) : Lanes :=
  Vector.ofFn fun k => (xorShift (acc.get k) 47 ^^^ key (128 + 8 * k)) * prime32a

/-- `count` stripes from position `i` on, each under its own part of the secret. -/
def stripes (acc : Lanes) (b : ByteArray) (i count : Nat) : Lanes :=
  (List.range count).foldl (fun acc k => stripe acc b (i + 64 * k) (8 * k)) acc

/-- The lanes merged into one word under the secret from position `s` on. -/
def merge (acc : Lanes) (s : Nat) (start : UInt64) : UInt64 :=
  let pair (k : Nat) (i j : Fin 8) : UInt64 :=
    fold (acc.get i ^^^ key (s + 16 * k)) (acc.get j ^^^ key (s + 16 * k + 8))
  avalanche (start + pair 0 0 1 + pair 1 2 3 + pair 2 4 5 + pair 3 6 7)

/-- More than 240 bytes: whole blocks of 1024 bytes, the stripes of the rest, and the last 64 bytes.
-/
def long (b : ByteArray) : Pair :=
  let n := b.size
  let blocks := (n - 1) / 1024
  let acc := (List.range blocks).foldl (fun acc k => scramble (stripes acc b (1024 * k) 16)) lanes
  let acc := stripes acc b (1024 * blocks) ((n - 1 - 1024 * blocks) / 64)
  let acc := stripe acc b (n - 64) 121
  ⟨merge acc 11 (UInt64.ofNat n * prime64a), merge acc 117 (~~~(UInt64.ofNat n * prime64b))⟩

def ofBytes (b : ByteArray) : Pair :=
  let n := b.size
  if n = 0 then empty
  else if n ≤ 3 then upTo3 b
  else if n ≤ 8 then upTo8 b
  else if n ≤ 16 then upTo16 b
  else if n ≤ 128 then upTo128 b
  else if n ≤ 240 then upTo240 b
  else long b

end RenderStream.Digest
