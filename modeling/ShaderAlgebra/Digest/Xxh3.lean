import ShaderAlgebra.Digest.Basic

/-!
# The XXH3 hash with 128-bit result

A seeded hash of byte strings. Inputs up to 240 bytes are mixed with the fixed
secret in one of five ways, by length; longer ones are folded into eight
accumulators, a stripe of 64 bytes at a time, with a secret derived from the
seed. Additions and products are those of 64-bit words except where a full
product is named.
-/

namespace ShaderAlgebra.Xxh3

def prime32A : UInt64 := 0x9E3779B1
def prime32B : UInt64 := 0x85EBCA77
def prime32C : UInt64 := 0xC2B2AE3D
def prime64A : UInt64 := 0x9E3779B185EBCA87
def prime64B : UInt64 := 0xC2B2AE3D27D4EB4F
def prime64C : UInt64 := 0x165667B19E3779F9
def prime64D : UInt64 := 0x85EBCA77C2B2AE63
def prime64E : UInt64 := 0x27D4EB2F165667C5

/-- The 192 bytes mixed into every input. -/
def secret : Array UInt8 := #[
  0xb8, 0xfe, 0x6c, 0x39, 0x23, 0xa4, 0x4b, 0xbe, 0x7c, 0x01, 0x81, 0x2c, 0xf7, 0x21, 0xad, 0x1c,
  0xde, 0xd4, 0x6d, 0xe9, 0x83, 0x90, 0x97, 0xdb, 0x72, 0x40, 0xa4, 0xa4, 0xb7, 0xb3, 0x67, 0x1f,
  0xcb, 0x79, 0xe6, 0x4e, 0xcc, 0xc0, 0xe5, 0x78, 0x82, 0x5a, 0xd0, 0x7d, 0xcc, 0xff, 0x72, 0x21,
  0xb8, 0x08, 0x46, 0x74, 0xf7, 0x43, 0x24, 0x8e, 0xe0, 0x35, 0x90, 0xe6, 0x81, 0x3a, 0x26, 0x4c,
  0x3c, 0x28, 0x52, 0xbb, 0x91, 0xc3, 0x00, 0xcb, 0x88, 0xd0, 0x65, 0x8b, 0x1b, 0x53, 0x2e, 0xa3,
  0x71, 0x64, 0x48, 0x97, 0xa2, 0x0d, 0xf9, 0x4e, 0x38, 0x19, 0xef, 0x46, 0xa9, 0xde, 0xac, 0xd8,
  0xa8, 0xfa, 0x76, 0x3f, 0xe3, 0x9c, 0x34, 0x3f, 0xf9, 0xdc, 0xbb, 0xc7, 0xc7, 0x0b, 0x4f, 0x1d,
  0x8a, 0x51, 0xe0, 0x4b, 0xcd, 0xb4, 0x59, 0x31, 0xc8, 0x9f, 0x7e, 0xc9, 0xd9, 0x78, 0x73, 0x64,
  0xea, 0xc5, 0xac, 0x83, 0x34, 0xd3, 0xeb, 0xc3, 0xc5, 0x81, 0xa0, 0xff, 0xfa, 0x13, 0x63, 0xeb,
  0x17, 0x0d, 0xdd, 0x51, 0xb7, 0xf0, 0xda, 0x49, 0xd3, 0x16, 0x55, 0x26, 0x29, 0xd4, 0x68, 0x9e,
  0x2b, 0x16, 0xbe, 0x58, 0x7d, 0x47, 0xa1, 0xfc, 0x8f, 0xf8, 0xb8, 0xd1, 0x7a, 0xd0, 0x31, 0xce,
  0x45, 0xcb, 0x3a, 0x8f, 0x95, 0x16, 0x04, 0x28, 0xaf, 0xd7, 0xfb, 0xca, 0xbb, 0x4b, 0x40, 0x7e]

/-- The little-endian word of `n` bytes at a place; bytes past the end are zero. -/
def wordAt (n : Nat) (data : Array UInt8) (place : Nat) : UInt64 :=
  (List.range n).foldr (fun i word => word <<< 8 ||| (data[place + i]?.getD 0).toUInt64) 0

abbrev word32 := wordAt 4

abbrev word64 := wordAt 8

/-- The `n` low bytes of a word in the opposite order. -/
def swapBytes (n : Nat) (word : UInt64) : UInt64 :=
  (List.range n).foldl
    (fun swapped i => swapped <<< 8 ||| (word >>> UInt64.ofNat (8 * i) &&& 0xff)) 0

/-- A word combined with its own upper bits. -/
def xorShift (word : UInt64) (bits : UInt64) : UInt64 := word ^^^ word >>> bits

/-- The final mixing of short inputs. -/
def avalancheShort (word : UInt64) : UInt64 :=
  xorShift (xorShift (xorShift word 33 * prime64B) 29 * prime64C) 32

/-- The final mixing of all other inputs. -/
def avalanche (word : UInt64) : UInt64 :=
  xorShift (xorShift word 37 * 0x165667919E3779F9) 32

def lowHalf (word : UInt64) : UInt64 := word &&& 0xffffffff

/-- The full product of two words. -/
def fullProduct (a b : UInt64) : Digest :=
  let p := a.toNat * b.toNat
  ⟨UInt64.ofNat (p / UInt64.size), UInt64.ofNat p⟩

def foldedProduct (a b : UInt64) : UInt64 :=
  let p := fullProduct a b
  p.hi ^^^ p.lo

section Short
variable (seed : UInt64) (data : Array UInt8)

/-- No bytes at all: the hash of the secret and the seed. -/
def hashEmpty : Digest :=
  ⟨avalancheShort (seed ^^^ (word64 secret 80 ^^^ word64 secret 88)),
    avalancheShort (seed ^^^ (word64 secret 64 ^^^ word64 secret 72))⟩

def hashUpTo3 : Digest :=
  let n := data.size
  let first := wordAt 1 data 0
  let middle := wordAt 1 data (n / 2)
  let last := wordAt 1 data (n - 1)
  let lo := first <<< 16 ||| middle <<< 24 ||| last ||| UInt64.ofNat n <<< 8
  let swapped := swapBytes 4 lo
  let hi := lowHalf (swapped <<< 13 ||| swapped >>> 19)
  ⟨avalancheShort (hi ^^^ ((word32 secret 8 ^^^ word32 secret 12) - seed)),
    avalancheShort (lo ^^^ ((word32 secret 0 ^^^ word32 secret 4) + seed))⟩

def hashUpTo8 : Digest :=
  let n := data.size
  let seed := seed ^^^ swapBytes 4 seed <<< 32
  let input := word32 data 0 + word32 data (n - 4) <<< 32
  let keyed := input ^^^ ((word64 secret 16 ^^^ word64 secret 24) + seed)
  let p := fullProduct keyed (prime64A + UInt64.ofNat n <<< 2)
  let hi := p.hi + p.lo <<< 1
  let lo := p.lo ^^^ hi >>> 3
  ⟨avalanche hi, xorShift (xorShift lo 35 * 0x9FB21C651E98DF25) 28⟩

def hashUpTo16 : Digest :=
  let n := data.size
  let flipLo := (word64 secret 32 ^^^ word64 secret 40) - seed
  let flipHi := (word64 secret 48 ^^^ word64 secret 56) + seed
  let first := word64 data 0
  let last := word64 data (n - 8)
  let p := fullProduct (first ^^^ last ^^^ flipLo) prime64A
  let lo := p.lo + UInt64.ofNat (n - 1) <<< 54
  let keyed := last ^^^ flipHi
  let hi := p.hi + (keyed + lowHalf keyed * (prime32B - 1))
  let lo := lo ^^^ swapBytes 8 hi
  let q := fullProduct lo prime64B
  ⟨avalanche (q.hi + hi * prime64B), avalanche q.lo⟩

end Short

section Middle
variable (seed : UInt64) (data : Array UInt8)

/-- Sixteen bytes, keyed and multiplied half by half. -/
def mix16 (seed : UInt64) (place secretPlace : Nat) : UInt64 :=
  foldedProduct (word64 data place ^^^ (word64 secret secretPlace + seed))
    (word64 data (place + 8) ^^^ (word64 secret (secretPlace + 8) - seed))

/-- Mixes two runs of 16 bytes into an accumulator. -/
def mix32 (seed : UInt64) (acc : Digest) (left right secretPlace : Nat) : Digest :=
  ⟨(acc.hi + mix16 data seed right (secretPlace + 16)) ^^^
      (word64 data left + word64 data (left + 8)),
    (acc.lo + mix16 data seed left secretPlace) ^^^
      (word64 data right + word64 data (right + 8))⟩

def start : Digest := ⟨0, UInt64.ofNat data.size * prime64A⟩

def finish (acc : Digest) : Digest :=
  ⟨0 - avalanche (acc.lo * prime64A + acc.hi * prime64D +
      (UInt64.ofNat data.size - seed) * prime64B),
    avalanche (acc.lo + acc.hi)⟩

/-- Seventeen to 128 bytes: pairs of runs from both ends, the innermost pair first. -/
def hashUpTo128 : Digest :=
  let n := data.size
  let pairs := (n - 1) / 32 + 1
  finish seed data <| (List.range pairs).foldr
    (fun i acc => mix32 data seed acc (16 * i) (n - 16 * (i + 1)) (32 * i)) (start data)

/-- From 129 to 240 bytes: blocks of 32 bytes in order, then the last 32 bytes. -/
def hashUpTo240 : Digest :=
  let n := data.size
  let step (secretPlace : Nat → Nat) (acc : Digest) (i : Nat) : Digest :=
    mix32 data seed acc (32 * i) (32 * i + 16) (secretPlace i)
  let acc := (List.range 4).foldl (step (32 * ·)) (start data)
  let acc : Digest := ⟨avalanche acc.hi, avalanche acc.lo⟩
  let acc := (List.range' 4 (n / 32 - 4)).foldl (step (fun i => 3 + 32 * (i - 4))) acc
  finish seed data (mix32 data (0 - seed) acc (n - 16) (n - 32) 103)

end Middle

section Long

/-- The secret for long inputs: the seed is added to its even words and subtracted
from its odd ones. -/
def seededSecret (seed : UInt64) : Array UInt8 :=
  let word (i : Nat) : UInt64 :=
    if i % 2 = 0 then word64 secret (8 * i) + seed else word64 secret (8 * i) - seed
  ((List.range 24).flatMap fun i => littleEndian 8 (word i).toNat).toArray

/-- The eight accumulators before the first stripe. -/
def initialLanes : List UInt64 :=
  [prime32C, prime64A, prime64B, prime64C, prime64D, prime32B, prime64E, prime32A]

variable (key data : Array UInt8)

/-- Adds a stripe of 64 bytes: each lane takes its neighbour's word and the product
of the halves of its own keyed word. -/
def addStripe (place keyPlace : Nat) (lanes : List UInt64) : List UInt64 :=
  lanes.mapIdx fun i lane =>
    let neighbour := word64 data (place + 8 * (i ^^^ 1))
    let keyed := word64 data (place + 8 * i) ^^^ word64 key (keyPlace + 8 * i)
    lane + neighbour + lowHalf keyed * (keyed >>> 32)

/-- Closes a block: each lane is keyed and spread. -/
def scramble (lanes : List UInt64) : List UInt64 :=
  lanes.mapIdx fun i lane => (xorShift lane 47 ^^^ word64 key (128 + 8 * i)) * prime32A

/-- Adds `n` stripes from `place` on. -/
def addStripes (place n : Nat) (lanes : List UInt64) : List UInt64 :=
  (List.range n).foldl (fun lanes i => addStripe key data (place + 64 * i) (8 * i) lanes) lanes

/-- Adds up the keyed lanes, two at a time. -/
def mergeLanes (keyPlace : Nat) (initial : UInt64) : List UInt64 → UInt64
  | a :: b :: rest =>
    mergeLanes (keyPlace + 16)
      (initial + foldedProduct (a ^^^ word64 key keyPlace) (b ^^^ word64 key (keyPlace + 8))) rest
  | _ => avalanche initial

/-- More than 240 bytes: blocks of sixteen stripes, each scrambled, then the rest and
the last 64 bytes. -/
def hashLong (seed : UInt64) (data : Array UInt8) : Digest :=
  let n := data.size
  let key := seededSecret seed
  let blocks := (n - 1) / 1024
  let lanes := (List.range blocks).foldl
    (fun lanes i => scramble key (addStripes key data (1024 * i) 16 lanes)) initialLanes
  let lanes := addStripes key data (1024 * blocks) ((n - 1) % 1024 / 64) lanes
  let lanes := addStripe key data (n - 64) 121 lanes
  ⟨mergeLanes key 117 (~~~(UInt64.ofNat n * prime64B)) lanes,
    mergeLanes key 11 (UInt64.ofNat n * prime64A) lanes⟩

end Long

/-- The 128-bit hash of a byte string. -/
def digest (seed : UInt64) (bytes : List UInt8) : Digest :=
  let data := bytes.toArray
  if data.size = 0 then hashEmpty seed
  else if data.size ≤ 3 then hashUpTo3 seed data
  else if data.size ≤ 8 then hashUpTo8 seed data
  else if data.size ≤ 16 then hashUpTo16 seed data
  else if data.size ≤ 128 then hashUpTo128 seed data
  else if data.size ≤ 240 then hashUpTo240 seed data
  else hashLong seed data

end ShaderAlgebra.Xxh3
