/-
The hash of a variable-length key: XXH3 with 64-bit output, seed zero and the default secret. The input length picks one
of five schemes (0, 1 to 3, 4 to 8, 9 to 16, 17 to 128, 129 to 240 bytes are mixed in one go, longer inputs run through
eight accumulators); each scheme reads the input and the secret as little-endian lanes at fixed places.
-/
import EquiJoin.LittleEndian

namespace EquiJoin.Hash

/-- a byte string with constant-time access, as the lanes of the hash read it -/
abbrev Octets := Array UInt8

/-! ## Lanes and constants -/

/-- the 64-bit little-endian lane at `off`; places past the end count as zero -/
def lane64 (b : Octets) (off : Nat) : UInt64 :=
  (List.range 8).foldr (fun i acc => (acc <<< 8) ||| (b[off + i]?.getD 0).toUInt64) 0

/-- the 32-bit little-endian lane at `off`, widened -/
def lane32 (b : Octets) (off : Nat) : UInt64 :=
  (List.range 4).foldr (fun i acc => (acc <<< 8) ||| (b[off + i]?.getD 0).toUInt64) 0

def prime32₁ : UInt64 := 0x9E3779B1
def prime32₂ : UInt64 := 0x85EBCA77
def prime32₃ : UInt64 := 0xC2B2AE3D
def prime64₁ : UInt64 := 0x9E3779B185EBCA87
def prime64₂ : UInt64 := 0xC2B2AE3D27D4EB4F
def prime64₃ : UInt64 := 0x165667B19E3779F9
def prime64₄ : UInt64 := 0x85EBCA77C2B2AE63
def prime64₅ : UInt64 := 0x27D4EB2F165667C5
def primeMix₁ : UInt64 := 0x165667919E3779F9
def primeMix₂ : UInt64 := 0x9FB21C651E98DF25

/-- the default secret, 192 bytes -/
def secret : Octets := #[
  0xb8, 0xfe, 0x6c, 0x39, 0x23, 0xa4, 0x4b, 0xbe, 0x7c, 0x01, 0x81, 0x2c, 0xf7, 0x21, 0xad, 0x1c,
  0xde, 0xd4, 0x6d, 0xe9, 0x83, 0x90, 0x97, 0xdb, 0x72, 0x40, 0xa4, 0xa4, 0xb7, 0xb3, 0x67, 0x1f,
  0xcb, 0x79, 0xe6, 0x4e, 0xcc, 0xc0, 0xe5, 0x78, 0x82, 0x5a, 0xd0, 0x7d, 0xcc, 0xff, 0x72, 0x21,
  0xb8, 0x08, 0x46, 0x74, 0xf7, 0x43, 0x24, 0x8e, 0xe0, 0x35, 0x90, 0xe6, 0x81, 0x3a, 0x26, 0x4c,
  0x3c, 0x28, 0x52, 0xbb, 0x91, 0xc3, 0x00, 0xcb, 0x88, 0xd0, 0x65, 0x8b, 0x1b, 0x53, 0x2e, 0xa3,
  0x71, 0x64, 0x48, 0x97, 0xa2, 0x0d, 0xf9, 0x4e, 0x38, 0x19, 0xef, 0x46, 0xa9, 0xde, 0xac, 0xd8,
  0xa8, 0xfa, 0x76, 0x3f, 0xe3, 0x9c, 0x34, 0x3f, 0xf9, 0xdc, 0xbb, 0xc7, 0xc7, 0x0b, 0x4f, 0x1d,
  0x8a, 0x51, 0xe0, 0x4b, 0xcd, 0xb4, 0x59, 0x31, 0xc8, 0x9f, 0x7e, 0xc9, 0xd9, 0x78, 0x73, 0x64,
  0xea, 0xc5, 0xac, 0x83, 0x34, 0xd3, 0xeb, 0xc3, 0xc5, 0x81, 0xa0, 0xff, 0xfa, 0x13, 0x63, 0xeb,
  0x17, 0x0d, 0xdd, 0x51, 0xb7, 0xf0, 0xda, 0x49, 0xd3, 0x16, 0x55, 0x26, 0x29, 0xd4, 0x68, 0x9e,
  0x2b, 0x16, 0xbe, 0x58, 0x7d, 0x47, 0xa1, 0xfc, 0x8f, 0xf8, 0xb8, 0xd1, 0x7a, 0xd0, 0x31, 0xce,
  0x45, 0xcb, 0x3a, 0x8f, 0x95, 0x16, 0x04, 0x28, 0xaf, 0xd7, 0xfb, 0xca, 0xbb, 0x4b, 0x40, 0x7e]

/-! ## Mixers -/

def rotateLeft (w : UInt64) (k : UInt64) : UInt64 := (w <<< k) ||| (w >>> (64 - k))

/-- the bytes of a word in the opposite order -/
def swapBytes (w : UInt64) : UInt64 :=
  (List.range 8).foldl (fun acc i => (acc <<< 8) ||| ((w >>> (8 * i).toUInt64) &&& 0xff)) 0

/-- the 128-bit product of two words, its halves folded together -/
def foldProduct (a b : UInt64) : UInt64 :=
  let p := a.toNat * b.toNat
  UInt64.ofNat p ^^^ UInt64.ofNat (p >>> 64)

/-- the closing mix of the short schemes -/
def closeShort (w : UInt64) : UInt64 :=
  let w := (w ^^^ (w >>> 33)) * prime64₂
  let w := (w ^^^ (w >>> 29)) * prime64₃
  w ^^^ (w >>> 32)

/-- the closing mix of the long schemes -/
def closeLong (w : UInt64) : UInt64 :=
  let w := (w ^^^ (w >>> 37)) * primeMix₁
  w ^^^ (w >>> 32)

/-- the closing mix of inputs of 4 to 8 bytes, which takes the length in -/
def closeWithLength (w len : UInt64) : UInt64 :=
  let w := (w ^^^ rotateLeft w 49 ^^^ rotateLeft w 24) * primeMix₂
  let w := (w ^^^ ((w >>> 35) + len)) * primeMix₂
  w ^^^ (w >>> 28)

/-- 16 bytes of input against 16 bytes of the secret -/
def mix16 (b : Octets) (off sec : Nat) : UInt64 :=
  foldProduct (lane64 b off ^^^ lane64 secret sec) (lane64 b (off + 8) ^^^ lane64 secret (sec + 8))

/-! ## Schemes by length -/

def hash0 : UInt64 := closeShort (lane64 secret 56 ^^^ lane64 secret 64)

def hash1to3 (b : Octets) : UInt64 :=
  let byte (i : Nat) : UInt64 := (b[i]?.getD 0).toUInt64
  let n := b.size
  let packed := (byte 0 <<< 16) ||| (byte (n / 2) <<< 24) ||| byte (n - 1) ||| (n.toUInt64 <<< 8)
  closeShort (packed ^^^ (lane32 secret 0 ^^^ lane32 secret 4))

def hash4to8 (b : Octets) : UInt64 :=
  let n := b.size
  let packed := lane32 b (n - 4) + (lane32 b 0 <<< 32)
  closeWithLength (packed ^^^ (lane64 secret 8 ^^^ lane64 secret 16)) n.toUInt64

def hash9to16 (b : Octets) : UInt64 :=
  let n := b.size
  let lo := lane64 b 0 ^^^ (lane64 secret 24 ^^^ lane64 secret 32)
  let hi := lane64 b (n - 8) ^^^ (lane64 secret 40 ^^^ lane64 secret 48)
  closeLong (n.toUInt64 + swapBytes lo + hi + foldProduct lo hi)

/-- pairs of 16-byte blocks, taken from both ends inwards -/
def hash17to128 (b : Octets) : UInt64 :=
  let n := b.size
  let rings := (n + 31) / 32
  let sum := (List.range rings).foldl
    (fun acc i => acc + mix16 b (16 * i) (32 * i) + mix16 b (n - 16 * (i + 1)) (32 * i + 16)) (n.toUInt64 * prime64₁)
  closeLong sum

def hash129to240 (b : Octets) : UInt64 :=
  let n := b.size
  let first := (List.range 8).foldl (fun acc i => acc + mix16 b (16 * i) (16 * i)) (n.toUInt64 * prime64₁)
  let rest := (List.range (n / 16 - 8)).foldl
    (fun acc i => acc + mix16 b (16 * (i + 8)) (16 * i + 3)) (closeLong first)
  closeLong (rest + mix16 b (n - 16) (136 - 17))

/-! ## Long inputs -/

/-- the eight accumulators of a long input -/
abbrev Accumulators := Vector UInt64 8

def Accumulators.start : Accumulators := #v[
  prime32₃, prime64₁, prime64₂, prime64₃, prime64₄, prime32₂, prime64₅, prime32₁]

/-- take in a stripe of 64 bytes: each lane goes to its neighbour as it is, and to its own place as a product -/
def Accumulators.stripe (acc : Accumulators) (b : Octets) (off sec : Nat) : Accumulators :=
  Vector.ofFn fun i : Fin 8 =>
    let keyed := lane64 b (off + 8 * i) ^^^ lane64 secret (sec + 8 * i)
    acc[i] + lane64 b (off + 8 * (i.val ^^^ 1)) + (keyed &&& (0xffffffff : UInt64)) * (keyed >>> 32)

/-- a run of `count` stripes, the secret moving on by 8 bytes each time -/
def Accumulators.stripes (acc : Accumulators) (b : Octets) (off count : Nat) : Accumulators :=
  (List.range count).foldl (fun acc i => acc.stripe b (off + 64 * i) (8 * i)) acc

/-- the mix after each full block of 16 stripes -/
def Accumulators.scramble (acc : Accumulators) : Accumulators :=
  Vector.ofFn fun i : Fin 8 =>
    (acc[i] ^^^ (acc[i] >>> 47) ^^^ lane64 secret (128 + 8 * i)) * prime32₁

/-- the accumulators folded into one word -/
def Accumulators.merge (acc : Accumulators) (start : UInt64) : UInt64 :=
  closeLong ((List.range 4).foldl (fun sum i =>
    sum + foldProduct ((acc[2 * i]?.getD 0) ^^^ lane64 secret (11 + 16 * i))
      ((acc[2 * i + 1]?.getD 0) ^^^ lane64 secret (19 + 16 * i))) start)

def hashLong (b : Octets) : UInt64 :=
  let n := b.size
  let blocks := (n - 1) / 1024
  let acc := (List.range blocks).foldl (fun acc i => (acc.stripes b (1024 * i) 16).scramble) Accumulators.start
  let acc := acc.stripes b (1024 * blocks) ((n - 1 - 1024 * blocks) / 64)
  let acc := acc.stripe b (n - 64) 121
  acc.merge (n.toUInt64 * prime64₁)

/-- hash of a byte string, by content -/
def bytes (key : Bytes) : UInt64 :=
  let b : Octets := key.toArray
  if b.size = 0 then hash0
  else if b.size ≤ 3 then hash1to3 b
  else if b.size ≤ 8 then hash4to8 b
  else if b.size ≤ 16 then hash9to16 b
  else if b.size ≤ 128 then hash17to128 b
  else if b.size ≤ 240 then hash129to240 b
  else hashLong b

end EquiJoin.Hash
