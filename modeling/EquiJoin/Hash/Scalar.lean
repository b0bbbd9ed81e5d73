/-
The hash of a fixed-width key: a 64-bit mixer of three xor-shifts and two odd multiplications. Every step can be undone
(an xor-shift by 33 of a 64-bit word is its own inverse, an odd factor has an inverse modulo 2^64), so distinct words
never collide and every word is a hash.
-/
namespace EquiJoin.Hash

/-- the first factor of the mixer, odd -/
def factor₁ : UInt64 := 0xff51afd7ed558ccd

/-- the second factor of the mixer, odd -/
def factor₂ : UInt64 := 0xc4ceb9fe1a85ec53

/-- fold the upper half of a word into the lower one -/
def foldHigh (w : UInt64) : UInt64 := w ^^^ (w >>> 33)

/-- hash of an 8-byte scalar, by value -/
def scalar (w : UInt64) : UInt64 :=
  foldHigh (foldHigh (foldHigh w * factor₁) * factor₂)

end EquiJoin.Hash
