/-
The word hash loses nothing. Each of its steps can be undone: folding the upper half into the lower one leaves the upper
half as it is, so folding again takes it out, and a factor that has an inverse modulo 2^64 is taken out by multiplying
with the inverse.

* `foldHigh_foldHigh`: folding twice changes nothing;
* `mul_mul_inverse`: a factor is taken out by multiplying with its inverse;
* `unscalar_scalar`, `scalar_unscalar`: the steps undone in the reverse order give an inverse on both sides;
* `scalar_injective`: words of equal hash are equal.
-/
import EquiJoin.Hash.Scalar

namespace EquiJoin.Hash

/-- the inverse of the first factor, modulo 2^64 -/
def inverse₁ : UInt64 := 0x4f74430c22a54005

/-- the inverse of the second factor, modulo 2^64 -/
def inverse₂ : UInt64 := 0x9cb4b2f8129337db

theorem factor₁_mul_inverse₁ : factor₁ * inverse₁ = 1 := by decide

theorem factor₂_mul_inverse₂ : factor₂ * inverse₂ = 1 := by decide

theorem toBitVec_foldHigh (w : UInt64) : (foldHigh w).toBitVec = w.toBitVec ^^^ w.toBitVec >>> 33 := rfl

/-- folding twice changes nothing: the bits folded in are bits that folding leaves alone -/
theorem foldHigh_foldHigh (w : UInt64) : foldHigh (foldHigh w) = w := by
  apply UInt64.toBitVec_inj.1
  apply BitVec.eq_of_getLsbD_eq
  intro i hi
  -- 66 places up there is no bit
  have hout : w.toBitVec.getLsbD (33 + (33 + i)) = false := BitVec.getLsbD_of_ge _ _ (by omega)
  simp [toBitVec_foldHigh, BitVec.getLsbD_xor, BitVec.getLsbD_ushiftRight, hout]

/-- a factor is taken out by multiplying with its inverse -/
theorem mul_mul_inverse {factor inverse : UInt64} (hunit : factor * inverse = 1) (w : UInt64) :
    w * factor * inverse = w := by
  rw [UInt64.mul_assoc, hunit, UInt64.mul_one]

/-- the word of a hash: the steps of the mixer undone, the last one first -/
def unscalar (hash : UInt64) : UInt64 := foldHigh (foldHigh (foldHigh hash * inverse₂) * inverse₁)

/-- the word is found again from its hash -/
theorem unscalar_scalar (w : UInt64) : unscalar (scalar w) = w := by
  rw [unscalar, scalar, foldHigh_foldHigh, mul_mul_inverse factor₂_mul_inverse₂, foldHigh_foldHigh,
    mul_mul_inverse factor₁_mul_inverse₁, foldHigh_foldHigh]

/-- and every word is the hash of the one found so -/
theorem scalar_unscalar (hash : UInt64) : scalar (unscalar hash) = hash := by
  have hunit₁ : inverse₁ * factor₁ = 1 := UInt64.mul_comm factor₁ inverse₁ ▸ factor₁_mul_inverse₁
  have hunit₂ : inverse₂ * factor₂ = 1 := UInt64.mul_comm factor₂ inverse₂ ▸ factor₂_mul_inverse₂
  rw [unscalar, scalar, foldHigh_foldHigh, mul_mul_inverse hunit₁, foldHigh_foldHigh, mul_mul_inverse hunit₂,
    foldHigh_foldHigh]

/-- words of equal hash are equal -/
theorem scalar_injective {v w : UInt64} (h : scalar v = scalar w) : v = w := by
  rw [← unscalar_scalar v, h, unscalar_scalar]

end EquiJoin.Hash
