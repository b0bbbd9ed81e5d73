/-
What floating-point numbers mean: a rational number, an infinity or no number. Zero has one meaning whatever its sign,
and so has every NaN, so equality of meanings is the equality of floating-point comparison, with NaN made equal to
itself.

* `ofMagnitude_magnitude`: a finite number is made from its sign and magnitude, so these decide it;
* `meaning_widen`: widening to 64 bits is exact;
* `canonical_eq_iff`: canonical forms are equal exactly for equal meanings.
-/
import EquiJoin.Binary64
import Mathlib.Data.Rat.Cast.Order
import Mathlib.Tactic.FieldSimp
import Mathlib.Tactic.Linarith
import Mathlib.Tactic.NormNum
import Mathlib.Tactic.Ring

namespace EquiJoin

/-- what a floating-point number means -/
inductive FloatValue where
  | nan
  | infinite (negative : Bool)
  | finite (q : ℚ)
  deriving DecidableEq

/-- a magnitude with its sign, where the number one has the magnitude `unit` -/
def scaled (neg : Bool) (magnitude unit : Nat) : ℚ := (if neg then -(magnitude : ℚ) else magnitude) / unit

def Binary64.meaning (x : Binary64) : FloatValue :=
  if x.isNaN then .nan
  else if x.isInfinite then .infinite x.negative
  else .finite (scaled x.negative x.magnitude unit)

def Binary32.meaning (x : Binary32) : FloatValue :=
  if x.isNaN then .nan
  else if x.isInfinite then .infinite x.negative
  else .finite (scaled x.negative x.magnitude unit)

theorem scaled_eq_iff {neg neg' : Bool} {m m' unit : Nat} (hp : 0 < unit) :
    scaled neg m unit = scaled neg' m' unit ↔ m = m' ∧ (m = 0 ∨ neg = neg') := by
  have hne : (unit : ℚ) ≠ 0 := by exact_mod_cast hp.ne'
  unfold scaled
  rw [div_left_inj' hne]
  -- numbers of different signs are equal only at zero
  cases neg <;> cases neg' <;> simp <;> omega

theorem scaled_mul (neg : Bool) (m : Nat) {factor unit : Nat} (hf : 0 < factor) :
    scaled neg (m * factor) (unit * factor) = scaled neg m unit := by
  have hne : (factor : ℚ) ≠ 0 := by exact_mod_cast hf.ne'
  unfold scaled
  cases neg
  · simp only [Bool.false_eq_true, if_false]
    push_cast
    exact mul_div_mul_right _ _ hne
  · simp only [if_true]
    push_cast
    rw [← neg_mul (m : ℚ)]
    exact mul_div_mul_right _ _ hne

namespace Binary64

theorem unit_pos : 0 < unit := by decide +kernel

/-! ## Shifts as powers of two -/

theorem exponent_eq (x : Binary64) : x.exponent = x.bits.toNat / 2 ^ 52 % 2 ^ 11 := by
  rw [exponent, Nat.shiftRight_eq_div_pow]
  rfl

theorem fraction_eq (x : Binary64) : x.fraction = x.bits.toNat % 2 ^ 52 := rfl

theorem magnitude_eq (x : Binary64) :
    x.magnitude = if x.exponent = 0 then x.fraction else (2 ^ 52 + x.fraction) * 2 ^ (x.exponent - 1) := by
  rw [magnitude, Nat.shiftLeft_eq]
  rfl

theorem ofMagnitude_eq (neg : Bool) (m : Nat) :
    ofMagnitude neg m =
      if m < 2 ^ 52 then signed neg m
      else if 2046 ≤ m.log2 - 52 then infinity neg
      else signed neg ((m.log2 - 52 + 1) * 2 ^ 52 + (m / 2 ^ (m.log2 - 52) - 2 ^ 52)) := by
  simp only [ofMagnitude, Nat.shiftLeft_eq, Nat.shiftRight_eq_div_pow, Nat.one_mul]

/-! ## Fields -/

theorem bits_eq (x : Binary64) :
    x.bits.toNat = (if x.negative then 2 ^ 63 else 0) + x.exponent * 2 ^ 52 + x.fraction := by
  have := x.bits.toNat_lt
  rw [exponent_eq, fraction_eq]
  unfold negative
  split_ifs with h <;> simp only [decide_eq_true_eq] at h <;> omega

theorem fraction_lt (x : Binary64) : x.fraction < 2 ^ 52 := Nat.mod_lt _ (by decide)

theorem exponent_lt (x : Binary64) : x.exponent < 2 ^ 11 := Nat.mod_lt _ (by decide)

/-- the fields of a number that is put together from its sign and its other bits -/
theorem signed_fields (neg : Bool) (body : Nat) (h : body < 2 ^ 63) :
    (signed neg body).negative = neg ∧ (signed neg body).exponent = body / 2 ^ 52 ∧
      (signed neg body).fraction = body % 2 ^ 52 := by
  have hbits : (signed neg body).bits.toNat = if neg then 2 ^ 63 + body else body := by
    unfold signed
    cases neg <;> simp [UInt64.toNat_ofNat'] <;> omega
  rw [exponent_eq, fraction_eq]
  unfold negative
  rw [hbits]
  cases neg <;> simp <;> omega

theorem eq_signed (x : Binary64) : x = signed x.negative (x.exponent * 2 ^ 52 + x.fraction) := by
  have hx := x.bits_eq
  have hlt := x.bits.toNat_lt
  refine congrArg mk (UInt64.toNat_inj.1 ?_)
  rw [UInt64.toNat_ofNat']
  cases hneg : x.negative <;> simp only [hneg, Bool.false_eq_true, if_false, if_true] at hx ⊢ <;> omega

/-! ## Magnitudes -/

/-- a finite number is made from its sign and magnitude -/
theorem ofMagnitude_magnitude {x : Binary64} (h : x.exponent ≠ 2047) : ofMagnitude x.negative x.magnitude = x := by
  have hf := x.fraction_lt
  have he := x.exponent_lt
  conv_rhs => rw [x.eq_signed]
  rw [magnitude_eq]
  by_cases h0 : x.exponent = 0
  · rw [if_pos h0, ofMagnitude_eq, if_pos hf, h0, Nat.zero_mul, Nat.zero_add]
  · obtain ⟨e, he1⟩ : ∃ e, x.exponent = e + 1 := ⟨x.exponent - 1, by omega⟩
    have hpow : 0 < 2 ^ e := Nat.two_pow_pos e
    rw [if_neg h0, he1, Nat.add_sub_cancel]
    have hbig : 2 ^ 52 ≤ (2 ^ 52 + x.fraction) * 2 ^ e := by nlinarith
    have hlog : ((2 ^ 52 + x.fraction) * 2 ^ e).log2 = 52 + e := by
      refine (Nat.log2_eq_iff (by omega)).2 ⟨?_, ?_⟩
      · rw [Nat.pow_add]
        exact Nat.mul_le_mul_right _ (by omega)
      · rw [show 52 + e + 1 = 53 + e by omega, Nat.pow_add]
        exact Nat.mul_lt_mul_of_pos_right (by omega) hpow
    rw [ofMagnitude_eq, if_neg (by omega), hlog, Nat.add_sub_cancel_left, if_neg (by omega), Nat.mul_div_cancel _ hpow,
      Nat.add_sub_cancel_left]

/-- what is made from a magnitude of at most 53 significant bits has this magnitude and sign and is finite -/
theorem meaning_ofMagnitude (neg : Bool) {m k s : Nat} (hmk : m = k * 2 ^ s) (hk : k < 2 ^ 53) (hs : s ≤ 2000)
    (hm : 2 ^ 52 ≤ m ∨ k = 0) : (ofMagnitude neg m).meaning = .finite (scaled neg m unit) := by
  have finite {body m : Nat} (h : body < 2047 * 2 ^ 52)
      (hmag : (if body / 2 ^ 52 = 0 then body % 2 ^ 52 else (2 ^ 52 + body % 2 ^ 52) * 2 ^ (body / 2 ^ 52 - 1)) = m) :
      (signed neg body).meaning = .finite (scaled neg m unit) := by
    obtain ⟨hn, he, hf⟩ := signed_fields neg body (by omega)
    have hexp : (signed neg body).exponent ≠ 2047 := by rw [he]; omega
    rw [meaning, isNaN, isInfinite, if_neg (by simp [hexp]), if_neg (by simp [hexp]), hn, magnitude_eq, he, hf, hmag]
  subst hmk
  rcases hm with hm | rfl
  · have hpow : 0 < 2 ^ s := Nat.two_pow_pos s
    have hk0 : k ≠ 0 := by rintro rfl; omega
    have hlog : (k * 2 ^ s).log2 < 53 + s := by
      refine (Nat.log2_lt (by omega)).2 ?_
      rw [Nat.pow_add]
      exact Nat.mul_lt_mul_of_pos_right hk hpow
    have hlow : 52 ≤ (k * 2 ^ s).log2 := (Nat.le_log2 (by omega)).2 hm
    obtain ⟨e, he⟩ : ∃ e, (k * 2 ^ s).log2 = 52 + e := ⟨(k * 2 ^ s).log2 - 52, by omega⟩
    -- the bits below the leading 53 are zero
    obtain ⟨f, hf⟩ : ∃ f, k * 2 ^ s = f * 2 ^ e := by
      obtain ⟨d, rfl⟩ : ∃ d, s = e + d := ⟨s - e, by omega⟩
      exact ⟨k * 2 ^ d, by rw [Nat.pow_add]; ring⟩
    have hpos : 0 < 2 ^ e := Nat.two_pow_pos e
    obtain ⟨hf1, hf2⟩ : 2 ^ 52 ≤ f ∧ f < 2 ^ 53 := by
      obtain ⟨h1, h2⟩ := (Nat.log2_eq_iff (by omega)).1 he
      rw [hf, Nat.pow_add] at h1
      rw [hf, show 52 + e + 1 = 53 + e by omega, Nat.pow_add] at h2
      exact ⟨Nat.le_of_mul_le_mul_right h1 hpos, Nat.lt_of_mul_lt_mul_right h2⟩
    rw [ofMagnitude_eq, if_neg (by omega), he, Nat.add_sub_cancel_left, if_neg (by omega), hf,
      Nat.mul_div_cancel _ hpos]
    refine finite (by omega) ?_
    have hdiv : ((e + 1) * 2 ^ 52 + (f - 2 ^ 52)) / 2 ^ 52 = e + 1 := by omega
    have hmod : ((e + 1) * 2 ^ 52 + (f - 2 ^ 52)) % 2 ^ 52 = f - 2 ^ 52 := by omega
    rw [hdiv, hmod, if_neg (by omega), Nat.add_sub_cancel, Nat.add_sub_cancel' hf1]
  · rw [Nat.zero_mul, ofMagnitude_eq, if_pos (by decide)]
    exact finite (by decide) rfl

/-! ## Canonical forms -/

theorem infinite_eq {x : Binary64} (h : x.isInfinite = true) : x = infinity x.negative := by
  simp only [isInfinite, decide_eq_true_eq] at h
  conv_lhs => rw [x.eq_signed, h.1, h.2]
  rfl

theorem magnitude_ne_zero {x : Binary64} (h : x.isInfinite = true) : x.magnitude ≠ 0 := by
  simp only [isInfinite, decide_eq_true_eq] at h
  rw [magnitude_eq, if_neg (by omega)]
  exact Nat.mul_ne_zero (by omega) (Nat.two_pow_pos _).ne'

/-- a canonical form means what the number means -/
theorem meaning_canonical (x : Binary64) : x.canonical.meaning = x.meaning := by
  unfold canonical
  by_cases hn : x.isNaN = true
  · rw [if_pos hn, meaning, meaning, if_pos hn]
    rfl
  · rw [if_neg hn]
    split_ifs with hm
    · have hi : ¬ x.isInfinite = true := fun hi => magnitude_ne_zero hi hm
      rw [meaning, meaning, if_neg hn, if_neg hi, hm]
      show FloatValue.finite (scaled false 0 unit) = _
      exact congrArg _ ((scaled_eq_iff unit_pos).2 ⟨rfl, Or.inl rfl⟩)
    · rfl

/-- canonical forms are equal exactly for equal meanings -/
theorem canonical_eq_iff {x y : Binary64} : x.canonical = y.canonical ↔ x.meaning = y.meaning := by
  constructor
  · intro h
    rw [← meaning_canonical x, h, meaning_canonical]
  · intro h
    unfold meaning at h
    by_cases hx : x.isNaN = true <;> by_cases hy : y.isNaN = true
    · rw [canonical, canonical, if_pos hx, if_pos hy]
    · rw [if_pos hx, if_neg hy] at h
      split_ifs at h
    · rw [if_neg hx, if_pos hy] at h
      split_ifs at h
    · rw [if_neg hx, if_neg hy] at h
      by_cases hxi : x.isInfinite = true <;> by_cases hyi : y.isInfinite = true
      · rw [if_pos hxi, if_pos hyi] at h
        rw [infinite_eq hxi, infinite_eq hyi, FloatValue.infinite.inj h]
      · simp [hxi, hyi] at h
      · simp [hxi, hyi] at h
      · rw [if_neg hxi, if_neg hyi, FloatValue.finite.injEq, scaled_eq_iff unit_pos] at h
        have hxe : x.exponent ≠ 2047 := by simp [isNaN, isInfinite] at hx hxi; tauto
        have hye : y.exponent ≠ 2047 := by simp [isNaN, isInfinite] at hy hyi; tauto
        obtain ⟨hm, h0 | hs⟩ := h
        · rw [canonical, canonical, if_neg hx, if_neg hy, if_pos h0, if_pos (hm ▸ h0)]
        · rw [← ofMagnitude_magnitude hxe, ← ofMagnitude_magnitude hye, hm, hs]

end Binary64

namespace Binary32

/-- a magnitude has at most 24 significant bits -/
theorem exists_magnitude_eq (x : Binary32) : ∃ k s, x.magnitude = k * 2 ^ s ∧ k < 2 ^ 24 ∧ s ≤ 254 := by
  have hf : x.fraction < 2 ^ 23 := Nat.mod_lt _ (by decide)
  have he : x.exponent < 2 ^ 8 := Nat.mod_lt _ (by decide)
  rw [magnitude, Nat.shiftLeft_eq]
  split_ifs with h
  · exact ⟨x.fraction, 0, by simp, by omega, by omega⟩
  · exact ⟨2 ^ 23 + x.fraction, x.exponent - 1, rfl, by omega, by omega⟩

/-- widening is exact -/
theorem meaning_widen (x : Binary32) : x.widen.meaning = x.meaning := by
  unfold widen meaning
  split_ifs with hn hi
  · rfl
  · cases x.negative <;> rfl
  · obtain ⟨k, s, hm, hk, hs⟩ := x.exists_magnitude_eq
    rw [Nat.shiftLeft_eq, Binary64.meaning_ofMagnitude x.negative (k := k) (s := s + 925) ?_ (by omega) (by omega) ?_]
    · rw [← Binary32.unit_shift, Nat.shiftLeft_eq, scaled_mul x.negative x.magnitude (Nat.two_pow_pos 925)]
    · rw [hm, Nat.pow_add, Nat.mul_assoc]
    · rcases Nat.eq_zero_or_pos k with rfl | hpos
      · exact Or.inr rfl
      · refine Or.inl ?_
        rw [hm]
        calc 2 ^ 52 ≤ 2 ^ 925 := Nat.pow_le_pow_right (by decide) (by decide)
          _ ≤ k * 2 ^ s * 2 ^ 925 := Nat.le_mul_of_pos_left _ (Nat.mul_pos hpos (Nat.two_pow_pos s))

end Binary32

end EquiJoin
