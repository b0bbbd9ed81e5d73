/-
Numbers as keys. The value of a number is told here from its bits alone, by the rule that both formats share: a sign, an
exponent with a bias and a fraction, to which a leading one is added unless the exponent field is zero. Numbers of one
domain have equal key bytes, and so equal hashes, exactly if they are equal by this value, whatever their widths.

* `FloatFields.rational_eq`: the rule counts in units of the least positive number of the format;
* `FloatFields.meaning_eq_iff`: meanings are equal exactly if the numbers are both NaN, both zero, the same infinity, or
  finite with the same rational value;
* `rational_widen`: widening keeps the rational value of every finite number, of the subnormal ones too;
* `numeric_bytes_eq_iff`: equal numbers, equal bytes, equal hashes.
-/
import EquiJoin.Proofs.Hash.Scalar
import EquiJoin.Proofs.Key.Value
import Mathlib.Tactic.Positivity

namespace EquiJoin

/-- a floating-point number, field by field, with the widths of its fields -/
structure FloatFields where
  exponentBits : Nat
  fractionBits : Nat
  negative : Bool
  exponent : Nat
  fraction : Nat
  exponentBits_gt : 1 < exponentBits := by decide

namespace FloatFields

/-- what the exponent field is ahead of the exponent -/
def bias (x : FloatFields) : Nat := 2 ^ (x.exponentBits - 1) - 1

/-- all bits of the exponent field are set -/
def IsSpecial (x : FloatFields) : Prop := x.exponent = 2 ^ x.exponentBits - 1

def IsNaN (x : FloatFields) : Prop := x.IsSpecial ∧ x.fraction ≠ 0

def IsInfinite (x : FloatFields) : Prop := x.IsSpecial ∧ x.fraction = 0

def IsZero (x : FloatFields) : Prop := x.exponent = 0 ∧ x.fraction = 0

def IsFinite (x : FloatFields) : Prop := ¬ x.IsSpecial

instance (x : FloatFields) : Decidable x.IsSpecial := inferInstanceAs (Decidable (_ = _))
instance (x : FloatFields) : Decidable x.IsNaN := inferInstanceAs (Decidable (_ ∧ _))
instance (x : FloatFields) : Decidable x.IsInfinite := inferInstanceAs (Decidable (_ ∧ _))
instance (x : FloatFields) : Decidable x.IsZero := inferInstanceAs (Decidable (_ ∧ _))
instance (x : FloatFields) : Decidable x.IsFinite := inferInstanceAs (Decidable (¬ _))

/-- the fraction, with a leading one unless the exponent field is zero -/
def significand (x : FloatFields) : ℚ := (if x.exponent = 0 then 0 else 1) + x.fraction / 2 ^ x.fractionBits

/-- the value of a finite number; subnormal numbers have the exponent of the least normal ones -/
def rational (x : FloatFields) : ℚ :=
  (if x.negative then -1 else 1) * x.significand * 2 ^ ((max x.exponent 1 : ℤ) - x.bias)

/-- equality by value -/
inductive SameValue (x y : FloatFields) : Prop where
  | nan : x.IsNaN → y.IsNaN → SameValue x y
  | zero : x.IsZero → y.IsZero → SameValue x y
  | infinite : x.IsInfinite → y.IsInfinite → x.negative = y.negative → SameValue x y
  | finite : x.IsFinite → y.IsFinite → x.rational = y.rational → SameValue x y

/-- what a number of these fields means -/
def meaning (x : FloatFields) : FloatValue :=
  if x.IsNaN then .nan else if x.IsInfinite then .infinite x.negative else .finite x.rational

variable {x y : FloatFields}

theorem IsZero.isFinite (h : x.IsZero) : x.IsFinite := by
  intro hs
  have hpow : 2 ^ 1 < 2 ^ x.exponentBits := Nat.pow_lt_pow_right (by decide) x.exponentBits_gt
  unfold IsSpecial at hs
  rw [h.1] at hs
  omega

theorem IsZero.rational (h : x.IsZero) : x.rational = 0 := by
  simp [FloatFields.rational, significand, h.1, h.2]

theorem IsNaN.meaning (h : x.IsNaN) : x.meaning = .nan := if_pos h

theorem IsInfinite.meaning (h : x.IsInfinite) : x.meaning = .infinite x.negative := by
  rw [FloatFields.meaning, if_neg fun hn : x.IsNaN => hn.2 h.2, if_pos h]

theorem IsFinite.meaning (h : x.IsFinite) : x.meaning = .finite x.rational := by
  rw [FloatFields.meaning, if_neg fun hn : x.IsNaN => h hn.1, if_neg fun hi : x.IsInfinite => h hi.1]

/-- every number is one of the three -/
theorem trichotomy (x : FloatFields) : x.IsNaN ∨ x.IsInfinite ∨ x.IsFinite := by
  by_cases hs : x.IsSpecial
  · by_cases hf : x.fraction = 0
    · exact Or.inr (Or.inl ⟨hs, hf⟩)
    · exact Or.inl ⟨hs, hf⟩
  · exact Or.inr (Or.inr hs)

/-- equal meanings are equal values -/
theorem meaning_eq_iff : x.meaning = y.meaning ↔ x.SameValue y := by
  constructor
  · intro h
    rcases x.trichotomy with hx | hx | hx <;> rcases y.trichotomy with hy | hy | hy <;> rw [hx.meaning, hy.meaning] at h
    · exact .nan hx hy
    · cases h
    · cases h
    · cases h
    · exact .infinite hx hy (FloatValue.infinite.inj h)
    · cases h
    · cases h
    · cases h
    · exact .finite hx hy (FloatValue.finite.inj h)
  · intro h
    cases h with
    | nan hx hy => rw [hx.meaning, hy.meaning]
    | zero hx hy => rw [hx.isFinite.meaning, hy.isFinite.meaning, hx.rational, hy.rational]
    | infinite hx hy hs => rw [hx.meaning, hy.meaning, hs]
    | finite hx hy hq => rw [hx.meaning, hy.meaning, hq]

/-- the value, counted in units of the least positive number of the format -/
theorem rational_eq (x : FloatFields) :
    x.rational =
      scaled x.negative
        (if x.exponent = 0 then x.fraction else (2 ^ x.fractionBits + x.fraction) * 2 ^ (x.exponent - 1))
        (2 ^ (x.fractionBits + x.bias - 1)) := by
  have hbias : 1 ≤ x.bias := by
    have hbits := x.exponentBits_gt
    have hpow : 2 ^ 1 ≤ 2 ^ (x.exponentBits - 1) := Nat.pow_le_pow_right (by decide) (by omega)
    unfold bias
    omega
  have hexponent : (2 : ℚ) ^ ((max x.exponent 1 : ℤ) - x.bias) = 2 ^ (x.exponent - 1) / 2 ^ (x.bias - 1) := by
    rw [← zpow_natCast, ← zpow_natCast, ← zpow_sub₀ two_ne_zero]
    congr 1
    omega
  have hunit : ((2 ^ (x.fractionBits + x.bias - 1) : ℕ) : ℚ) = 2 ^ x.fractionBits * 2 ^ (x.bias - 1) := by
    rw [Nat.add_sub_assoc hbias, Nat.pow_add]
    push_cast
    rfl
  unfold rational significand scaled
  rw [hexponent, hunit]
  have hfraction : (2 : ℚ) ^ x.fractionBits ≠ 0 := pow_ne_zero _ two_ne_zero
  have hleast : (2 : ℚ) ^ (x.bias - 1) ≠ 0 := pow_ne_zero _ two_ne_zero
  by_cases hzero : x.exponent = 0
  · cases x.negative <;> simp [hzero] <;> field_simp
  · cases x.negative <;> simp [hzero] <;> field_simp
    ring

/-- the meaning in terms of flags and of a magnitude -/
theorem meaning_of (x : FloatFields) (units : Nat) {isNaN isInfinite : Bool} {magnitude unit : Nat}
    (hnan : isNaN = true ↔ x.IsNaN) (hinfinite : isInfinite = true ↔ x.IsInfinite)
    (hmagnitude : magnitude =
      if x.exponent = 0 then x.fraction else (2 ^ x.fractionBits + x.fraction) * 2 ^ (x.exponent - 1))
    (hunit : unit = 1 <<< units) (hunits : x.fractionBits + x.bias - 1 = units) :
    x.meaning =
      if isNaN then .nan else if isInfinite then .infinite x.negative
      else .finite (scaled x.negative magnitude unit) := by
  simp only [meaning, hnan, hinfinite, rational_eq, hmagnitude, hunit, hunits, Nat.one_shiftLeft]

end FloatFields

/-- the fields of a 64-bit number -/
def Binary64.fields (x : Binary64) : FloatFields where
  exponentBits := 11
  fractionBits := 52
  negative := 2 ^ 63 ≤ x.bits.toNat
  exponent := x.bits.toNat / 2 ^ 52 % 2 ^ 11
  fraction := x.bits.toNat % 2 ^ 52

/-- the fields of a 32-bit number -/
def Binary32.fields (x : Binary32) : FloatFields where
  exponentBits := 8
  fractionBits := 23
  negative := 2 ^ 31 ≤ x.bits.toNat
  exponent := x.bits.toNat / 2 ^ 23 % 2 ^ 8
  fraction := x.bits.toNat % 2 ^ 23

namespace Binary64

theorem meaning_fields (x : Binary64) : x.fields.meaning = x.meaning := by
  have hexponent : x.exponent = x.fields.exponent := exponent_eq x
  have hfraction : x.fraction = x.fields.fraction := fraction_eq x
  refine x.fields.meaning_of 1074 ?_ ?_ ?_ rfl rfl
  · rw [isNaN, decide_eq_true_eq, hexponent, hfraction]
    rfl
  · rw [isInfinite, decide_eq_true_eq, hexponent, hfraction]
    rfl
  · rw [magnitude_eq, hexponent, hfraction]
    rfl

end Binary64

namespace Binary32

theorem meaning_fields (x : Binary32) : x.fields.meaning = x.meaning := by
  have hexponent : x.exponent = x.fields.exponent := by
    rw [exponent, Nat.shiftRight_eq_div_pow]
    rfl
  have hfraction : x.fraction = x.fields.fraction := rfl
  refine x.fields.meaning_of 149 ?_ ?_ ?_ rfl rfl
  · rw [isNaN, decide_eq_true_eq, hexponent, hfraction]
    rfl
  · rw [isInfinite, decide_eq_true_eq, hexponent, hfraction]
    rfl
  · rw [magnitude, hexponent, hfraction, Nat.shiftLeft_eq]
    rfl

/-- widening keeps the value of every finite number -/
theorem rational_widen {x : Binary32} (h : x.fields.IsFinite) :
    x.widen.fields.IsFinite ∧ x.widen.fields.rational = x.fields.rational := by
  have hmeaning : x.widen.fields.meaning = .finite x.fields.rational := by
    rw [Binary64.meaning_fields, meaning_widen, ← meaning_fields, h.meaning]
  rcases x.widen.fields.trichotomy with hnan | hinfinite | hfinite
  · cases hnan.meaning.symm.trans hmeaning
  · cases hinfinite.meaning.symm.trans hmeaning
  · exact ⟨hfinite, FloatValue.finite.inj (hfinite.meaning.symm.trans hmeaning)⟩

end Binary32

namespace Key

/-! ## Numeric keys -/

/-- the integer that a key is, if it is one -/
def integer? : Key → Option Int
  | int8 v => some v.toInt
  | int16 v => some v.toInt
  | int32 v => some v.toInt
  | int64 v => some v.toInt
  | uint8 v => some v.toNat
  | uint16 v => some v.toNat
  | uint32 v => some v.toNat
  | uint64 v => some v.toNat
  | _ => none

/-- the fields of the floating-point number that a key is, if it is one -/
def float? : Key → Option FloatFields
  | float32 x => some x.fields
  | float64 x => some x.fields
  | _ => none

/-- an integer or a floating-point number of any width -/
def isNumber (k : Key) : Bool := k.integer?.isSome || k.float?.isSome

/-- numbers that are equal by value -/
inductive SameNumber (k k' : Key) : Prop where
  | integer {i : Int} : k.integer? = some i → k'.integer? = some i → SameNumber k k'
  | float {x y : FloatFields} : k.float? = some x → k'.float? = some y → x.SameValue y → SameNumber k k'

variable {k k' : Key}

theorem value?_of_integer {i : Int} (h : k.integer? = some i) : k.value? = some (.integer i) := by
  cases k <;> cases h <;> rfl

theorem value?_of_float {x : FloatFields} (h : k.float? = some x) : k.value? = some (.float x.meaning) := by
  cases k with
  | float32 x =>
    cases h
    rw [value?, x.meaning_fields]
  | float64 x =>
    cases h
    rw [value?, x.meaning_fields]
  | _ => cases h

theorem isNumber_iff : k.isNumber = true ↔ (∃ i, k.integer? = some i) ∨ ∃ x, k.float? = some x := by
  rw [isNumber, Bool.or_eq_true, Option.isSome_iff_exists, Option.isSome_iff_exists]

/-- numbers mean the same exactly if they are equal by value -/
theorem value?_eq_iff (h : k.isNumber) (h' : k'.isNumber) : k.value? = k'.value? ↔ k.SameNumber k' := by
  constructor
  · intro hv
    rcases isNumber_iff.1 h with ⟨i, hi⟩ | ⟨x, hx⟩ <;> rcases isNumber_iff.1 h' with ⟨i', hi'⟩ | ⟨y, hy⟩
    · rw [value?_of_integer hi, value?_of_integer hi'] at hv
      cases hv
      exact .integer hi hi'
    · rw [value?_of_integer hi, value?_of_float hy] at hv
      cases hv
    · rw [value?_of_float hx, value?_of_integer hi'] at hv
      cases hv
    · rw [value?_of_float hx, value?_of_float hy] at hv
      exact .float hx hy (FloatFields.meaning_eq_iff.1 (KeyValue.float.inj (Option.some.inj hv)))
  · intro hs
    cases hs with
    | integer hi hi' => rw [value?_of_integer hi, value?_of_integer hi']
    | float hx hy hxy => rw [value?_of_float hx, value?_of_float hy, FloatFields.meaning_eq_iff.2 hxy]

/-- the bytes of a number are a word -/
theorem bytes?_of_isNumber (h : k.isNumber) : ∃ w, k.bytes? = some (.scalar w) := by
  cases k with
  | null d => cases h
  | text s => cases h
  | bytes bs => cases h
  | row r => cases h
  | _ => exact ⟨_, rfl⟩

/-- **Equal numbers are equal keys.** Take any two numbers of one domain, of any widths. Both have eight key bytes, and
these are equal, and so are the default hashes, exactly if the numbers are equal by value: the same integer, or else
both NaN, both zero of whatever sign, the same infinity, or finite with the same rational value. A 32-bit number has the
key bytes of the 64-bit number that it is widened to, and if it is finite, subnormal or not, the two have the same
rational value. -/
theorem numeric_bytes_eq_iff (h : k.isNumber) (h' : k'.isNumber) (hd : k.domain = k'.domain) :
    (∃ b b', k.bytes? = some b ∧ k'.bytes? = some b' ∧ b.bytes.length = 8 ∧ b'.bytes.length = 8 ∧
      (b.bytes = b'.bytes ↔ k.SameNumber k') ∧ (b.hash = b'.hash ↔ k.SameNumber k')) ∧
      ∀ x : Binary32, k = float32 x → k.bytes? = (float64 x.widen).bytes? ∧
        (x.fields.IsFinite → x.widen.fields.IsFinite ∧ x.widen.fields.rational = x.fields.rational) := by
  obtain ⟨w, hw⟩ := bytes?_of_isNumber h
  obtain ⟨w', hw'⟩ := bytes?_of_isNumber h'
  have hword : w = w' ↔ k.SameNumber k' := by
    rw [← value?_eq_iff h h', ← bytes?_eq_iff hd, hw, hw', Option.some.injEq, KeyBytes.scalar.injEq]
  refine ⟨⟨.scalar w, .scalar w', hw, hw', LittleEndian.length_encode 8 _, LittleEndian.length_encode 8 _, ?_, ?_⟩, ?_⟩
  · rw [← hword]
    refine ⟨fun hb => ?_, fun he => by rw [he]⟩
    have hcanonical : KeyBytes.Canonical k.domain (.scalar w') := hd ▸ canonical_of_bytes? hw'
    exact KeyBytes.scalar.inj ((canonical_of_bytes? hw).eq_of_bytes hcanonical hb)
  · rw [← hword]
    exact ⟨Hash.scalar_injective, fun he => by rw [he]⟩
  · rintro x rfl
    exact ⟨rfl, Binary32.rational_widen⟩

/-- the least 32-bit number and the 64-bit number 2^-149 -/
theorem sameNumber_least : (float32 ⟨1⟩).SameNumber (float64 ⟨0x36a0000000000000⟩) := by
  have hbits : (1 : UInt32).toNat = 1 := rfl
  have hbits' : (0x36a0000000000000 : UInt64).toNat = 0x36a0000000000000 := rfl
  have hleast : (Binary32.fields ⟨1⟩).rational = 1 / 2 ^ 149 := by
    norm_num [FloatFields.rational, FloatFields.significand, FloatFields.bias, Binary32.fields, hbits]
  have hnormal : (Binary64.fields ⟨0x36a0000000000000⟩).rational = 1 / 2 ^ 149 := by
    norm_num [FloatFields.rational, FloatFields.significand, FloatFields.bias, Binary64.fields, hbits']
  exact .float rfl rfl (.finite (by decide) (by decide) (hleast.trans hnormal.symm))

/-- a subnormal number and a normal one of the same value, and two integers of different widths and values -/
theorem numeric_bytes_eq_iff_least :
    (∃ b b', (float32 ⟨1⟩).bytes? = some b ∧ (float64 ⟨0x36a0000000000000⟩).bytes? = some b' ∧ b.bytes = b'.bytes ∧
      b.hash = b'.hash) ∧
      ∃ b b', (int8 (-1)).bytes? = some b ∧ (int64 255).bytes? = some b' ∧ b.bytes ≠ b'.bytes ∧ b.hash ≠ b'.hash := by
  have hleast : (float32 ⟨1⟩).isNumber := rfl
  have hnormal : (float64 ⟨0x36a0000000000000⟩).isNumber := rfl
  have hnarrow : (int8 (-1)).isNumber := rfl
  have hwide : (int64 255).isNumber := rfl
  obtain ⟨⟨b, b', hb, hb', -, -, hbytes, hhash⟩, -⟩ := numeric_bytes_eq_iff hleast hnormal rfl
  obtain ⟨⟨c, c', hc, hc', -, -, hbytes', hhash'⟩, -⟩ := numeric_bytes_eq_iff hnarrow hwide rfl
  have hdiffer : ¬ (int8 (-1)).SameNumber (int64 255) := by
    rw [← value?_eq_iff rfl rfl]
    decide
  exact ⟨⟨b, b', hb, hb', hbytes.2 sameNumber_least, hhash.2 sameNumber_least⟩,
    c, c', hc, hc', fun he => hdiffer (hbytes'.1 he), fun he => hdiffer (hhash'.1 he)⟩

end Key

end EquiJoin
