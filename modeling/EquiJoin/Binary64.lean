/-
Binary floating-point numbers as bit patterns. Nothing here computes with machine floats: a finite number is its sign
and its magnitude, a natural number of the format's smallest positive value (2^-1074 for 64 bits, 2^-149 for 32 bits),
so every comparison and every product below is exact.

* `Binary64.ofRatio` rounds a quotient of naturals to the nearest number, a tie to the even one;
* `Binary32.widen` keeps the value;
* `Binary64.canonical` is the form that keys take: one zero and one NaN.
-/
namespace EquiJoin

/-- quotient rounded to the nearest integer, a tie to the even one -/
def roundQuotient (num den : Nat) : Nat :=
  let q := num / den
  let r := num % den
  if 2 * r < den then q
  else if den < 2 * r then q + 1
  else if q % 2 = 0 then q else q + 1

/-- a 64-bit floating-point number, by its bits -/
structure Binary64 where
  bits : UInt64
  deriving DecidableEq, Repr, Inhabited

namespace Binary64

def negative (x : Binary64) : Bool := 1 <<< 63 ≤ x.bits.toNat

/-- the exponent field -/
def exponent (x : Binary64) : Nat := (x.bits.toNat >>> 52) % (1 <<< 11)

/-- the fraction field -/
def fraction (x : Binary64) : Nat := x.bits.toNat % (1 <<< 52)

def isNaN (x : Binary64) : Bool := x.exponent = 2047 ∧ x.fraction ≠ 0

def isInfinite (x : Binary64) : Bool := x.exponent = 2047 ∧ x.fraction = 0

/-- the absolute value of a finite number, in units of 2^-1074; for infinities and NaN it is past every finite one -/
def magnitude (x : Binary64) : Nat :=
  if x.exponent = 0 then x.fraction else ((1 <<< 52) + x.fraction) <<< (x.exponent - 1)

/-- the magnitude of the number one -/
def unit : Nat := 1 <<< 1074

def zero : Binary64 := ⟨0⟩

/-- the only NaN among canonical numbers -/
def nan : Binary64 := ⟨0x7ff8000000000000⟩

/-- put the sign bit in front of the other 63 bits -/
def signed (neg : Bool) (body : Nat) : Binary64 :=
  ⟨UInt64.ofNat (if neg then (1 <<< 63) + body else body)⟩

def infinity (neg : Bool) : Binary64 := signed neg (2047 <<< 52)

/-- the number of this magnitude, which must have at most 53 significant bits; past the largest number, an infinity -/
def ofMagnitude (neg : Bool) (m : Nat) : Binary64 :=
  if m < 1 <<< 52 then signed neg m
  else
    let e := m.log2 - 52
    if 2046 ≤ e then infinity neg
    else signed neg (((e + 1) <<< 52) + ((m >>> e) - (1 <<< 52)))

/-- the number nearest to `num / den`; `den` is positive -/
def ofRatio (neg : Bool) (num den : Nat) : Binary64 :=
  let q := num * unit / den
  if q < 1 <<< 53 then ofMagnitude neg (roundQuotient (num * unit) den)
  else
    let step := 1 <<< (q.log2 - 52)
    ofMagnitude neg (roundQuotient (num * unit) (den * step) * step)

/-- the number nearest to an integer -/
def ofInt (i : Int) : Binary64 := ofRatio (i < 0) i.natAbs 1

/-- one zero, one NaN, every other number as it is -/
def canonical (x : Binary64) : Binary64 :=
  if x.isNaN then nan else if x.magnitude = 0 then zero else x

/-- in the half-open interval (0, 1] -/
def isProportion (x : Binary64) : Bool := !x.negative ∧ 0 < x.magnitude ∧ x.magnitude ≤ unit

/-- the integer part of `n * x`, for `x` not negative and finite -/
def scaleFloor (x : Binary64) (n : Nat) : Nat := n * x.magnitude / unit

end Binary64

/-- a 32-bit floating-point number, by its bits -/
structure Binary32 where
  bits : UInt32
  deriving DecidableEq, Repr, Inhabited

namespace Binary32

def negative (x : Binary32) : Bool := 1 <<< 31 ≤ x.bits.toNat

def exponent (x : Binary32) : Nat := (x.bits.toNat >>> 23) % (1 <<< 8)

def fraction (x : Binary32) : Nat := x.bits.toNat % (1 <<< 23)

def isNaN (x : Binary32) : Bool := x.exponent = 255 ∧ x.fraction ≠ 0

def isInfinite (x : Binary32) : Bool := x.exponent = 255 ∧ x.fraction = 0

/-- the absolute value of a finite number, in units of 2^-149 -/
def magnitude (x : Binary32) : Nat :=
  if x.exponent = 0 then x.fraction else ((1 <<< 23) + x.fraction) <<< (x.exponent - 1)

/-- the magnitude of the number one -/
def unit : Nat := 1 <<< 149

/-- a unit of 2^-149 is 2^925 units of 2^-1074 -/
theorem unit_shift : unit <<< 925 = Binary64.unit := by decide +kernel

/-- the 64-bit number of the same value -/
def widen (x : Binary32) : Binary64 :=
  if x.isNaN then Binary64.nan
  else if x.isInfinite then Binary64.infinity x.negative
  else Binary64.ofMagnitude x.negative (x.magnitude <<< 925)

end Binary32

end EquiJoin
