/-
Decimal numbers: `digits · 10 ^ exponent`. `Decimal.nearest` reads one as the nearest 64-bit number, and
`Decimal.shortest` goes back: the fewest digits that read back, of those the nearest, and of two equally near ones the
larger. `positional` writes a number without an exponent, however long that gets.
-/
import EquiJoin.Binary64

namespace EquiJoin

/-- the number `digits · 10 ^ exponent` -/
structure Decimal where
  digits : Nat
  exponent : Int
  deriving DecidableEq, Repr

namespace Decimal

/-- how many decimal digits a natural number is written with -/
def width (n : Nat) : Nat := (toString n).length

/-- the 64-bit number nearest to a decimal; far outside the format's range the powers of ten are not computed -/
def nearest (neg : Bool) (d : Decimal) : Binary64 :=
  if d.digits = 0 then Binary64.signed neg 0
  else if 310 < d.exponent + width d.digits then Binary64.infinity neg
  else if d.exponent + width d.digits < -330 then Binary64.signed neg 0
  else if 0 ≤ d.exponent then Binary64.ofRatio neg (d.digits * Nat.pow 10 d.exponent.toNat) 1
  else Binary64.ofRatio neg d.digits (Nat.pow 10 (-d.exponent).toNat)

/-- the least `s`, from `s` upwards and at most `fuel` further, with `m · 10 ^ s` at least one -/
def firstScale (m : Nat) : Nat → Nat → Nat
  | 0, s => s
  | fuel + 1, s => if Binary64.unit ≤ m * Nat.pow 10 s then s else firstScale m fuel (s + 1)

/-- the power of ten that the leading digit of a magnitude stands for -/
def leading (m : Nat) : Int :=
  if Binary64.unit ≤ m then width (m / Binary64.unit) - 1 else -(firstScale m 330 1)

/-- the magnitude over `10 ^ q` as a quotient of naturals -/
def gridQuotient (m : Nat) (q : Int) : Nat × Nat :=
  if 0 ≤ q then (m, Binary64.unit * Nat.pow 10 q.toNat) else (m * Nat.pow 10 (-q).toNat, Binary64.unit)

/-- the better of the two neighbours of `x` on the grid of step `10 ^ q`, among those that read back as `x` -/
def onGrid (x : Binary64) (q : Int) : Option Decimal :=
  let (num, den) := gridQuotient x.magnitude q
  let below : Decimal := ⟨num / den, q⟩
  let above : Decimal := ⟨num / den + 1, q⟩
  let reads (d : Decimal) : Bool := nearest x.negative d = x
  if reads below then
    if reads above ∧ den ≤ 2 * (num % den) then some above else some below
  else if reads above then some above else none

/-- drop trailing zeros of the digits -/
def strip : Nat → Decimal → Decimal
  | 0, d => d
  | fuel + 1, d => if d.digits % 10 = 0 ∧ d.digits ≠ 0 then strip fuel ⟨d.digits / 10, d.exponent + 1⟩ else d

/-- the shortest decimal that reads back as `x`, for `x` finite and not zero; 17 digits always do -/
def shortest (x : Binary64) : Decimal :=
  let top := leading x.magnitude
  let found := (List.range 17).findSome? fun (n : Nat) => onGrid x (top - n)
  strip 20 (found.getD ⟨0, 0⟩)

/-- the decimal without an exponent: zeros fill up the places before or after its digits -/
def positional (d : Decimal) : String :=
  let s := toString d.digits
  if 0 ≤ d.exponent then s ++ "".pushn '0' d.exponent.toNat
  else
    let places := (-d.exponent).toNat
    if places < s.length then
      String.ofList (s.toList.take (s.length - places)) ++ "." ++ String.ofList (s.toList.drop (s.length - places))
    else "0." ++ "".pushn '0' (places - s.length) ++ s

end Decimal

/-- a number in full: shortest digits, positional, `NaN` without a sign, no point in an integer -/
def Binary64.text (x : Binary64) : String :=
  if x.isNaN then "NaN"
  else
    let sign := if x.negative then "-" else ""
    if x.isInfinite then sign ++ "inf"
    else if x.magnitude = 0 then sign ++ "0"
    else sign ++ (Decimal.shortest x).positional

end EquiJoin
