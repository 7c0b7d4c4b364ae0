/-!
# Binary Floating-Point Numbers

The finite numbers of the 64-bit binary format, as a sign, a significand and an
exponent in exact arithmetic.

A number is `± significand · 2 ^ exponent`. The significand has at most 53 bits, and
it has exactly 53 unless the exponent is the least one, so a number other than zero
has one representation. Zero has two, one of each sign, and they are the same value.

Rounding takes a fraction to the nearest number, and to the one with the even
significand when two are equally near. It fails on a fraction that lies beyond the
largest number by half a unit or more.

## Main definitions

* `Binary64`: A finite number of the format.
* `Binary64.sameValue`: Equality of values.
* `Binary64.nearest?`: The number nearest to a fraction.
* `Binary64.ofDecimal?`: The number nearest to a decimal.
* `Binary64.ofInt?`: The number nearest to an integer.
-/

namespace LiveTemplate

/-- The pairs of significand and exponent that stand for a number of the format. -/
def Binary64.Canonical (significand : Nat) (exponent : Int) : Prop :=
  significand < Nat.pow 2 53 ∧ -1074 ≤ exponent ∧ exponent ≤ 971 ∧
    (exponent = -1074 ∨ Nat.pow 2 52 ≤ significand)

instance (significand : Nat) (exponent : Int) :
    Decidable (Binary64.Canonical significand exponent) :=
  inferInstanceAs (Decidable (_ ∧ _ ∧ _ ∧ (_ ∨ _)))

/-- A finite number of the 64-bit binary format. -/
structure Binary64 where
  /-- The sign. -/
  negative : Bool
  /-- The digits in binary. -/
  significand : Nat
  /-- The power of two that scales the digits. -/
  exponent : Int
  canonical : Binary64.Canonical significand exponent
  deriving DecidableEq

namespace Binary64

/-- Zero with the given sign. -/
def zero (negative : Bool) : Binary64 :=
  ⟨negative, 0, -1074, by decide⟩

instance : Inhabited Binary64 := ⟨zero false⟩

/-- The two numbers are the same value: equal, or both zero. -/
def sameValue (a b : Binary64) : Bool :=
  a.significand == b.significand && a.exponent == b.exponent &&
    (a.negative == b.negative || a.significand == 0)

/-- The quotient rounded to the nearest integer, and to the even one of two that are
    equally near. -/
def divideToEven (num den : Nat) : Nat :=
  let q := num / den
  let r := num % den
  if 2 * r > den || (2 * r == den && q % 2 == 1) then q + 1 else q

/-- The fraction `num / den` divided by `2 ^ exponent`, as a new fraction. -/
def scaleDown (num den : Nat) (exponent : Int) : Nat × Nat :=
  if 0 ≤ exponent then (num, den * Nat.pow 2 exponent.toNat)
  else (num * Nat.pow 2 (-exponent).toNat, den)

/-- The least exponent of the format at which `num / den` has at most 53 binary digits
    before the point. -/
def exponentOf (num den : Nat) : Int :=
  let guess : Int := num.log2 - den.log2 - 53
  let (n, d) := scaleDown num den guess
  max (-1074) (if n < d * Nat.pow 2 53 then guess else guess + 1)

/-- Rounded digits and their exponent, where a 54th digit is carried over to the exponent. -/
def carry (rounded : Nat) (exponent : Int) : Nat × Int :=
  if rounded = Nat.pow 2 53 then (Nat.pow 2 52, exponent + 1) else (rounded, exponent)

/-- The number with the given sign, digits and exponent, unless the format has none. -/
def pack? (negative : Bool) (digits : Nat × Int) : Option Binary64 :=
  if h : Canonical digits.1 digits.2 then some ⟨negative, digits.1, digits.2, h⟩ else none

/-- The number nearest to `num / den` with the given sign, unless the fraction is too
    large for the format. -/
def nearest? (negative : Bool) (num den : Nat) : Option Binary64 :=
  let exponent := exponentOf num den
  let scaled := scaleDown num den exponent
  pack? negative (carry (divideToEven scaled.1 scaled.2) exponent)

/-- The number nearest to `digits · 10 ^ power`. The bounds on the power decide without
    computing it: a decimal below `10 ^ (-330)` rounds to zero, and one from `10 ^ 310`
    on is too large. -/
def ofDecimal? (negative : Bool) (digits : Nat) (power : Int) : Option Binary64 :=
  let length : Int := (Nat.toDigits 10 digits).length
  if digits = 0 ∨ length + power < -330 then some (zero negative)
  else if 311 < length + power then none
  else if 0 ≤ power then nearest? negative (digits * Nat.pow 10 power.toNat) 1
  else nearest? negative digits (Nat.pow 10 (-power).toNat)

/-- The number nearest to an integer. -/
def ofInt? (i : Int) : Option Binary64 :=
  if i = 0 then some (zero false) else nearest? (decide (i < 0)) i.natAbs 1

end Binary64

end LiveTemplate
