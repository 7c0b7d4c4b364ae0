import LiveTemplate.Number.Binary64

/-!
# Shortest Decimals

The decimal with the fewest digits that rounds back to a given binary number.

The fractions that round to a number form an interval around it. Its ends lie half
way to the neighbouring numbers, and belong to it when the significand is even. For
one digit, two digits and so on, the two decimals next to the number are tried, one
from below and one from above; the first length at which one of them lies in the
interval is the shortest, and of two that do the nearer one is taken. Seventeen
digits are always enough.

Everything is measured in quarters of the number's last binary place, so the number
and the ends of its interval are whole.

## Main definitions

* `Decimal`: Digits and the power of ten of the first one.
* `Binary64.shortest`: The shortest decimal that rounds to the number.
-/

namespace LiveTemplate

/-- A decimal without sign: its digits as a number, and the power of ten that its first
    digit counts. -/
structure Decimal where
  /-- The digits, read as a natural number. -/
  digits : Nat
  /-- The power of ten of the first digit. -/
  magnitude : Int
  deriving DecidableEq, Repr

namespace Binary64

/-- The fractions around a positive number that round to it, over one denominator. -/
structure Interval where
  /-- The lower end. -/
  lower : Nat
  /-- The number itself. -/
  middle : Nat
  /-- The upper end. -/
  upper : Nat
  /-- The denominator of all three. -/
  den : Nat
  /-- The ends belong to the interval. -/
  closed : Bool

/-- The interval of a number that is not zero. Below a power of two the neighbour is
    only half as far. -/
def interval (x : Binary64) : Interval :=
  let below := if x.significand = Nat.pow 2 52 ∧ x.exponent ≠ -1074 then 1 else 2
  let quarters := 4 * x.significand
  let power := x.exponent - 2
  let up := Nat.pow 2 power.toNat
  ⟨(quarters - below) * up, quarters * up, (quarters + 2) * up, Nat.pow 2 (-power).toNat,
    x.significand % 2 == 0⟩

/-- The fraction `num / den` rounds to the number. -/
def Interval.contains (i : Interval) (num den : Nat) : Bool :=
  if i.closed then i.lower * den ≤ num * i.den && num * i.den ≤ i.upper * den
  else i.lower * den < num * i.den && num * i.den < i.upper * den

/-- The power of ten of the first digit of `num / den`, which is at least `10 ^ (-400)`. -/
def magnitude (num den : Nat) : Int :=
  ((Nat.toDigits 10 (num * Nat.pow 10 400 / den)).length : Int) - 401

/-- The candidate with `count` digits: the nearer of the two neighbours on that decimal
    grid that lie in the interval. -/
def candidate? (i : Interval) (first : Int) (count : Nat) : Option (Nat × Int) :=
  let unit := first - count + 1
  -- The grid's unit is `unitNum / unitDen`.
  let unitNum := Nat.pow 10 unit.toNat
  let unitDen := Nat.pow 10 (-unit).toNat
  let down := i.middle * unitDen / (i.den * unitNum)
  let up := down + 1
  let downFits := i.contains (down * unitNum) unitDen
  let upFits := i.contains (up * unitNum) unitDen
  -- Twice the number against the sum of its neighbours tells which one is nearer.
  let twice := 2 * i.middle * unitDen
  let sum := (down + up) * unitNum * i.den
  if downFits && upFits then
    if twice < sum || (twice == sum && down % 2 == 0) then some (down, unit) else some (up, unit)
  else if downFits then some (down, unit)
  else if upFits then some (up, unit)
  else none

/-- The number without the zeros at its end, and how many those were. -/
def dropZeros : (fuel : Nat) → Nat → Nat × Nat
  | 0, n => (n, 0)
  | fuel + 1, n =>
    if n % 10 = 0 ∧ n ≠ 0 then
      let (m, zeros) := dropZeros fuel (n / 10)
      (m, zeros + 1)
    else (n, 0)

/-- The shortest decimal that rounds to the number. -/
def shortest (x : Binary64) : Decimal :=
  if x.significand = 0 then ⟨0, 0⟩
  else
    let i := x.interval
    let first := magnitude i.middle i.den
    let found := (List.range 17).findSome? fun k => candidate? i first (k + 1)
    let (digits, unit) := found.getD (0, 0)
    let (digits, zeros) := dropZeros 20 digits
    ⟨digits, unit + zeros + ((Nat.toDigits 10 digits).length : Int) - 1⟩

end Binary64

end LiveTemplate
