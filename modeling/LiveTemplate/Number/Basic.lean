import LiveTemplate.Number.Shortest

/-!
# Numbers

The numbers of structured data: integers, kept exactly, and binary floating-point
numbers. An integer that happens to be a float's value is a different number, and
the two are written differently, but writing one over the other is no change.

## Main definitions

* `Number`: An integer or a float.
* `Number.equal`: Equality inside arrays, where the two kinds never meet.
* `Number.same`: Equality for writes, which compares an integer with a float by the
  float nearest to the integer.
* `Number.text`: How a number is written.
-/

namespace LiveTemplate

/-- A number of structured data. -/
inductive Number where
  /-- An integer. -/
  | int (i : Int)
  /-- A binary floating-point number. -/
  | float (x : Binary64)
  deriving DecidableEq

namespace Number

/-- The float nearest to the number. -/
def toFloat? : Number → Option Binary64
  | int i => Binary64.ofInt? i
  | float x => some x

/-- Equality of two numbers of one kind. Numbers of different kinds are unequal. -/
def equal : Number → Number → Bool
  | int a, int b => a == b
  | float a, float b => a.sameValue b
  | _, _ => false

/-- Equality for writes: integers are compared exactly, and as soon as one of the two is
    a float, their floats are compared. -/
def same : Number → Number → Bool
  | int a, int b => a == b
  | a, b =>
    match a.toFloat?, b.toFloat? with
    | some x, some y => x.sameValue y
    | _, _ => false

/-- Decimals with these powers of ten of the first digit are written without an
    exponent. -/
def isPositional (magnitude : Int) : Bool :=
  -5 ≤ magnitude && magnitude ≤ 15

/-- A decimal in positional notation. An integral one gets the fraction `.0`. -/
def positional (digits : List Char) (magnitude : Int) : List Char :=
  if magnitude < 0 then
    "0.".toList ++ List.replicate (-magnitude - 1).toNat '0' ++ digits
  else
    let whole := magnitude.toNat + 1
    let padded := digits ++ List.replicate (whole - digits.length) '0'
    match padded.drop whole with
    | [] => padded ++ ".0".toList
    | fraction => padded.take whole ++ '.' :: fraction

/-- A decimal in scientific notation. The exponent always carries its sign. -/
def scientific (digits : List Char) (magnitude : Int) : List Char :=
  let significand :=
    match digits with
    | [] => []
    | [d] => [d]
    | d :: ds => d :: '.' :: ds
  let sign := if magnitude < 0 then '-' else '+'
  significand ++ 'e' :: sign :: Nat.toDigits 10 magnitude.natAbs

/-- A float is written with the fewest digits that read back to it. -/
def floatText (x : Binary64) : List Char :=
  let d := x.shortest
  let digits := Nat.toDigits 10 d.digits
  let unsigned :=
    if isPositional d.magnitude then positional digits d.magnitude
    else scientific digits d.magnitude
  if x.negative then '-' :: unsigned else unsigned

/-- An integer in decimal. -/
def intText (i : Int) : List Char :=
  if i < 0 then '-' :: Nat.toDigits 10 i.natAbs else Nat.toDigits 10 i.natAbs

/-- How a number is written. -/
def text : Number → List Char
  | int i => intText i
  | float x => floatText x

end Number

end LiveTemplate
