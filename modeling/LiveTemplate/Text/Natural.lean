/-!
# Reading Natural Numbers

Digits in a radix up to sixteen, and the natural number that a text of digits
writes. Letters of either case are digits above nine.

## Main definitions

* `digit?`: The value of a digit.
* `natural?`: The number written by one or more digits.
-/

namespace LiveTemplate

namespace Text

/-- The value of `c` as a digit of the given radix. -/
def digit? (radix : Nat) (c : Char) : Option Nat :=
  let value? :=
    if '0' ≤ c ∧ c ≤ '9' then some (c.toNat - '0'.toNat)
    else if 'a' ≤ c ∧ c ≤ 'f' then some (c.toNat - 'a'.toNat + 10)
    else if 'A' ≤ c ∧ c ≤ 'F' then some (c.toNat - 'A'.toNat + 10)
    else none
  value?.filter (· < radix)

/-- The number that the digits write after what `acc` already holds. -/
def naturalFrom (radix : Nat) : (acc : Nat) → List Char → Option Nat
  | acc, [] => some acc
  | acc, c :: cs =>
    match digit? radix c with
    | some d => naturalFrom radix (acc * radix + d) cs
    | none => none

/-- The number written by a text of one or more digits. -/
def natural? (radix : Nat) : List Char → Option Nat
  | [] => none
  | c :: cs => naturalFrom radix 0 (c :: cs)

end Text

end LiveTemplate
