import Reckon.Binary64.Basic
import Reckon.Digits

/-!
# Shortest digits

`shortest` writes a positive binary64 number with the fewest decimal digits from which it is read
back. For one digit, two digits and so on it looks at the two neighbours of the number among the
decimals with so many digits; the first that rounds to the number is taken, the nearer one if both
do, the upper one if both are equally near. Seventeen digits always suffice, so there the nearer
neighbour is taken unseen. This is the text by way of which `from_f64` makes a decimal of the number
(specification, 10.6).
-/

namespace Reckon.Binary64

/-- A positive number `coefficient * 10 ^ exponent`. -/
structure Digits where
  coefficient : Nat
  exponent : Int
deriving DecidableEq

/-- The numerator of `coefficient * 10 ^ exponent`. -/
def Digits.num (d : Digits) : Nat := d.coefficient * 10 ^ d.exponent.toNat

/-- The denominator of `coefficient * 10 ^ exponent`. -/
def Digits.den (d : Digits) : Nat := 10 ^ (-d.exponent).toNat

/-- The place of the first digit of `num / den`: the exponent of the largest power of ten that is
not greater. -/
def firstPlace (num den : Nat) : Int :=
  if den ≤ num then (numDigits (num / den) : Int) - 1 else -(numDigits ((den - 1) / num) : Int)

/-- Whether the decimal rounds to the number with these bits. -/
def readsBack (bits : Nat) (d : Digits) : Bool := roundBits d.num d.den = bits

/-- The two neighbours of `num / den` on the grid of multiples of `10 ^ place`, the nearer one
first. -/
def neighbours (num den : Nat) (place : Int) : Digits × Digits :=
  let n := num * 10 ^ (-place).toNat
  let d := den * 10 ^ place.toNat
  let lower := n / d
  if 2 * (n % d) < d then (⟨lower, place⟩, ⟨lower + 1, place⟩)
  else (⟨lower + 1, place⟩, ⟨lower, place⟩)

/-- The first neighbour that reads back, from `count` digits on, with `rest` more to try. -/
def search (bits num den : Nat) (first : Int) (count : Nat) : Nat → Digits
  | 0 => (neighbours num den (first + 1 - count)).1
  | rest + 1 =>
    let (nearer, farther) := neighbours num den (first + 1 - count)
    if readsBack bits nearer then nearer
    else if readsBack bits farther then farther
    else search bits num den first (count + 1) rest

/-- The fewest digits that read back as the given finite nonzero number, its sign aside. -/
def shortest (x : Binary64) : Digits :=
  let num := x.significand * 2 ^ x.exponent.toNat
  let den := 2 ^ (-x.exponent).toNat
  search x.magnitude num den (firstPlace num den) 1 16

end Reckon.Binary64
