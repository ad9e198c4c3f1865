import Reckon.Power

/-!
# Binary64 numbers

A binary64 number is a word of 64 bits: a sign, an exponent field of 11 bits and a fraction field
of 52. A finite one has the value `m * 2 ^ q` of its significand `m` and exponent `q`. These are the
numbers that `from_f64` takes and `to_f64` gives.

Rounding is done on exact ratios of natural numbers: `roundRatio` takes the nearest representable
number, of two equally near ones that with the even significand, and goes to infinity where the
exponent does not suffice. The magnitude `m * 2 ^ q` has the bits `(q + 1074) * 2 ^ 52 + m`, less
`2 ^ 52` where `m` has its full 53 bits and `q` is not the least exponent; because a significand
that is rounded up to `2 ^ 53` carries into the exponent field, one formula covers all cases.
-/

namespace Reckon

/-- A binary64 number, by its bits. -/
structure Binary64 where
  bits : UInt64
deriving DecidableEq

namespace Binary64

/-- The bits of infinity: the largest exponent field and no fraction. -/
def infinityBits : Nat := 2047 * 2 ^ 52

/-- The number with this sign and these bits below it. -/
def ofMagnitude (negative : Bool) (bits : Nat) : Binary64 :=
  ⟨UInt64.ofNat (if negative then 2 ^ 63 + bits else bits)⟩

/-- Whether the sign bit is set. -/
def negative (x : Binary64) : Bool := 2 ^ 63 ≤ x.bits.toNat

/-- The bits below the sign. -/
def magnitude (x : Binary64) : Nat := x.bits.toNat % 2 ^ 63

/-- Whether the number is neither infinite nor a NaN. -/
def isFinite (x : Binary64) : Bool := x.magnitude < infinityBits

/-- Whether the bits stand for no number. -/
def isNaN (x : Binary64) : Bool := infinityBits < x.magnitude

/-- The exponent field. -/
def exponentField (x : Binary64) : Nat := x.magnitude / 2 ^ 52

/-- The fraction field. -/
def fractionField (x : Binary64) : Nat := x.magnitude % 2 ^ 52

/-- The integer `m` of a finite value `m * 2 ^ q`. -/
def significand (x : Binary64) : Nat :=
  if x.exponentField = 0 then x.fractionField else 2 ^ 52 + x.fractionField

/-- The exponent `q` of a finite value `m * 2 ^ q`. -/
def exponent (x : Binary64) : Int :=
  if x.exponentField = 0 then -1074 else x.exponentField - 1075

/-- A zero with a sign. -/
def zero (negative : Bool) : Binary64 := ofMagnitude negative 0

/-- An infinity with a sign. -/
def infinity (negative : Bool) : Binary64 := ofMagnitude negative infinityBits

/-- A value that stands for no number. -/
def nan : Binary64 := ofMagnitude false (infinityBits + 2 ^ 51)

/-- The number with the other sign. -/
def neg (x : Binary64) : Binary64 := ofMagnitude (!x.negative) x.magnitude

/-- The quotient `num / den`, rounded to the nearest integer, a half to the even one. -/
def divNearestEven (num den : Nat) : Nat :=
  let q := num / den
  match compare (2 * (num % den)) den with
  | .lt => q
  | .eq => if q % 2 = 0 then q else q + 1
  | .gt => q + 1

/-- The exponent at which `num / den` has a significand of 53 bits, or the least exponent. -/
def exponentOf (num den : Nat) : Int :=
  let guess : Int := (num.log2 : Int) - den.log2 - 52
  let reaches : Bool := den * 2 ^ (guess + 52).toNat ≤ num * 2 ^ (-(guess + 52)).toNat
  max (if reaches then guess else guess - 1) (-1074)

/-- The bits of the positive ratio `num / den` after rounding. -/
def roundBits (num den : Nat) : Nat :=
  let q := exponentOf num den
  let m := divNearestEven (num * 2 ^ (-q).toNat) (den * 2 ^ q.toNat)
  min ((q + 1074).toNat * 2 ^ 52 + m) infinityBits

/-- The binary64 number nearest to `num / den`, with this sign. -/
def roundRatio (negative : Bool) (num den : Nat) : Binary64 :=
  if num = 0 then zero negative else ofMagnitude negative (roundBits num den)

/-- The binary64 number nearest to `m * 2 ^ q`, with this sign. -/
def roundDyadic (negative : Bool) (m : Nat) (q : Int) : Binary64 :=
  roundRatio negative (m * 2 ^ q.toNat) (2 ^ (-q).toNat)

/-- The binary64 number nearest to a natural number. -/
def ofNat (n : Nat) : Binary64 := roundRatio false n 1

/-- The product, rounded once. -/
def mul (x y : Binary64) : Binary64 :=
  let negative := x.negative != y.negative
  if x.isNaN || y.isNaN then nan
  else if x.isFinite && y.isFinite then
    roundDyadic negative (x.significand * y.significand) (x.exponent + y.exponent)
  else if x.magnitude = 0 || y.magnitude = 0 then nan
  else infinity negative

/-- The integer part of the magnitude of a finite number. -/
def floorMagnitude (x : Binary64) : Nat :=
  x.significand * 2 ^ x.exponent.toNat / 2 ^ (-x.exponent).toNat

end Binary64

end Reckon
