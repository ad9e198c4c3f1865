import Reckon.Binary64.Enclosure
import Reckon.Binary64.FixedPoint

/-!
# Elementary functions on binary64 numbers

Every function here is rounded correctly: its result is the binary64 number nearest to the value
of the real function. Roots are taken in integers, with one more bit that records whether they are
exact. The transcendental functions are enclosed in fixed point and rounded from there. Zeros,
infinities and arguments where the real function has no value are treated one by one.

These are the functions that the builtin functions of `math` and `power` call. The mathematical
library of a system need not round them correctly, so the last digit of what it gives may be
another, for the cube root of two for example. No theorem uses what they give.
-/

namespace Reckon.Binary64

open FixedPoint

/-! ## Roots -/

/-- The square root of `n * 2 ^ (2 * q)`. The integer root is taken of `n` with zeros enough for
it to have more bits than a significand. -/
def sqrtDyadic (n : Nat) (q : Int) : Binary64 :=
  let zeros : Nat := 64
  let shifted := n * 4 ^ zeros
  let root := isqrt shifted
  roundDyadic false (2 * root + if root * root = shifted then 0 else 1) (q - zeros - 1)

/-- The square root. -/
def sqrt (x : Binary64) : Binary64 :=
  if x.magnitude = 0 then x
  else if x.isNaN || x.negative then nan
  else if !x.isFinite then x
  else if x.exponent % 2 = 0 then sqrtDyadic x.significand (x.exponent / 2)
  else sqrtDyadic (2 * x.significand) ((x.exponent - 1) / 2)

/-- The cube root. -/
def cbrt (x : Binary64) : Binary64 :=
  if x.magnitude = 0 || !x.isFinite then x
  else
    let zeros : Nat := 64
    let shifted := x.significand * 2 ^ (x.exponent % 3).toNat * 8 ^ zeros
    let root := icbrt shifted
    let exact : Bool := root * root * root = shifted
    roundDyadic x.negative (2 * root + if exact then 0 else 1) (x.exponent / 3 - zeros - 1)

/-- The length of the hypotenuse over two legs. -/
def hypot (x y : Binary64) : Binary64 :=
  if x.magnitude = infinityBits ∨ y.magnitude = infinityBits then infinity false
  else if x.isNaN || y.isNaN then nan
  else
    let q := min x.exponent y.exponent
    let a := x.significand * 2 ^ (x.exponent - q).toNat
    let b := y.significand * 2 ^ (y.exponent - q).toNat
    sqrtDyadic (a * a + b * b) q

/-! ## Quotients -/

/-- The quotient, rounded once. -/
def div (x y : Binary64) : Binary64 :=
  let negative := x.negative != y.negative
  if x.isNaN || y.isNaN then nan
  else if !x.isFinite then if y.isFinite then infinity negative else nan
  else if !y.isFinite then zero negative
  else if y.magnitude = 0 then if x.magnitude = 0 then nan else infinity negative
  else
    let q := x.exponent - y.exponent
    roundRatio negative (x.significand * 2 ^ q.toNat) (y.significand * 2 ^ (-q).toNat)

/-! ## Arguments in fixed point -/

/-- The units in the last place that approximations in fixed point may be off. -/
def slack : Nat := 2 ^ 20

/-- The bits that are carried along beyond those asked for. -/
def guardBits : Nat := 48

/-- The magnitude of a finite number in fixed point. -/
def fixed (bits : Nat) (x : Binary64) : Int :=
  let q := x.exponent + bits
  x.significand * 2 ^ q.toNat / 2 ^ (-q).toNat

/-- The length of the integer part of a finite number. -/
def integerLength (x : Binary64) : Nat := (x.significand.log2 + 1 + x.exponent).toNat

/-- The number of zeros between the point and the first bit of a finite number. -/
def leadingZeros (x : Binary64) : Nat := (-(x.significand.log2 + 1 + x.exponent)).toNat

/-- The number of bits that an approximation is carried out with: those asked for, the guard bits,
and the zeros that a small argument has behind the point. -/
def workingBits (bits : Nat) (x : Binary64) : Nat := bits + guardBits + x.leadingZeros

/-- The enclosure of an approximation, or of its opposite. -/
def enclose (negative : Bool) (bits : Nat) (value : Int) : Enclosure :=
  ⟨if negative then -value else value, slack, -bits⟩

/-! ## Exponentials and logarithms -/

/-- The exponential of a fixed-point number as `v * 2 ^ k`, `v` in fixed point near one. -/
def expParts (bits : Nat) (t : Int) : Int × Int :=
  let wide := bits + 16
  let t := t * 2 ^ 16
  let k := (2 * t + ln2 wide) / (2 * ln2 wide)
  (exp wide (t - k * ln2 wide) / 2 ^ 16, k)

/-- The exponential of a fixed-point number. -/
def encloseExp (bits : Nat) (t : Int) : Enclosure :=
  let (v, k) := expParts bits t
  ⟨v, slack, k - bits⟩

/-- Arguments from which on the exponential function and its kin are out of range. -/
def expLimit : Nat := 800

/-- Whether the magnitude of a number is at least `n`, infinity included. -/
def reaches (n : Nat) (x : Binary64) : Bool := !x.isFinite || n ≤ x.floorMagnitude

/-- The exponential function. -/
def exp (x : Binary64) : Binary64 :=
  if x.isNaN then nan
  else if x.reaches expLimit then if x.negative then zero false else infinity false
  else roundReal fun bits =>
    let bits := bits + guardBits
    encloseExp bits (if x.negative then -x.fixed bits else x.fixed bits)

/-- The hyperbolic sine and cosine of the magnitude, multiplied by `2 ^ (k + bits + 1)`, and `k`. -/
def hyperbolic (bits : Nat) (x : Binary64) : Int × Int × Nat :=
  let (v, k) := expParts bits (x.fixed bits)
  let k := k.toNat
  let grown := v * 2 ^ (2 * k)
  let shrunk := one bits * one bits / v
  (grown - shrunk, grown + shrunk, k)

/-- The enclosure of half a sum or a difference of exponentials. -/
def encloseHalf (negative : Bool) (bits : Nat) (value : Int) (k : Nat) : Enclosure :=
  ⟨if negative then -value else value, slack * 2 ^ (2 * k) + slack, -bits - k - 1⟩

/-- The hyperbolic sine. -/
def sinh (x : Binary64) : Binary64 :=
  if x.magnitude = 0 || x.isNaN then x
  else if x.reaches expLimit then infinity x.negative
  else roundReal fun bits =>
    let bits := workingBits bits x
    let (s, _, k) := hyperbolic bits x
    encloseHalf x.negative bits s k

/-- The hyperbolic cosine. -/
def cosh (x : Binary64) : Binary64 :=
  if x.isNaN then nan
  else if x.reaches expLimit then infinity false
  else roundReal fun bits =>
    let bits := bits + guardBits
    let (_, c, k) := hyperbolic bits x
    encloseHalf false bits c k

/-- The hyperbolic tangent. -/
def tanh (x : Binary64) : Binary64 :=
  if x.magnitude = 0 || x.isNaN then x
  else if x.reaches 64 then roundRatio x.negative 1 1
  else roundReal fun bits =>
    let bits := workingBits bits x
    let (s, c, _) := hyperbolic bits x
    enclose x.negative bits (ratio bits s c)

/-- A finite positive number as `y * 2 ^ k` with `y` between 3/4 and 3/2, and the natural logarithm
of `y` in fixed point. -/
def logParts (bits : Nat) (x : Binary64) : Int × Int :=
  let m := x.significand
  let length := m.log2 + 1
  let length := if 4 * m < 3 * 2 ^ length then length - 1 else length
  (x.exponent + length, 2 * atanh bits (ratio bits (m - 2 ^ length) (m + 2 ^ length)))

/-- The natural logarithm of a finite positive number in fixed point. -/
def fixedLog (bits : Nat) (x : Binary64) : Int :=
  let (k, l) := logParts bits x
  k * ln2 bits + l

/-- The treatment that all logarithms have in common. -/
def logarithm (f : Nat → Int) (x : Binary64) : Binary64 :=
  if x.magnitude = 0 then infinity true
  else if x.isNaN || x.negative then nan
  else if !x.isFinite then x
  else if x = roundRatio false 1 1 then zero false
  else roundReal fun bits =>
    let bits := bits + guardBits
    enclose false bits (f bits)

/-- The natural logarithm. -/
def log (x : Binary64) : Binary64 := logarithm (fun bits => fixedLog bits x) x

/-- The logarithm to base two. -/
def log2 (x : Binary64) : Binary64 :=
  logarithm (fun bits =>
    let (k, l) := logParts bits x
    k * one bits + ratio bits l (ln2 bits)) x

/-- The logarithm to base ten. -/
def log10 (x : Binary64) : Binary64 :=
  logarithm (fun bits => ratio bits (fixedLog bits x) (ln10 bits)) x

/-- The logarithm to a base, as a quotient of logarithms to base two. -/
def logBase (base x : Binary64) : Binary64 := x.log2.div base.log2

/-! ## Powers -/

/-- Whether a finite number is an integer. -/
def isInteger (x : Binary64) : Bool := x.significand % 2 ^ (-x.exponent).toNat = 0

/-- Whether a finite number is an odd integer. -/
def isOddInteger (x : Binary64) : Bool := x.isInteger && x.floorMagnitude % 2 = 1

/-- The power of a finite positive base other than one, with a finite exponent other than zero;
`negative` is the sign of the result. Exponents of 66 bits and more leave the range. -/
def powPositive (negative : Bool) (x y : Binary64) : Binary64 :=
  let grows := (1 ≤ x.floorMagnitude) != y.negative
  let beyond := if grows then infinity negative else zero negative
  if y.reaches (2 ^ 65) then beyond
  else
    let exponentOf (bits : Nat) : Int :=
      let product := fixedLog (bits + 100) x * y.significand * 2 ^ y.exponent.toNat
      let product := product.tdiv (2 ^ ((-y.exponent).toNat + 100))
      if y.negative then -product else product
    if expLimit ≤ (exponentOf guardBits).natAbs / 2 ^ guardBits then beyond
    else roundReal fun bits =>
      let bits := bits + guardBits
      let e := encloseExp bits (exponentOf bits)
      { e with center := if negative then -e.center else e.center }

/-- The power. A negative base needs an integral exponent. -/
def pow (x y : Binary64) : Binary64 :=
  let one := roundRatio false 1 1
  if y.magnitude = 0 || x = one then one
  else if x.isNaN || y.isNaN then nan
  else if !y.isFinite then
    if x.magnitude = one.magnitude then one
    else if (one.magnitude < x.magnitude) != y.negative then infinity false else zero false
  else
    let negative := x.negative && y.isOddInteger
    if x.magnitude = 0 || !x.isFinite then
      if (x.magnitude = 0) != y.negative then zero negative else infinity negative
    else if x.magnitude = one.magnitude then
      if y.isInteger then roundRatio negative 1 1 else nan
    else if x.negative && !y.isInteger then nan
    else powPositive negative (ofMagnitude false x.magnitude) y

/-! ## Circular functions -/

/-- The sine and the cosine of the magnitude of a finite number. A multiple of a right angle is
taken away first, of which so many more bits are needed as the number has in front of the
point. -/
def circular (bits : Nat) (x : Binary64) : Int × Int :=
  let extra := x.integerLength + 8
  let wide := bits + extra
  let quarter := pi wide / 2
  let t := x.fixed wide
  let n := (2 * t + quarter) / (2 * quarter)
  let r := (t - n * quarter) / 2 ^ extra
  let s := FixedPoint.sin bits r
  let c := FixedPoint.cos bits r
  match n % 4 with
  | 0 => (s, c)
  | 1 => (c, -s)
  | 2 => (-s, -c)
  | _ => (-c, s)

/-- The sine. -/
def sin (x : Binary64) : Binary64 :=
  if !x.isFinite then nan
  else if x.magnitude = 0 then x
  else roundReal fun bits =>
    let bits := workingBits bits x
    enclose x.negative bits (circular bits x).1

/-- The cosine. -/
def cos (x : Binary64) : Binary64 :=
  if !x.isFinite then nan
  else roundReal fun bits =>
    let bits := bits + guardBits
    enclose false bits (circular bits x).2

/-- The tangent. A small cosine makes the quotient less certain. -/
def tan (x : Binary64) : Binary64 :=
  if !x.isFinite then nan
  else if x.magnitude = 0 then x
  else roundReal fun bits =>
    let bits := workingBits bits x
    let (s, c) := circular bits x
    let value := ratio bits s c
    let certain := c.natAbs - slack
    let error := (slack * 2 ^ bits + slack * value.natAbs) / certain + slack
    { enclose x.negative bits value with
      error := if certain = 0 then value.natAbs + slack else error }

/-! ## Inverse circular functions -/

/-- The inverse tangent of a ratio of natural numbers, which are not both zero. -/
def fixedAtan (bits num den : Nat) : Int :=
  if num ≤ den then FixedPoint.atan bits (ratio bits num den)
  else pi bits / 2 - FixedPoint.atan bits (ratio bits den num)

/-- The inverse tangent of the square root of a ratio, which are not both zero. -/
def fixedAtanSqrt (bits num den : Nat) : Int :=
  if num ≤ den then FixedPoint.atan bits (isqrt (num * 4 ^ bits / den))
  else pi bits / 2 - FixedPoint.atan bits (isqrt (den * 4 ^ bits / num))

/-- A finite magnitude as a numerator over this denominator. -/
def denominator (x : Binary64) : Nat := 2 ^ (-x.exponent).toNat

/-- The numerator of a finite magnitude. -/
def numerator (x : Binary64) : Nat := x.significand * 2 ^ x.exponent.toNat

/-- Half a turn, or a fraction of it. -/
def turn (negative : Bool) (num den : Nat) : Binary64 :=
  roundReal fun bits =>
    let bits := bits + guardBits
    enclose negative bits (pi bits * num / den)

/-- The inverse tangent. -/
def atan (x : Binary64) : Binary64 :=
  if x.magnitude = 0 || x.isNaN then x
  else if !x.isFinite then turn x.negative 1 2
  else roundReal fun bits =>
    let bits := workingBits bits x
    enclose x.negative bits (fixedAtan bits x.numerator x.denominator)

/-- The inverse sine: the inverse tangent of `x / √(1 - x²)`. -/
def asin (x : Binary64) : Binary64 :=
  let m := x.numerator
  let d := x.denominator
  if x.magnitude = 0 || x.isNaN then x
  else if !x.isFinite || d < m then nan
  else roundReal fun bits =>
    let bits := workingBits bits x
    enclose x.negative bits (fixedAtanSqrt bits (m * m) (d * d - m * m))

/-- The inverse cosine: twice the inverse tangent of `√((1 - x) / (1 + x))`. -/
def acos (x : Binary64) : Binary64 :=
  let m := x.numerator
  let d := x.denominator
  if x.isNaN || !x.isFinite || d < m then nan
  else if m = d then if x.negative then turn false 1 1 else zero false
  else roundReal fun bits =>
    let bits := bits + guardBits
    let (num, den) := if x.negative then (d + m, d - m) else (d - m, d + m)
    enclose false bits (2 * fixedAtanSqrt bits num den)

/-- The angle of the point with ordinate `y` and abscissa `x`. -/
def atan2 (y x : Binary64) : Binary64 :=
  if x.isNaN || y.isNaN then nan
  else if y.magnitude = 0 then if x.negative then turn y.negative 1 1 else zero y.negative
  else if x.magnitude = 0 then turn y.negative 1 2
  else if !y.isFinite then
    if x.isFinite then turn y.negative 1 2
    else if x.negative then turn y.negative 3 4 else turn y.negative 1 4
  else if !x.isFinite then if x.negative then turn y.negative 1 1 else zero y.negative
  else roundReal fun bits =>
    let bits := bits + guardBits
    let num := y.numerator * x.denominator
    let den := x.numerator * y.denominator
    let angle := fixedAtan bits num den
    enclose y.negative bits (if x.negative then pi bits - angle else angle)

end Reckon.Binary64
