import Reckon.Power

/-!
# Elementary functions in fixed point

Approximations of logarithms, exponentials and circular functions by integers: with `bits` bits
behind the point, the integer `v` stands for `v / 2 ^ bits`. All of them are sums of power series
whose terms are cut off at the last bit, so that a sum ends when its terms vanish, and they are
off by a few units for every term. The functions of `Reckon.Binary64.Functions` add guard bits and
allow for `slack` units.
-/

namespace Reckon.FixedPoint

/-- The sum of `part n t` over the terms `t` that start at `term` and go on by `step`, up to the
first that is zero. -/
def series (step part : Nat → Int → Int) : Nat → Nat → Int → Int → Int
  | 0, _, _, sum => sum
  | fuel + 1, n, term, sum =>
    if term = 0 then sum else series step part fuel (n + 1) (step n term) (sum + part n term)

/-- The number one. -/
def one (bits : Nat) : Int := 2 ^ bits

/-- The ratio of two integers. -/
def ratio (bits : Nat) (num den : Int) : Int := (num * 2 ^ bits).tdiv den

/-- The inverse hyperbolic tangent, of arguments up to one half. -/
def atanh (bits : Nat) (z : Int) : Int :=
  let square := (z * z).tdiv (one bits)
  series (fun _ t => (t * square).tdiv (one bits)) (fun n t => t.tdiv (2 * n + 1)) bits 0 z 0

/-- The natural logarithm of two. -/
def ln2 (bits : Nat) : Int := 2 * atanh bits (ratio bits 1 3)

/-- The natural logarithm of ten, which is `2 ^ 3 * (5 / 4)`. -/
def ln10 (bits : Nat) : Int := 3 * ln2 bits + 2 * atanh bits (ratio bits 1 9)

/-- The exponential function, of arguments up to one. -/
def exp (bits : Nat) (r : Int) : Int :=
  series (fun n t => (t * r).tdiv ((n + 1) * one bits)) (fun _ t => t) (bits + 2) 0 (one bits) 0

/-- The sine, of arguments up to one. -/
def sin (bits : Nat) (r : Int) : Int :=
  let square := (r * r).tdiv (one bits)
  series (fun n t => (-(t * square)).tdiv ((2 * n + 2) * (2 * n + 3) * one bits)) (fun _ t => t)
    bits 0 r 0

/-- The cosine, of arguments up to one. -/
def cos (bits : Nat) (r : Int) : Int :=
  let square := (r * r).tdiv (one bits)
  series (fun n t => (-(t * square)).tdiv ((2 * n + 1) * (2 * n + 2) * one bits)) (fun _ t => t)
    (bits + 2) 0 (one bits) 0

/-- The sum of the power series of the inverse tangent, of arguments up to one half. -/
def atanSeries (bits : Nat) (z : Int) : Int :=
  let square := (z * z).tdiv (one bits)
  series (fun _ t => (-(t * square)).tdiv (one bits)) (fun n t => t.tdiv (2 * n + 1)) bits 0 z 0

/-- The ratio of a circle's circumference to its diameter. -/
def pi (bits : Nat) : Int :=
  16 * atanSeries bits (ratio bits 1 5) - 4 * atanSeries bits (ratio bits 1 239)

/-- The integer square root: the largest number whose square is at most `n`. -/
def isqrt (n : Nat) : Nat :=
  if _h : n = 0 then 0
  else
    let r := 2 * isqrt (n / 4)
    if (r + 1) * (r + 1) ≤ n then r + 1 else r
termination_by n
decreasing_by omega

/-- The integer cube root: the largest number whose cube is at most `n`. -/
def icbrt (n : Nat) : Nat :=
  if _h : n = 0 then 0
  else
    let r := 2 * icbrt (n / 8)
    if (r + 1) * (r + 1) * (r + 1) ≤ n then r + 1 else r
termination_by n
decreasing_by omega

/-- The tangent of half an angle, from that of the angle. -/
def halveTan (bits : Nat) (t : Int) : Int :=
  let secant : Int := isqrt (one bits * one bits + t * t).toNat
  (t * one bits).tdiv (one bits + secant)

/-- The inverse tangent, of arguments from zero to one. The angle is halved three times first. -/
def atan (bits : Nat) (t : Int) : Int :=
  8 * atanSeries bits (halveTan bits (halveTan bits (halveTan bits t)))

end Reckon.FixedPoint
