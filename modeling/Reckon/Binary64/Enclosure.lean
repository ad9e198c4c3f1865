import Reckon.Binary64.Basic

/-!
# Rounding from enclosures

A real number is known by an enclosure, an interval of dyadic numbers that holds it. As soon as
both ends of the interval round to one binary64 number, that is what the real number rounds to.
`roundReal` looks at ever narrower enclosures until this happens. It never happens for a number
that is exactly half way between two binary64 numbers; such a number has few digits, so after the
last enclosure its midpoint is cut to those digits and rounded.
-/

namespace Reckon.Binary64

/-- The numbers between `(center - error) * 2 ^ exponent` and `(center + error) * 2 ^ exponent`. -/
structure Enclosure where
  center : Int
  error : Nat
  exponent : Int

namespace Enclosure

/-- The binary64 number nearest to `n * 2 ^ q`. -/
def roundInt (n : Int) (q : Int) : Binary64 := roundDyadic (n < 0) n.natAbs q

/-- The binary64 number that all numbers of the enclosure round to. -/
def round? (e : Enclosure) : Option Binary64 :=
  let low := roundInt (e.center - e.error) e.exponent
  let high := roundInt (e.center + e.error) e.exponent
  if low = high then some low else none

/-- More digits than a number half way between two binary64 numbers has. -/
def halfWayBits : Nat := 80

/-- The midpoint cut to a few digits and rounded. -/
def roundMidpoint (e : Enclosure) : Binary64 :=
  let length := e.center.natAbs.log2 + 1
  let unit : Int := 2 ^ (length - halfWayBits)
  roundInt ((2 * e.center + unit) / (2 * unit) * unit) e.exponent

end Enclosure

/-- The numbers of bits that enclosures are asked for. -/
def precisions : List Nat := [80, 160, 400, 1200, 2600]

/-- The binary64 number nearest to the real number that `enclose` encloses, more narrowly the more
bits it is asked for. -/
def roundReal (enclose : Nat → Enclosure) : Binary64 :=
  match precisions.findSome? fun bits => (enclose bits).round? with
  | some x => x
  | none => (enclose 400).roundMidpoint

end Reckon.Binary64
