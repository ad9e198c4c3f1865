import Reckon.Decimal.Basic

/-!
# Decimals as text

`Decimal.render` writes a decimal so that both its value and its scale can be read off.

* Plainly, when the scale is not negative and the first digit stands no further right than the
  sixth place after the point: `12`, `1.20`, `0.0012`.
* Otherwise in scientific form, with one digit before the point and an exponent that always has
  its sign: `1E+3`, `1.20E+3`, `1.5E-7`.

Follows `fmt` of `Decimal` (specification, 4.1).
-/

namespace Reckon.Decimal

/-- The exponent of the first digit when the rest is moved behind the point. -/
def adjusted (d : Decimal) : Int := d.digits - 1 - d.scale

/-- The digits with a point in front of the last `scale` of them. -/
def plain (digits : List Char) (scale : Nat) : List Char :=
  if scale = 0 then digits
  else if scale < digits.length then
    digits.take (digits.length - scale) ++ '.' :: digits.drop (digits.length - scale)
  else '0' :: '.' :: (List.replicate (scale - digits.length) '0' ++ digits)

/-- The first digit, the others behind the point, and the exponent with its sign. -/
def scientific (digits : List Char) (exponent : Int) : List Char :=
  digits.take 1 ++ (if digits.length ≤ 1 then [] else '.' :: digits.drop 1) ++
    'E' :: (if exponent < 0 then '-' else '+') :: Nat.toDigits 10 exponent.natAbs

/-- The text of a decimal, character by character. -/
def chars (d : Decimal) : List Char :=
  let digits := Nat.toDigits 10 d.unscaled.natAbs
  let sign := if d.unscaled < 0 then ['-'] else []
  if 0 ≤ d.scale.toInt ∧ -6 ≤ d.adjusted then sign ++ plain digits d.scale.toInt.toNat
  else sign ++ scientific digits d.adjusted

/-- The text of a decimal. -/
def render (d : Decimal) : String := String.ofList d.chars

end Reckon.Decimal
