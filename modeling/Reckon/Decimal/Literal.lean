import Reckon.Decimal.Basic

/-!
# Decimal literals

A literal is a mantissa, digits with at most one point, and possibly an exponent: `12`, `1.00`,
`.5`, `1.`, `1.2E3`. Its scale is the number of digits behind the point less the exponent, so the
way it is written is kept: `1.00` has scale 2 and `1.2E3` has scale -2. The exponent and the scale
have to fit in 64 bits. Follows `parse_literal` (specification, 4.1 and 10.6).
-/

namespace Reckon.Decimal

/-- A signed 64-bit exponent: a sign at most, then at least one digit. -/
def exponent? (text : List Char) : Option Int :=
  match text with
  | '-' :: digits => (magnitude? digits).bind fun n => (Scale.ofInt? (-(n : Int))).map Scale.toInt
  | '+' :: digits => (magnitude? digits).bind fun n => (Scale.ofInt? n).map Scale.toInt
  | digits => (magnitude? digits).bind fun n => (Scale.ofInt? n).map Scale.toInt
where
  /-- At least one digit and nothing else. -/
  magnitude? (digits : List Char) : Option Nat :=
    if digits ≠ [] ∧ digits.all Char.isDigit then some (ofDigits 10 digits) else none

/-- Whether `c` opens the exponent of a literal. -/
def isExponentMark (c : Char) : Bool := c = 'e' || c = 'E'

/-- The decimal that an unsigned literal stands for. -/
def ofLiteral? (text : List Char) : Option Decimal :=
  let mantissa := text.takeWhile (!isExponentMark ·)
  let whole := mantissa.takeWhile (· ≠ '.')
  let fraction := (mantissa.dropWhile (· ≠ '.')).drop 1
  let exponent := match text.dropWhile (!isExponentMark ·) with
    | [] => some 0
    | _ :: rest => exponent? rest
  exponent.bind fun exponent =>
    if whole ++ fraction ≠ [] ∧ (whole ++ fraction).all Char.isDigit then
      (Scale.ofInt? (fraction.length - exponent)).map fun scale =>
        ⟨ofDigits 10 (whole ++ fraction), scale⟩
    else
      none

end Reckon.Decimal
