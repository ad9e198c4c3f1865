import Reckon.Decimal.Literal
import Reckon.Decimal.Printer

/-!
# Arithmetic errors

The ways in which an operation on decimals has no result, each with its message, and the reading
of a signed decimal, which fails in one of them. Follows `Error` and `from_str` (specification, 7
and 10.2).
-/

namespace Reckon

/-- Why an arithmetic operation has no result. -/
inductive ArithmeticError
  /-- The divisor is zero. -/
  | divisionByZero
  /-- The text is no decimal literal, or its scale does not fit in 64 bits. -/
  | malformedNumber (text : String)
  /-- The scale of the result does not fit in 64 bits, or too many zeros would have to be
  written out. -/
  | scaleOverflow
  /-- The scale of a power does not fit in 64 bits. -/
  | exponentTooLarge
  /-- The exponent is an integer beyond 32 bits. -/
  | exponentOutOfRange (exponent : Decimal)
  /-- The operation takes integers only. -/
  | notIntegral (operation : String) (operand : Decimal)
  /-- The integer does not fit in the width its role has. -/
  | outOfRange (role : String) (n : Int)
  /-- The factorial of a negative integer. -/
  | negativeFactorial (n : Int)
  /-- The binary64 result is infinite or no number. -/
  | notFinite (operation : String)
deriving DecidableEq

/-- The integer as text. -/
def Decimal.renderInt (n : Int) : String := (Decimal.ofInt n).render

/-- What the error says. -/
def ArithmeticError.message : ArithmeticError → String
  | .divisionByZero => "division by zero"
  | .malformedNumber text => "malformed number '" ++ text ++ "'"
  | .scaleOverflow => "scale overflow"
  | .exponentTooLarge => "exponent is too large"
  | .exponentOutOfRange exponent => "exponent " ++ exponent.render ++ " is out of range"
  | .notIntegral operation operand => operation ++ ": " ++ operand.render ++ " is not an integer"
  | .outOfRange role n => role ++ " " ++ Decimal.renderInt n ++ " is out of range"
  | .negativeFactorial n => "factorial: " ++ Decimal.renderInt n ++ " is negative"
  | .notFinite operation => operation ++ ": result is not a finite number"

namespace Decimal

/-- The decimal that an unsigned literal stands for. -/
def readLiteral (text : List Char) : Except ArithmeticError Decimal :=
  match ofLiteral? text with
  | some d => .ok d
  | none => .error (.malformedNumber (String.ofList text))

/-- The decimal that a literal stands for, with one sign in front at most. -/
def read (text : String) : Except ArithmeticError Decimal :=
  match text.toList with
  | '-' :: literal => (readLiteral literal).map neg
  | '+' :: literal => readLiteral literal
  | literal => readLiteral literal

end Decimal

end Reckon
