import Reckon.Decimal.Integral

/-!
# Factorials

Follows `factorial` (specification, 4.5).
-/

namespace Reckon

/-- The product of the natural numbers from one to `n`. -/
def factorialOf (n : Nat) : Nat := (List.range n).foldl (fun product k => product * (k + 1)) 1

/-- The factorial of a natural number of at most 64 bits. -/
def Decimal.factorial (d : Decimal) : Except ArithmeticError Decimal := do
  let n ← d.integerOperand "factorial"
  if n < 0 then throw (.negativeFactorial n)
  let n ← checkWidth 64 "factorial operand" n
  return ofInt (factorialOf n)

end Reckon
