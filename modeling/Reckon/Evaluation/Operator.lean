import Reckon.Binary64.Functions
import Reckon.Decimal.Binary64
import Reckon.Decimal.Bits
import Reckon.Decimal.Factorial
import Reckon.Decimal.Order
import Reckon.Expr.Basic

/-!
# Operators

What the operators of an expression do to the values of their operands. Comparisons give one or
zero. Follows `eval_unary_op`, `eval_binary` and `power` (specification, 4.1 and 10.6).
-/

namespace Reckon

namespace Decimal

/-- The power. An integral exponent gives an exact power, or one divided by it, and has to have at
most 64 bits; any other exponent is left to binary64. -/
def power (base exponent : Decimal) : Except ArithmeticError Decimal := do
  match ← exponent.toInteger with
  | some n =>
    if n < -2 ^ 63 ∨ 2 ^ 63 ≤ n then throw (.exponentOutOfRange exponent)
    base.powInt n
  | none => ofResult "'^'" (base.toBinary64.pow exponent.toBinary64)

end Decimal

/-- The value of an operator with one operand. -/
def UnaryOp.eval (op : UnaryOp) (a : Decimal) : Except ArithmeticError Decimal :=
  match op with
  | .not => .ok (.ofBool a.isZero)
  | .factorial => a.factorial

/-- The value of an operator with two operands. -/
def BinaryOp.eval (op : BinaryOp) (a b : Decimal) : Except ArithmeticError Decimal :=
  match op with
  | .equal => .ok (.ofBool (a.eqValue b))
  | .notEqual => .ok (.ofBool (!a.eqValue b))
  | .less => .ok (.ofBool (a.ltValue b))
  | .lessEqual => .ok (.ofBool (a.leValue b))
  | .greater => .ok (.ofBool (b.ltValue a))
  | .greaterEqual => .ok (.ofBool (b.leValue a))
  | .shiftLeft => Decimal.shift "'<<'" true a b
  | .shiftRight => Decimal.shift "'>>'" false a b
  | .add => a.add b
  | .sub => a.sub b
  | .mul => a.mul b
  | .div => a.div b
  | .mod => a.rem b
  | .pow => a.power b

end Reckon
