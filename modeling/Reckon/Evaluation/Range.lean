import Reckon.Decimal.Arithmetic
import Reckon.Decimal.Order
import Reckon.Decimal.Rounding
import Reckon.Evaluation.Basic

/-!
# Ranges

`sum` and `product` evaluate a body for every number of a range and combine the values. The
numbers start at the lower bound, go on by one, and end at the upper bound, whose fraction is
dropped. Each is bound to the variable `i` before the body is evaluated; what `i` was bound to
before the range is bound to it again afterwards.

The number of steps is known before the first one. Only a lower bound whose digits cannot be
written out has no such number; then the first step is also the last, since the next number of
the range cannot be formed either.

Follows `accumulate` and `run`, which do not count the steps but compare the number with the upper
bound before each of them (specification, 4.5 and 10.7).
-/

namespace Reckon

/-- The variable that takes the numbers of a range. -/
def loopVariable : String := "i"

namespace Evaluation

/-- How many numbers `first`, `first + 1`, … are at most `last`. -/
def steps (first : Decimal) (last : Decimal) : Nat :=
  match first.ceil with
  | .ok least => (last.unscaled + 1 - least.unscaled).toNat
  | .error _ => if first.leValue last then 1 else 0

/-- A number of steps from `i` on. -/
def repeatBody (combine : Decimal → Decimal → Except ArithmeticError Decimal)
    (body : Evaluation Decimal) : Nat → Decimal → Decimal → Evaluation Decimal
  | 0, _, result => pure result
  | count + 1, i, result => do
    assign loopVariable i
    let value ← body
    let result ← lift (combine result value)
    let i ← lift (i.add .one)
    repeatBody combine body count i result

/-- The values of the body over a range, combined from `start` on. -/
def overRange (start : Decimal) (combine : Decimal → Decimal → Except ArithmeticError Decimal)
    (lower upper body : Evaluation Decimal) : Evaluation Decimal := do
  let first ← lower
  let last ← upper
  let last ← lift last.trunc
  withLocal loopVariable (repeatBody combine body (steps first last) first start)

end Evaluation

end Reckon
