import Reckon.Builtin.Rule

/-!
# Evaluating expressions

The evaluation of a tree is put together from the evaluations of its parts. A variable has the
value of the tree that it is bound to. For a number that is the number itself; any other tree is
evaluated anew, and since it may read the variable again, the depth to which such trees are
followed is bounded here. Where all variables are bound to numbers, as in every session, the bound
plays no part.

Follows `eval`, `eval_variable` and `eval_assignment` (specification, 4.4), which know no bound.
-/

namespace Reckon

namespace Evaluation

/-- The value of a tree that a variable is bound to, where `follow` evaluates it unless it is a
number. -/
def ofBinding (follow : String → Expr → Evaluation Decimal) (name : String) :
    Expr → Evaluation Decimal
  | .num value => pure value
  | tree => follow name tree

/-- Assigns a value to the variable that the target is. -/
def toTarget (value : Evaluation Decimal) : Expr → Evaluation Decimal
  | .var name => do
    let value ← value
    assign name value
    return value
  | target => throw (.notAssignable target)

end Evaluation

namespace Expr

mutual

/-- The evaluation of an expression, where `follow` evaluates the trees that variables are bound
to. -/
def evalWith (follow : String → Expr → Evaluation Decimal) : Expr → Evaluation Decimal
  | num value => pure value
  | var name => do .ofBinding follow name (← .lookup name)
  | unary op operand => do .lift (op.eval (← evalWith follow operand))
  | binary op left right => do
    let a ← evalWith follow left
    let b ← evalWith follow right
    .lift (op.eval a b)
  | assign target value => .toTarget (evalWith follow value) target
  | call name f arguments => f.perform name (evalAllWith follow arguments)

/-- The evaluations of several expressions. -/
def evalAllWith (follow : String → Expr → Evaluation Decimal) :
    List Expr → List (Evaluation Decimal)
  | [] => []
  | e :: rest => evalWith follow e :: evalAllWith follow rest

end

/-- The evaluation of an expression that follows the trees of variables to the given depth. -/
def evalTo : Nat → Expr → Evaluation Decimal
  | 0 => evalWith fun name _ => throw (.endlessVariable name)
  | depth + 1 => evalWith fun _ tree => evalTo depth tree

/-- How deep the trees of variables are followed. The bound is one of this library: the calculator
has none, and the evaluation of a variable that is bound to a tree which reads it again does not
end. It is never reached where variables are bound to numbers, and those are all that an assignment
binds. What an evaluation means without a bound is said by the relation `Evaluates`. -/
def followDepth : Nat := 1000

/-- The evaluation of an expression. -/
def eval (e : Expr) : Evaluation Decimal := evalTo followDepth e

end Expr

end Reckon
