import Reckon.Bindings
import Reckon.Builtin.Arity
import Reckon.Decimal.Error
import Reckon.Random

/-!
# Evaluations

An evaluation runs in an environment, the bindings of the variables and a source of random
numbers. It has a value or an error, and it leaves an environment behind in both cases: what was
assigned before an error stays assigned. Follows `Context` and the errors of an evaluation in
`Error` (specification, 4.4 and 10.2).
-/

namespace Reckon

/-- What an expression is evaluated in. -/
structure Environment where
  bindings : Bindings
  random : RandomSource

/-- Why an expression has no value. -/
inductive EvalError
  /-- The variable is not bound. -/
  | unknownVariable (name : String)
  /-- The variable is bound to a tree that reads it again, too often. The calculator has no such
  error: there such an evaluation does not end, as `Expr.followDepth` says. -/
  | endlessVariable (name : String)
  /-- The left side of an assignment is no variable. -/
  | notAssignable (target : Expr)
  /-- The function takes another number of arguments. -/
  | argumentCount (function : String) (expected : Arity) (found : Nat)
  /-- An operation has no result. -/
  | arithmetic (error : ArithmeticError)

/-- What the error says. -/
def EvalError.message : EvalError → String
  | .unknownVariable name => "unknown variable '" ++ name ++ "'"
  | .endlessVariable name => "variable '" ++ name ++ "' depends on itself"
  | .notAssignable target => "can't assign to " ++ target.render
  | .argumentCount function expected found =>
    "'" ++ function ++ "' expects " ++ expected.describe ++ " argument(s), got " ++ toString found
  | .arithmetic error => error.message

/-- A computation in an environment. -/
abbrev Evaluation := EStateM EvalError Environment

namespace Evaluation

/-- The result of an operation on numbers. -/
def lift (result : Except ArithmeticError α) : Evaluation α :=
  match result with
  | .ok value => pure value
  | .error e => throw (.arithmetic e)

/-- The tree that a variable is bound to. -/
def lookup (name : String) : Evaluation Expr := do
  match (← get).bindings.get? name with
  | some tree => return tree
  | none => throw (.unknownVariable name)

/-- Binds a variable to a number. -/
def assign (name : String) (value : Decimal) : Evaluation Unit :=
  modify fun env => { env with bindings := env.bindings.insert name (.num value) }

/-- Draws a random number. -/
def draw : Evaluation Binary64 := do
  let env ← get
  set { env with random := env.random.next }
  return env.random.draw

/-- Runs a computation with a variable unbound at first, and binds the variable again as it was
before, whether the computation succeeds or fails. -/
def withLocal (name : String) (body : Evaluation α) : Evaluation α := fun env =>
  let saved := env.bindings.get? name
  let restored (env : Environment) : Environment :=
    { env with bindings := env.bindings.restore name saved }
  match body { env with bindings := env.bindings.erase name } with
  | .ok value env => .ok value (restored env)
  | .error e env => .error e (restored env)

/-- The values of several computations, run one after the other. -/
def all : List (Evaluation α) → Evaluation (List α)
  | [] => pure []
  | first :: rest => do
    let value ← first
    let values ← all rest
    return value :: values

end Evaluation

end Reckon
