import Reckon.Evaluation.Expr
import Reckon.Expr.Reader

/-!
# Sessions

A session evaluates one expression after the other. What one assigns, the later ones can read, and
the value of the last one that had a value is bound to `Ans`. Follows `Calculator` with its
`evaluate` and `variable` (specification, 4.4 and 10.6).
-/

namespace Reckon

/-- Why a text has no value. -/
inductive Failure
  /-- It is no expression. -/
  | unreadable (error : SyntaxError)
  /-- The expression has no value. -/
  | unevaluable (error : EvalError)

/-- What the failure says. -/
def Failure.message : Failure → String
  | .unreadable e => e.message
  | .unevaluable e => e.message

/-- The variable that holds the last value. -/
def lastValue : String := "Ans"

/-- A session, by the environment that it evaluates in. -/
structure Session where
  environment : Environment

namespace Session

/-- A session without variables. -/
def new (random : RandomSource) : Session := ⟨⟨.empty, random⟩⟩

/-- The session after an evaluation. -/
def run (s : Session) (evaluation : Evaluation α) : Except EvalError α × Session :=
  match evaluation.run s.environment with
  | .ok value env => (.ok value, ⟨env⟩)
  | .error e env => (.error e, ⟨env⟩)

/-- Evaluates a tree; its value becomes the last one. -/
def evalTree (e : Expr) : Evaluation Decimal := do
  let value ← e.eval
  .assign lastValue value
  return value

/-- Evaluates a text and gives the text of its value. -/
def evaluate (s : Session) (text : String) : Except Failure String × Session :=
  match Expr.parse text with
  | .error e => (.error (.unreadable e), s)
  | .ok e =>
    match s.run (evalTree e) with
    | (.ok value, s) => (.ok value.render, s)
    | (.error e, s) => (.error (.unevaluable e), s)

/-- The number that a variable is bound to. -/
def valueOf? (s : Session) (name : String) : Option Decimal :=
  s.environment.bindings.number? name

end Session

end Reckon
