import Reckon.Builtin.Basic
import Reckon.Decimal.Printer
import Reckon.Token.Basic

/-!
# Expressions

The tree of an expression. `render` writes it with a pair of parentheses around every operator, so
that its shape can be read off the text and the text has no other reading: `1+2*3` is written as
`(1 + (2 * 3))`. Follows `Expr` and its `fmt`, `UnaryOperator` and `BinaryOperator` (specification,
3).
-/

namespace Reckon

/-- The operators with one operand. -/
inductive UnaryOp
  /-- One if the operand is zero, else zero; written in front. -/
  | not
  /-- The factorial; written behind. -/
  | factorial
deriving DecidableEq, Repr

/-- The operators that combine the values of two operands. -/
inductive BinaryOp
  | equal | notEqual | less | lessEqual | greater | greaterEqual
  | shiftLeft | shiftRight
  | add | sub
  | mul | div | mod
  | pow
deriving DecidableEq, Repr

namespace BinaryOp

/-- The symbol of an operator. -/
def symbol : BinaryOp → Symbol
  | equal => .equalEqual
  | notEqual => .bangEqual
  | less => .less
  | lessEqual => .lessEqual
  | greater => .greater
  | greaterEqual => .greaterEqual
  | shiftLeft => .shiftLeft
  | shiftRight => .shiftRight
  | add => .plus
  | sub => .minus
  | mul => .star
  | div => .slash
  | mod => .percent
  | pow => .caret

/-- All operators. -/
def all : List BinaryOp :=
  [equal, notEqual, less, lessEqual, greater, greaterEqual, shiftLeft, shiftRight, add, sub, mul,
   div, mod, pow]

/-- The operator of a symbol. -/
def ofSymbol? (s : Symbol) : Option BinaryOp := all.find? fun op => op.symbol = s

end BinaryOp

/-- An expression. -/
inductive Expr
  /-- A number. -/
  | num (value : Decimal)
  /-- The value of a variable. -/
  | var (name : String)
  | unary (op : UnaryOp) (operand : Expr)
  | binary (op : BinaryOp) (left right : Expr)
  /-- The value, bound to the variable that the target has to be. -/
  | assign (target value : Expr)
  /-- A function, called by one of its names. -/
  | call (name : String) (function : Builtin) (arguments : List Expr)

namespace Expr

/-- The call of a function by its first name. -/
def apply (f : Builtin) (arguments : List Expr) : Expr := call f.name f arguments

mutual

/-- The text of an expression, every operator in parentheses. -/
def render : Expr → String
  | num value => value.render
  | var name => name
  | unary .not operand => "(!" ++ operand.render ++ ")"
  | unary .factorial operand => "(" ++ operand.render ++ "!)"
  | binary op left right =>
    "(" ++ left.render ++ " " ++ op.symbol.text ++ " " ++ right.render ++ ")"
  | assign target value => "(" ++ target.render ++ " = " ++ value.render ++ ")"
  | call name _ arguments => name ++ "(" ++ renderAll arguments ++ ")"

/-- The texts of expressions with commas between them. -/
def renderAll : List Expr → String
  | [] => ""
  | [e] => e.render
  | e :: rest => e.render ++ ", " ++ renderAll rest

end

end Expr

end Reckon
