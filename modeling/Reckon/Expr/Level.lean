import Reckon.Expr.Basic

/-!
# Levels of precedence

The grammar of expressions has thirteen levels, from the one that binds least to the one that
binds most.

    assignment   :=  disjunction ("=" disjunction)?
    disjunction  :=  conjunction ("|" conjunction)*
    conjunction  :=  negation ("&" negation)*
    negation     :=  "!" negation  |  relation
    relation     :=  shift (("==" | "!=" | "<" | "<=" | ">" | ">=") shift)*
    shift        :=  sum (("<<" | ">>") sum)*
    sum          :=  product (("+" | "-") product)*
    product      :=  sign (("*" | "/" | "%") sign)*
    sign         :=  ("-" | "~") sign  |  root
    root         :=  "√" root  |  power
    power        :=  factorial ("^" power)?
    factorial    :=  operand "!"?
    operand      :=  number  |  constant  |  variable  |  "(" assignment ")"
                  |  function "(" (assignment ("," assignment)*)? ")"

The operators of a level are functions on trees. `|`, `&`, `~` and `√` are calls of functions, and
`-x` is `0 - x`. The levels are those of `parse_expression`, `parse_logical_or`,
`parse_logical_and`, `parse_logical_not`, `parse_relational`, `parse_shift`, `parse_additive`,
`parse_multiplicative`, `parse_unary`, `parse_square_root`, `parse_exponent`, `parse_factorial` and
`parse_primary`, in this order (specification, 4.3).
-/

namespace Reckon

/-- The levels of precedence, the loosest first. -/
inductive Level
  | assignment | disjunction | conjunction | negation | relation | shift | sum | product | sign
  | root | power | factorial | operand
deriving DecidableEq, Repr

namespace Level

/-- The next level that binds more. -/
def tighter : Level → Level
  | assignment => disjunction
  | disjunction => conjunction
  | conjunction => negation
  | negation => relation
  | relation => shift
  | shift => sum
  | sum => product
  | product => sign
  | sign => root
  | root => power
  | power => factorial
  | factorial => operand
  | operand => operand

/-- The operators that join a chain of operands of the next level, from the left. -/
def joining? : Level → Symbol → Option (Expr → Expr → Expr)
  | disjunction, .pipe => some fun a b => .apply .bitOr [a, b]
  | conjunction, .ampersand => some fun a b => .apply .bitAnd [a, b]
  | relation, .equalEqual => some (.binary .equal)
  | relation, .bangEqual => some (.binary .notEqual)
  | relation, .less => some (.binary .less)
  | relation, .lessEqual => some (.binary .lessEqual)
  | relation, .greater => some (.binary .greater)
  | relation, .greaterEqual => some (.binary .greaterEqual)
  | shift, .shiftLeft => some (.binary .shiftLeft)
  | shift, .shiftRight => some (.binary .shiftRight)
  | sum, .plus => some (.binary .add)
  | sum, .minus => some (.binary .sub)
  | product, .star => some (.binary .mul)
  | product, .slash => some (.binary .div)
  | product, .percent => some (.binary .mod)
  | _, _ => none

/-- The operators in front of an operand of the same level. -/
def leading? : Level → Symbol → Option (Expr → Expr)
  | negation, .bang => some (.unary .not)
  | sign, .minus => some (.binary .sub (.num .zero))
  | sign, .tilde => some fun a => .apply .bitNot [a]
  | root, .root => some fun a => .apply .sqrt [a]
  | _, _ => none

end Level

end Reckon
