import Reckon.Builtin.Basic
import Reckon.Decimal.Prime
import Reckon.Evaluation.Operator
import Reckon.Evaluation.Range

/-!
# Rules of the builtin functions

Every builtin function is given by a rule, which says what it does with its arguments. Most rules
evaluate their arguments from left to right and combine the values; those of `sum` and `product`
evaluate the third one again and again. A rule reads a certain number of arguments, and that is the
number its function takes. Follows `apply` and `implementation` (specification, 4.5).

Results:
* `perform_isSome`: a rule can be carried out exactly on as many arguments as it reads.
* `isSome_perform?`: these are as many as the arity of its function accepts.
-/

namespace Reckon

/-- What a function does with its arguments. -/
inductive Rule
  /-- A function of one number. -/
  | unary (f : Decimal → Except ArithmeticError Decimal)
  /-- A function of two numbers. -/
  | binary (f : Decimal → Decimal → Except ArithmeticError Decimal)
  /-- A function of one number or of two. -/
  | either (f : Decimal → Except ArithmeticError Decimal)
      (g : Decimal → Decimal → Except ArithmeticError Decimal)
  /-- A function of two numbers or more. -/
  | several (f : Decimal → List Decimal → Except ArithmeticError Decimal)
  /-- A random number. -/
  | random
  /-- The values of a body over a range, combined from a start on. -/
  | range (start : Decimal) (combine : Decimal → Decimal → Except ArithmeticError Decimal)

namespace Rule

/-- How many arguments the rule reads. -/
def arity : Rule → Arity
  | unary _ => .exactly 1
  | binary _ => .exactly 2
  | either _ _ => .oneOf [1, 2]
  | several _ => .atLeast 2
  | random => .exactly 0
  | range _ _ => .exactly 3

/-- The evaluation of a call with these arguments, if there are as many as the rule reads. -/
def perform? : Rule → List (Evaluation Decimal) → Option (Evaluation Decimal)
  | unary f, [a] => some do .lift (f (← a))
  | binary f, [a, b] => some do
    let a ← a
    let b ← b
    .lift (f a b)
  | either f _, [a] => some do .lift (f (← a))
  | either _ g, [a, b] => some do
    let a ← a
    let b ← b
    .lift (g a b)
  | several f, a :: b :: rest => some do
    let a ← a
    let others ← .all (b :: rest)
    .lift (f a others)
  | random, [] => some do .lift (Decimal.ofResult "rand" (← .draw))
  | range start combine, [lower, upper, body] => some (.overRange start combine lower upper body)
  | _, _ => none

theorem perform_isSome (r : Rule) (arguments : List (Evaluation Decimal)) :
    (r.perform? arguments).isSome = r.arity.accepts arguments.length := by
  rcases arguments with _ | ⟨a, _ | ⟨b, _ | ⟨c, _ | ⟨d, rest⟩⟩⟩⟩ <;>
    cases r <;> simp [perform?, arity, Arity.accepts]

end Rule

namespace Builtin

/-- A function of one binary64 number. -/
def elementary (name : String) (f : Binary64 → Binary64) : Rule :=
  .unary fun a => Decimal.ofResult name (f a.toBinary64)

/-- A function of two binary64 numbers. -/
def elementary₂ (name : String) (f : Binary64 → Binary64 → Binary64) : Rule :=
  .binary fun a b => Decimal.ofResult name (f a.toBinary64 b.toBinary64)

/-- What each function does. -/
def rule : Builtin → Rule
  | abs => .unary fun a => .ok a.abs
  | acos => elementary "acos" .acos
  | asin => elementary "asin" .asin
  | atan => elementary "atan" .atan
  | atan2 => elementary₂ "atan2" .atan2
  | bitAnd => .several (Decimal.foldBits "BitAnd" Bits.and)
  | bitNot => .unary Decimal.invertBits
  | bitOr => .several (Decimal.foldBits "BitOr" Bits.or)
  | bitXor => .several (Decimal.foldBits "BitXor" Bits.xor)
  | cbrt => elementary "cbrt" .cbrt
  | ceil => .unary Decimal.ceil
  | cos => elementary "cos" .cos
  | cosh => elementary "cosh" .cosh
  | exp => elementary "exp" .exp
  | factorial => .unary Decimal.factorial
  | floor => .unary Decimal.floor
  | hypot => elementary₂ "hypot" .hypot
  | isPrime => .unary Decimal.isPrime
  | log => .either (fun a => Decimal.ofResult "log" a.toBinary64.log)
      (fun base a => Decimal.ofResult "log" (base.toBinary64.logBase a.toBinary64))
  | log10 => elementary "log10" .log10
  | log2 => elementary "log2" .log2
  | logE => elementary "logE" .log
  | random => .random
  | round => .unary Decimal.round
  | sin => elementary "sin" .sin
  | sinh => elementary "sinh" .sinh
  | sqrt => elementary "sqrt" .sqrt
  | tan => elementary "tan" .tan
  | tanh => elementary "tanh" .tanh
  | sum => .range .zero Decimal.add
  | product => .range .one Decimal.mul

theorem rule_arity (f : Builtin) : f.rule.arity = f.arity := by cases f <;> rfl

/-- Every rule takes what the arity of its function accepts. -/
theorem isSome_perform? (f : Builtin) (arguments : List (Evaluation Decimal)) :
    (f.rule.perform? arguments).isSome = f.arity.accepts arguments.length := by
  rw [Rule.perform_isSome, rule_arity]

/-- The evaluation of a call under the given name. The number of arguments is looked at first. -/
def perform (f : Builtin) (name : String) (arguments : List (Evaluation Decimal)) :
    Evaluation Decimal :=
  if h : f.arity.accepts arguments.length then
    (f.rule.perform? arguments).get ((f.isSome_perform? arguments).trans h)
  else throw (.argumentCount name f.arity arguments.length)

end Builtin

end Reckon
