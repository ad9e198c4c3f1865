import Reckon.Builtin.Arity

/-!
# Builtin functions

The functions that an expression can call, with the names they go by and the number of arguments
they take. The first name of a function is the one it is called by when an operator stands for it.
Follows `Builtin` with its `aliases`, `arity` and `name` (specification, 4.5 and 10.6).
-/

namespace Reckon

/-- The builtin functions. -/
inductive Builtin
  | abs | acos | asin | atan | atan2
  | bitAnd | bitNot | bitOr | bitXor
  | cbrt | ceil | cos | cosh | exp | factorial | floor | hypot | isPrime
  | log | log10 | log2 | logE
  | random | round
  | sin | sinh | sqrt | tan | tanh
  | sum | product
deriving DecidableEq, Repr

namespace Builtin

/-- All builtin functions. -/
def all : List Builtin :=
  [abs, acos, asin, atan, atan2, bitAnd, bitNot, bitOr, bitXor, cbrt, ceil, cos, cosh, exp,
   factorial, floor, hypot, isPrime, log, log10, log2, logE, random, round, sin, sinh, sqrt, tan,
   tanh, sum, product]

/-- The name that a function is known by. -/
def name : Builtin → String
  | abs => "abs"
  | acos => "acos"
  | asin => "asin"
  | atan => "atan"
  | atan2 => "atan2"
  | bitAnd => "BitAnd"
  | bitNot => "BitNot"
  | bitOr => "BitOr"
  | bitXor => "BitXor"
  | cbrt => "cbrt"
  | ceil => "ceil"
  | cos => "cos"
  | cosh => "cosh"
  | exp => "exp"
  | factorial => "factorial"
  | floor => "floor"
  | hypot => "hypot"
  | isPrime => "is_prime"
  | log => "log"
  | log10 => "log10"
  | log2 => "log2"
  | logE => "logE"
  | random => "rand"
  | round => "round"
  | sin => "sin"
  | sinh => "sinh"
  | sqrt => "sqrt"
  | tan => "tan"
  | tanh => "tanh"
  | sum => "sum"
  | product => "product"

/-- The other names of a function. -/
def otherNames : Builtin → List String
  | ceil => ["ceiling"]
  | random => ["random"]
  | sum => ["Σ", "∑"]
  | product => ["Π", "∏"]
  | _ => []

/-- All names of a function. -/
def names (f : Builtin) : List String := f.name :: f.otherNames

/-- The function of this name. -/
def ofName? (name : String) : Option Builtin := all.find? fun f => f.names.contains name

/-- How many arguments a function takes. -/
def arity : Builtin → Arity
  | random => .exactly 0
  | abs | acos | asin | atan | bitNot | cbrt | ceil | cos | cosh | exp | factorial | floor
  | isPrime | log10 | log2 | logE | round | sin | sinh | sqrt | tan | tanh => .exactly 1
  | atan2 | hypot => .exactly 2
  | sum | product => .exactly 3
  | log => .oneOf [1, 2]
  | bitAnd | bitOr | bitXor => .atLeast 2

theorem mem_all (f : Builtin) : f ∈ all := by cases f <;> decide

end Builtin

end Reckon
