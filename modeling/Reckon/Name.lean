import Reckon.Builtin.Basic
import Reckon.Decimal.Basic

/-!
# Names

What an identifier stands for: one of the constants, a builtin function, or, if it is neither, a
variable. The constants have 34 significant digits. Follows `constant`, `function` and
`parse_identifier_or_function` (specification, 4.3 and 10.6).
-/

namespace Reckon.Name

/-- The base of the natural logarithm. -/
def e : Decimal := ⟨2718281828459045235360287471352662, ⟨33, by decide, by decide⟩⟩

/-- The ratio of a circle's circumference to its diameter. -/
def pi : Decimal := ⟨3141592653589793238462643383279503, ⟨33, by decide, by decide⟩⟩

/-- The constants by their names. -/
def constants : List (String × Decimal) := [("e", e), ("pi", pi), ("π", pi)]

/-- The constant of this name. -/
def constant? (name : String) : Option Decimal := constants.lookup name

/-- What a name stands for. -/
inductive Meaning
  | constant (value : Decimal)
  | function (f : Builtin)
  | free
deriving DecidableEq

/-- What a name stands for; constants come before functions. -/
def meaning (name : String) : Meaning :=
  match constant? name with
  | some value => .constant value
  | none =>
    match Builtin.ofName? name with
    | some f => .function f
    | none => .free

end Reckon.Name
