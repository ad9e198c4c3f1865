/-!
# Arities

How many arguments a function takes. Follows `Arity` and its `check` (specification, 4.5).
-/

namespace Reckon

/-- How many arguments a function takes. -/
inductive Arity
  | exactly (count : Nat)
  | oneOf (counts : List Nat)
  | atLeast (count : Nat)
deriving DecidableEq

namespace Arity

/-- Whether a function of this arity takes so many arguments. -/
def accepts (count : Nat) : Arity → Bool
  | exactly n => count = n
  | oneOf counts => counts.contains count
  | atLeast n => n ≤ count

/-- The arity in words. -/
def describe : Arity → String
  | exactly n => toString n
  | oneOf counts => " or ".intercalate (counts.map toString)
  | atLeast n => "at least " ++ toString n

end Arity

end Reckon
