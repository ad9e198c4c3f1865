import Reckon.Binary64.Basic

/-!
# Random numbers

A source of random numbers is a stream of binary64 numbers and a place in it; to draw one is to
take the number there and to go on by one. Which numbers the stream has is left open: whatever a
generator gives, an evaluation reads it through `next` and `draw` only. Follows `random`, whose
generator is not part of the calculator.
-/

namespace Reckon

/-- A source of random numbers. -/
structure RandomSource where
  /-- The numbers, in the order in which they are drawn. -/
  numbers : Nat → Binary64
  /-- How many numbers were drawn. -/
  drawn : Nat

namespace RandomSource

instance : Inhabited RandomSource := ⟨⟨fun _ => .zero false, 0⟩⟩

/-- The source after one number was drawn. -/
def next (s : RandomSource) : RandomSource := { s with drawn := s.drawn + 1 }

/-- The next number. -/
def draw (s : RandomSource) : Binary64 := s.numbers s.drawn

end RandomSource

end Reckon
