/-!
# Classes of characters as ranges

A class of characters is given by ascending ranges of code points, ends included. Because they
ascend, the first range that ends at or after a code point decides about it.
-/

namespace Reckon.Text

/-- Whether `n` lies in one of the ascending ranges. -/
def inRanges : List (Nat × Nat) → Nat → Bool
  | [], _ => false
  | (first, last) :: rest, n => if n ≤ last then first ≤ n else inRanges rest n

end Reckon.Text
