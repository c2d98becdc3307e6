/-!
# Ranges of characters

Character classes are kept as ascending, disjoint, closed ranges of code points.
-/

namespace Reckoner.Text

/-- The code point lies in one of the ascending ranges. -/
def inRanges : List (Nat × Nat) → Nat → Bool
  | [], _ => false
  | (first, last) :: rest, code => if code ≤ last then first ≤ code else inRanges rest code

end Reckoner.Text
