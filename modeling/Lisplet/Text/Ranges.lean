/-!
Sets of code points, written as ranges in increasing order.
-/

namespace Lisplet.Text

/-- Membership in one of the ranges; ranges past the code point need not be looked at. -/
def inRanges : List (Nat × Nat) → Nat → Bool
  | [], _ => false
  | (low, high) :: ranges, n => low ≤ n && (n ≤ high || inRanges ranges n)

end Lisplet.Text
