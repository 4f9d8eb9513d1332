/-!
# Classes of characters as ranges

A class of Unicode characters is a list of ranges of code points, in increasing
order, both ends included.
-/

namespace ImpFront.Unicode

/-- **Whether a code point lies in one of the ranges.** Ranges that lie beyond
it are not looked at. -/
def inRanges (n : Nat) : List (Nat × Nat) → Bool
  | [] => false
  | (first, last) :: more => first ≤ n && (n ≤ last || inRanges n more)

end ImpFront.Unicode
