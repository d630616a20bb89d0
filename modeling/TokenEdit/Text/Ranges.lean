/-!
# Sets of characters as ranges

The character classes of a standard are given as tables of ranges of code points.  The ranges of a
table stand in increasing order, so a look-up ends at the first range that starts too late.
-/

namespace TokenEdit.Text

/-- Whether `n` lies in one of the ranges, which are in increasing order and include their ends. -/
def inRanges (n : Nat) : List (Nat × Nat) → Bool
  | [] => false
  | (first, last) :: ranges => first ≤ n && (n ≤ last || inRanges n ranges)

end TokenEdit.Text
