-- SUMMARY: Sets of characters, given by ranges.

/-!
# Character ranges

Sets of characters as lists of ranges of code points, first and last included.
-/

namespace StructPadding.Ranges

/-- Whether a character lies in one of the ranges. -/
def contains (ranges : List (Nat × Nat)) (c : Char) : Bool :=
  ranges.any fun r => r.1 ≤ c.toNat && c.toNat ≤ r.2

end StructPadding.Ranges
