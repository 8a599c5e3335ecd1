/-!
# Sets of characters given by ranges

The Unicode properties that the language needs are stated as lists of ranges of
code points, each range with both its ends included.
-/

namespace Scriptlet.Text

/-- Whether the code point of `c` lies in one of the ranges. -/
def inRanges (ranges : List (Nat × Nat)) (c : Char) : Bool :=
  ranges.any fun r => r.1 ≤ c.toNat && c.toNat ≤ r.2

end Scriptlet.Text
