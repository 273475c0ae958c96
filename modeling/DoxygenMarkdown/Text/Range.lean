/-!
# Ranges of code points

A property of characters that no rule describes is a table of the code points that have it, written
as ranges with both ends included.
-/

namespace DoxygenMarkdown

/-- Whether a character lies in one of the ranges. -/
def inRanges (ranges : List (Nat × Nat)) (c : Char) : Bool :=
  ranges.any fun r => r.1 ≤ c.toNat && c.toNat ≤ r.2

end DoxygenMarkdown
