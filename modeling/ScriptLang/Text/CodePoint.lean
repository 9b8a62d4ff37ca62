/-
Sets of code points.

A property of characters is given as a table of ranges of code points, both ends included.
-/

namespace ScriptLang.Text

/-- Whether a code point lies in one of the ranges. -/
def inRanges (ranges : List (Nat × Nat)) (n : Nat) : Bool :=
  ranges.any fun (low, high) => low ≤ n && n ≤ high

end ScriptLang.Text
