set_option autoImplicit false

/-! # Tables of code points

A property of characters is kept as a list of ranges of code points, both ends included, in
increasing order. Ranges of one table do not touch. The tables are those of Unicode 17. -/

namespace NumScript.Text

/-- Whether a code point lies in one of the ranges. -/
def inRanges (ranges : List (Nat × Nat)) (n : Nat) : Bool :=
  ranges.any fun (low, high) => low ≤ n && n ≤ high

end NumScript.Text
