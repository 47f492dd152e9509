namespace PolyPlot.Text

/-- Whether a code point lies in one of the ranges, which ascend, both ends included. -/
def inRanges (n : Nat) : List (Nat × Nat) → Bool
  | [] => false
  | (first, last) :: rest => if n < first then false else n ≤ last || inRanges n rest

end PolyPlot.Text
