/-! Sets of code points given as inclusive ranges. -/
namespace ApiLint.Text

def inRanges (ranges : List (Nat × Nat)) (code : Nat) : Bool :=
  ranges.any fun range => range.1 ≤ code && code ≤ range.2

end ApiLint.Text
