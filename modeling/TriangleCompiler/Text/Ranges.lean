/-! Sets of code points, written as the ranges that cover them. -/

namespace TriangleCompiler.Text

/-- A set of code points as inclusive ranges in ascending order. -/
abbrev Ranges := List (Nat × Nat)

/-- Whether `n` lies in one of the ranges. The ranges ascend, so none after the first that starts
    above `n` can hold it. -/
def Ranges.covers : Ranges → Nat → Bool
  | [], _ => false
  | (lo, hi) :: rest, n => if n < lo then false else n ≤ hi || covers rest n

end TriangleCompiler.Text
