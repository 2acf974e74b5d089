/-!
# Character classes given by ranges

A class of characters is a list of inclusive ranges of code points in ascending
order.
-/

namespace TaskMachine.Text

/-- Whether a character lies in one of the ranges. -/
def inRanges (ranges : List (Nat × Nat)) (c : Char) : Bool :=
  ranges.any fun (low, high) => low ≤ c.toNat && c.toNat ≤ high

end TaskMachine.Text
