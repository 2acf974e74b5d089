/-!
# Finding byte strings

A needle is a byte string to be found in a text, which is read once from the
front. After each byte it is known how much of the needle the text ends in.
Where the needle does not go on with the next byte, a shorter beginning of it
that the text ends in as well may do, and the needle itself tells which.
-/

namespace TaskMachine.Text

/-- A byte string to be found. `borders` tells of each of its beginnings the length of the longest
shorter one that it ends in. -/
structure Needle where
  bytes : Array UInt8
  borders : Array Nat

namespace Needle

/-- How many bytes from the beginning of a needle a text ends in after one more byte, where it
ended in `k` of them before. -/
def next (bytes : Array UInt8) (borders : Array Nat) (b : UInt8) (k : Nat) : Nat :=
  if k < bytes.size ∧ bytes.getD k 0 = b then k + 1
  else
    match k with
    | 0 => 0
    | j + 1 =>
      if borders.getD j 0 ≤ j then next bytes borders b (borders.getD j 0) else 0
termination_by k
decreasing_by exact Nat.lt_succ_of_le (by assumption)

/-- A needle with its borders. Each is found by following the needle through itself. -/
def ofBytes (bytes : List UInt8) : Needle :=
  let array := bytes.toArray
  { bytes := array
    borders := bytes.tail.foldl
      (fun borders b => borders.push (next array borders b (borders.back?.getD 0))) #[0] }

/-- Follows a needle through more of a text. Once it is found, it stays found. -/
def follow (needle : Needle) (found : Nat) (bytes : List UInt8) : Nat :=
  bytes.foldl (fun k b =>
    if k = needle.bytes.size then k else next needle.bytes needle.borders b k) found

/-- Whether a needle has been found. -/
def isFound (needle : Needle) (found : Nat) : Bool := found == needle.bytes.size

end Needle

end TaskMachine.Text
