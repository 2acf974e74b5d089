/-!
# Powers

Powers of two and of ten, the scales of binary and decimal numbers.
-/

namespace TaskMachine.Numeral

/-- A power of two. -/
def twoPow (n : Nat) : Nat := Nat.pow 2 n

/-- A power of ten. -/
def tenPow (n : Nat) : Nat := Nat.pow 10 n

end TaskMachine.Numeral
