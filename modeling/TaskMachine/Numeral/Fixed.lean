import TaskMachine.Numeral.Binary

/-!
# Fixed-point numbers

A fixed-point number with `k` fraction bits is an integer read in units of
`2 ^ -k`. Going to a 32-bit float rounds to nearest, and coming back cuts the
fraction off toward zero.
-/

namespace TaskMachine.Numeral

/-- The fraction bits of general fixed-point values. -/
def fixedBits : Nat := 14

/-- The fraction bits of the short format used in geometry. -/
def shortFixedBits : Nat := 10

/-- The float of a fixed-point number, as a bit pattern. -/
def fixedToFloat (fraction : Nat) (n : Int) : UInt32 :=
  UInt32.ofNat ((binary32.roundRatio (n < 0) n.natAbs (twoPow fraction)).getD 0)

/-- The fixed-point number of a float, cut toward zero. Infinities and NaNs have none and
give zero. -/
def floatToFixed (fraction : Nat) (bits : UInt32) : Int :=
  match binary32.decode bits.toNat with
  | .finite negative significand scale =>
    let shift := scale + fraction
    let magnitude := significand * twoPow shift.toNat / twoPow (-shift).toNat
    if negative then -(magnitude : Int) else magnitude
  | _ => 0

end TaskMachine.Numeral
