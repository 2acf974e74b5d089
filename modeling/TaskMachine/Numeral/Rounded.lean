import TaskMachine.Numeral.Shortest

/-!
# Decimal spelling with a fixed number of places

A quotient of natural numbers rounded to so many digits after the point, a tie
going to the even digit, positionally or with an exponent.
-/

namespace TaskMachine.Numeral

/-- Positional notation with `places` digits after the point. -/
def fixedPlaces (places num den : Nat) : List Char :=
  let digits := padLeft '0' (places + 1) (Nat.toDigits 10 (divHalfEven (num * tenPow places) den))
  let whole := digits.length - places
  digits.take whole ++ '.' :: digits.drop whole

/-- One digit, `places` digits after the point, and an exponent. -/
def scientific (places num den : Nat) : List Char :=
  if num = 0 then exponential ⟨List.replicate (places + 1) '0', 1⟩
  else
    let point := decimalPoint num den
    let unit := point - 1 - places
    let digits := Nat.toDigits 10
      (divHalfEven (num * tenPow (-unit).toNat) (den * tenPow unit.toNat))
    -- Rounding up to the next power of ten gives one digit more than asked for.
    exponential ⟨digits.take (places + 1), point + ((digits.length : Int) - (places + 1))⟩

end TaskMachine.Numeral
