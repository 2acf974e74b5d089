import TaskMachine.Numeral.Power

/-!
# Binary floating-point formats

A format has a sign bit, an exponent field and a fraction field. `decode` gives
the exact value of a bit pattern as `m * 2 ^ q`, and `roundRatio` is the bit
pattern nearest to a quotient of natural numbers, a tie going to the even
significand. Both work in exact integer arithmetic.
-/

namespace TaskMachine.Numeral

/-- The widths of the fraction and exponent fields. -/
structure BinaryFormat where
  fractionBits : Nat
  exponentBits : Nat
  deriving DecidableEq, Repr

/-- The 32-bit format of float constants. -/
def binary32 : BinaryFormat := ⟨23, 8⟩

/-- The 64-bit format of floats inside expressions. -/
def binary64 : BinaryFormat := ⟨52, 11⟩

/-- What a bit pattern stands for; a finite one is `± significand * 2 ^ scale`. -/
inductive BinaryValue where
  | nan
  | infinite (negative : Bool)
  | finite (negative : Bool) (significand : Nat) (scale : Int)
  deriving DecidableEq, Repr

namespace BinaryFormat

/-- The offset of the stored exponent. -/
def bias (f : BinaryFormat) : Nat := twoPow (f.exponentBits - 1) - 1

/-- The scale of the smallest numbers of the format. -/
def minScale (f : BinaryFormat) : Int := 1 - (f.bias : Int) - f.fractionBits

/-- The stored exponent that marks infinities and NaNs. -/
def topExponent (f : BinaryFormat) : Nat := twoPow f.exponentBits - 1

/-- The pattern of an infinity or of zero with a sign, on top of `magnitude`. -/
def withSign (f : BinaryFormat) (negative : Bool) (magnitude : Nat) : Nat :=
  if negative then twoPow (f.fractionBits + f.exponentBits) + magnitude else magnitude

/-- The pattern of an infinity. -/
def infinity (f : BinaryFormat) (negative : Bool) : Nat :=
  f.withSign negative (f.topExponent * twoPow f.fractionBits)

/-- The pattern of the quiet NaN with an empty payload. -/
def quietNan (f : BinaryFormat) : Nat :=
  f.topExponent * twoPow f.fractionBits + twoPow (f.fractionBits - 1)

/-- The exact value of a bit pattern. -/
def decode (f : BinaryFormat) (bits : Nat) : BinaryValue :=
  let negative := bits / twoPow (f.fractionBits + f.exponentBits) % 2 == 1
  let exponent := bits / twoPow f.fractionBits % twoPow f.exponentBits
  let fraction := bits % twoPow f.fractionBits
  if exponent = f.topExponent then
    if fraction = 0 then .infinite negative else .nan
  else if exponent = 0 then .finite negative fraction f.minScale
  else .finite negative (twoPow f.fractionBits + fraction) (f.minScale + (exponent - 1 : Nat))

end BinaryFormat

/-- The quotient rounded to the nearest natural number, a tie going to the even one. -/
def divHalfEven (num den : Nat) : Nat :=
  let q := num / den
  let twice := 2 * (num % den)
  if twice < den then q
  else if den < twice then q + 1
  else if q % 2 = 0 then q else q + 1

/-- The exponent of the largest power of two that is at most `num / den`, both positive. -/
def floorLog2Ratio (num den : Nat) : Int :=
  let e := (num.log2 : Int) - den.log2
  let atLeast := if 0 ≤ e then den * twoPow e.toNat ≤ num else den ≤ num * twoPow (-e).toNat
  if atLeast then e else e - 1

namespace BinaryFormat

/-- The pattern nearest to `num / den`, or `none` when that overflows the format. -/
def roundRatio (f : BinaryFormat) (negative : Bool) (num den : Nat) : Option Nat :=
  if num = 0 then some (f.withSign negative 0)
  else
    let scale := max f.minScale (floorLog2Ratio num den - f.fractionBits)
    let significand :=
      if 0 ≤ scale then divHalfEven num (den * twoPow scale.toNat)
      else divHalfEven (num * twoPow (-scale).toNat) den
    -- The step of the exponent field is one significand of `2 ^ fractionBits`, so a
    -- significand that rounds up to the next power of two carries into the exponent.
    let magnitude := (scale - f.minScale).toNat * twoPow f.fractionBits + significand
    if f.topExponent * twoPow f.fractionBits ≤ magnitude then none
    else some (f.withSign negative magnitude)

end BinaryFormat

end TaskMachine.Numeral
