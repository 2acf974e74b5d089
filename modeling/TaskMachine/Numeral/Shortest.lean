import TaskMachine.Numeral.Binary
import TaskMachine.Numeral.Digits

/-!
# Shortest decimal spelling of a binary float

The fewest decimal digits that read back as the same bit pattern, and among
those the digits nearest to the exact value. `FloatText` says how such digits
are laid out: positionally or with an exponent.
-/

namespace TaskMachine.Numeral

/-- Decimal digits `d₁ d₂ …` standing for `0.d₁ d₂ … * 10 ^ point`. -/
structure Decimal where
  digits : List Char
  point : Int
  deriving DecidableEq, Repr

/-- How many powers of ten a positive quotient below one lies under it: the least `k` with
`den ≤ num * 10 ^ k`. -/
def leadingZeros : Nat → Nat → Nat → Nat
  | 0, _, _ => 0
  | fuel + 1, num, den => if den ≤ num then 0 else leadingZeros fuel (num * 10) den + 1

/-- The position of the decimal point of a positive quotient: `10 ^ (point - 1) ≤ num / den <
10 ^ point`. -/
def decimalPoint (num den : Nat) : Int :=
  if den ≤ num then (Nat.toDigits 10 (num / den)).length
  else 1 - (leadingZeros 400 num den : Int)

/-- The interval of reals that round to a significand, in quarters of its unit: the lower
end, the value and the upper end. Below a power of two the spacing halves. -/
def roundingInterval (f : BinaryFormat) (significand : Nat) (scale : Int) : Nat × Nat × Nat :=
  let low :=
    if significand = twoPow f.fractionBits ∧ f.minScale < scale then 4 * significand - 1
    else 4 * significand - 2
  (low, 4 * significand, 4 * significand + 2)

/-- A decimal with `n` digits inside the rounding interval, if there is one: of the two
neighbours of the value on that grid the one nearer to it, an even one at a tie. -/
def withDigits? (f : BinaryFormat) (significand : Nat) (scale point : Int) (n : Nat) :
    Option Nat :=
  let (low, value, high) := roundingInterval f significand scale
  let unit := point - n
  let quarter := scale - 2
  let tens := tenPow unit.toNat * twoPow (-quarter).toNat
  let twos := twoPow quarter.toNat * tenPow (-unit).toNat
  let below := value * twos / tens
  let closed := significand % 2 = 0
  let inside (c : Nat) : Bool :=
    if closed then low * twos ≤ c * tens && c * tens ≤ high * twos
    else low * twos < c * tens && c * tens < high * twos
  match inside below, inside (below + 1) with
  | false, false => none
  | true, false => some below
  | false, true => some (below + 1)
  | true, true =>
    let middle := (2 * below + 1) * tens
    if 2 * value * twos < middle then some below
    else if middle < 2 * value * twos then some (below + 1)
    else some (if below % 2 = 0 then below else below + 1)

/-- Drops trailing zeros. -/
def trimZeros (cs : List Char) : List Char := (cs.reverse.dropWhile (· == '0')).reverse

/-- Searches for the least digit count, from `n` on. -/
def searchDigits (f : BinaryFormat) (significand : Nat) (scale point : Int) :
    Nat → Nat → Decimal
  | 0, _ => ⟨['0'], 1⟩
  | fuel + 1, n =>
    match withDigits? f significand scale point n with
    | some c =>
      let digits := Nat.toDigits 10 c
      ⟨trimZeros digits, point + ((digits.length : Int) - n)⟩
    | none => searchDigits f significand scale point fuel (n + 1)

/-- The shortest decimal of a positive number `significand * 2 ^ scale` of the format. -/
def shortest (f : BinaryFormat) (significand : Nat) (scale : Int) : Decimal :=
  let point := decimalPoint (significand * twoPow scale.toNat) (twoPow (-scale).toNat)
  searchDigits f significand scale point 20 1

/-- The choices in laying out a float: which decimal exponents are written positionally,
and whether a whole number keeps `.0`. -/
structure FloatText where
  leastPositional : Int
  firstExponential : Int
  keepsPoint : Bool

/-- Digits with the decimal point put in at `point`. -/
def positional (layout : FloatText) (d : Decimal) : List Char :=
  if d.point ≤ 0 then '0' :: '.' :: (List.replicate (-d.point).toNat '0' ++ d.digits)
  else
    let whole := d.point.toNat
    if d.digits.length ≤ whole then
      d.digits ++ List.replicate (whole - d.digits.length) '0' ++
        (if layout.keepsPoint then ['.', '0'] else [])
    else d.digits.take whole ++ '.' :: d.digits.drop whole

/-- One digit, the others after a point, and a signed exponent of at least two digits. -/
def exponential (d : Decimal) : List Char :=
  let exponent := d.point - 1
  let mantissa :=
    match d.digits with
    | [] => ['0']
    | [c] => [c]
    | c :: cs => c :: '.' :: cs
  mantissa ++ 'e' :: (if exponent < 0 then '-' else '+') ::
    padLeft '0' 2 (Nat.toDigits 10 exponent.natAbs)

/-- The text of a finite nonzero decimal. -/
def Decimal.render (layout : FloatText) (d : Decimal) : String :=
  let exponent := d.point - 1
  if exponent < layout.leastPositional ∨ layout.firstExponential ≤ exponent then
    String.ofList (exponential d)
  else String.ofList (positional layout d)

/-- The text of a bit pattern; `infinityText` names the infinities without their sign. -/
def floatText (f : BinaryFormat) (layout : FloatText) (nanText infinityText : String)
    (bits : Nat) : String :=
  match f.decode bits with
  | .nan => nanText
  | .infinite negative => (if negative then "-" else "+") ++ infinityText
  | .finite negative significand scale =>
    (if negative then "-" else "") ++
      (if significand = 0 then (if layout.keepsPoint then "0.0" else "0")
       else (shortest f significand scale).render layout)

end TaskMachine.Numeral
