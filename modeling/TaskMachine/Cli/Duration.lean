import TaskMachine.Numeral.Digits
import TaskMachine.Numeral.Literal

/-!
# Durations

A duration is a sign and a run of numbers with units, such as `1h30m` or
`2.5s`. A bare `0` needs no unit. Durations are counted in nanoseconds; fractions
of a unit are computed with floats and rounded down.
-/

namespace TaskMachine.Cli

open Numeral

/-- Why a text is no duration. -/
inductive DurationError where
  | malformed
  | unitMissing
  | unitUnknown (unit : String)
  deriving DecidableEq, Repr

/-- A text in quotes, with every control character and every byte of a character past ASCII as
an escape. -/
def quotedBytes (text : String) : String :=
  let escaped := text.toList.flatMap fun c =>
    if c.toNat < 0x20 ∨ 0x80 ≤ c.toNat then
      (String.utf8EncodeChar c).flatMap fun b => '\\' :: 'x' :: (hexPadded 2 b.toNat).toList
    else if c = '"' ∨ c = '\\' then ['\\', c]
    else [c]
  "\"" ++ String.ofList escaped ++ "\""

/-- The text of a duration error. -/
def DurationError.message (text : String) : DurationError → String
  | .malformed => "time: invalid duration " ++ quotedBytes text
  | .unitMissing => "time: missing unit in duration " ++ quotedBytes text
  | .unitUnknown unit =>
    "time: unknown unit " ++ quotedBytes unit ++ " in duration " ++ quotedBytes text

/-- The nanoseconds of a unit; a microsecond has three spellings. -/
def unitSize? (unit : String) : Option Nat :=
  [("ns", 1), ("us", 1000), ("\u00b5s", 1000), ("\u03bcs", 1000), ("ms", 1000000),
    ("s", 1000000000), ("m", 60000000000), ("h", 3600000000000)].lookup unit

/-- The value of decimal digits. -/
def digitsValue (digits : List Char) : Nat :=
  digits.foldl (fun n c => 10 * n + (c.toNat - '0'.toNat)) 0

/-- The digits after a point, if there is one, and what follows them. -/
def fractionPart : List Char → List Char × List Char
  | '.' :: cs => (cs.takeWhile Char.isDigit, cs.dropWhile Char.isDigit)
  | cs => ([], cs)

/-- The largest magnitude of a duration. -/
def durationLimit : Nat := 0x8000000000000000

/-- The digits after a point as far as they were taken in: as one number, with the power of ten
to divide it by. -/
structure Fraction where
  value : Nat := 0
  scale : Float := 1
  full : Bool := false

namespace Fraction

/-- Takes in one more digit. The first that does not fit 63 bits and all after it are left out. -/
def push (f : Fraction) (c : Char) : Fraction :=
  let next := 10 * f.value + (c.toNat - '0'.toNat)
  if f.full ∨ (durationLimit - 1) / 10 < f.value ∨ durationLimit < next then
    { f with full := true }
  else { f with value := next, scale := f.scale * 10 }

/-- The digits of a fraction. -/
def ofDigits (digits : List Char) : Fraction := digits.foldl push {}

/-- The nanoseconds of a fraction of a unit. The unit is divided first, so that the outcome may
be rounded up to the next nanosecond before it is rounded down. -/
def nanoseconds (f : Fraction) (unit : Nat) : Nat :=
  let float (n : Nat) : Float := (UInt64.ofNat n).toFloat
  (float f.value * (float unit / f.scale)).toUInt64.toNat

end Fraction

/-- The nanoseconds of a run of numbers with units, added to the ones before in 64 bits. Every
number and unit takes up characters, so the length of the text bounds how many there are. -/
def addParts : Nat → List Char → Nat → Except DurationError Nat
  | 0, _, total => .ok total
  | fuel + 1, cs, total =>
    if cs = [] then .ok total
    else
      let whole := cs.takeWhile Char.isDigit
      let (fraction, rest) := fractionPart (cs.dropWhile Char.isDigit)
      let unit := rest.takeWhile fun c => !(c = '.' || c.isDigit)
      if (whole = [] ∧ fraction = []) ∨ durationLimit < digitsValue whole then .error .malformed
      else if unit = [] then .error .unitMissing
      else
        match unitSize? (String.ofList unit) with
        | none => .error (.unitUnknown (String.ofList unit))
        | some size =>
          let part := digitsValue whole * size + (Fraction.ofDigits fraction).nanoseconds size
          let sum := (total + part) % twoPow 64
          if durationLimit / size < digitsValue whole ∨ durationLimit < part ∨ durationLimit < sum
          then .error .malformed
          else addParts fuel (rest.drop unit.length) sum

/-- The nanoseconds of a duration. -/
def duration (text : String) : Except DurationError Int :=
  let (negative, cs) := splitSign text.toList
  if cs = ['0'] then .ok 0
  else if cs = [] then .error .malformed
  else
    match addParts cs.length cs 0 with
    | .error e => .error e
    | .ok n =>
      if negative then .ok (-(n : Int))
      else if n < durationLimit then .ok n
      else .error .malformed

end TaskMachine.Cli
