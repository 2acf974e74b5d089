import TaskMachine.Numeral.Binary
import TaskMachine.Numeral.Literal
import TaskMachine.Numeral.Radix

/-!
# Reading float text

A float is written in decimal, with an optional exponent after `e`, or in
hexadecimal, with a mandatory binary exponent after `p`; underscores may
separate digits. `inf`, `infinity` and `nan` are read in any case. The value is
the nearest number of the format; text whose value overflows is refused.
-/

namespace TaskMachine.Numeral

/-- The digits of a float, the lowest first, and how many of them stand after the point. -/
structure Mantissa where
  low : List Nat := []
  afterPoint : Nat := 0
  sawPoint : Bool := false

/-- All digits of a float as one number. -/
def Mantissa.value (base : Nat) (m : Mantissa) : Nat := ofDigits base m.low.reverse

/-- Reads digits and at most one point; gives what was read and the rest of the text. -/
def readMantissa (base : Nat) : List Char → Mantissa → Mantissa × List Char
  | [], m => (m, [])
  | c :: cs, m =>
    if c = '_' then readMantissa base cs m
    else if c = '.' then
      if m.sawPoint then (m, c :: cs) else readMantissa base cs { m with sawPoint := true }
    else
      match digitValue? c with
      | none => (m, c :: cs)
      | some d =>
        if d < base then
          readMantissa base cs
            { m with
              low := d :: m.low
              afterPoint := if m.sawPoint then m.afterPoint + 1 else 0 }
        else (m, c :: cs)

/-- The digits of an exponent. Digits past the fifth change nothing: such an exponent is out of
reach of every format. -/
def readExponent : List Char → Nat → Nat × List Char
  | [], e => (e, [])
  | c :: cs, e =>
    if c = '_' then readExponent cs e
    else if '0' ≤ c ∧ c ≤ '9' then
      readExponent cs (if e < 10000 then e * 10 + (c.toNat - '0'.toNat) else e)
    else (e, c :: cs)

/-- The signed exponent after its marker; at least one digit must come first. -/
def exponentPart? (cs : List Char) : Option (Int × List Char) :=
  let (negative, rest) := splitSign cs
  match rest with
  | c :: _ =>
    if '0' ≤ c ∧ c ≤ '9' then
      let (e, rest) := readExponent rest 0
      some (if negative then -(e : Int) else e, rest)
    else none
  | [] => none

/-- Whether the underscores of a float stand between digits; its marker, sign and point break
a run of digits. -/
def floatUnderscores (cs : List Char) : Bool :=
  !cs.contains '_' || underscoresSeparate cs

/-- The pattern of `value * base ^ power` for a decimal or hexadecimal mantissa. A decimal
number far outside every format is settled by the length of its digits alone. -/
def scaled (f : BinaryFormat) (negative hex : Bool) (value : Nat) (power : Int) : Option Nat :=
  if value = 0 then f.roundRatio negative 0 1
  else
    let base := if hex then 2 else 10
    let size : Int := (if hex then value.log2 + 1 else (digits 10 value).length : Nat) + power
    let limit : Int := if hex then 2000 else 400
    if limit < size then none
    else if size < -limit then f.roundRatio negative 0 1
    else f.roundRatio negative (value * Nat.pow base power.toNat) (Nat.pow base (-power).toNat)

/-- Reads an unsigned decimal or hexadecimal float. -/
def unsignedReal? (f : BinaryFormat) (negative : Bool) (cs : List Char) : Option Nat :=
  let hexBody :=
    match cs with
    | '0' :: x :: c :: rest => if x = 'x' ∨ x = 'X' then some (c :: rest) else none
    | _ => none
  let hex := hexBody.isSome
  let base := if hex then 16 else 10
  let (m, rest) := readMantissa base (hexBody.getD cs) {}
  if m.low.isEmpty then none
  else
    let part : Option (Int × List Char) :=
      match rest with
      | c :: tail =>
        if (hex ∧ (c = 'p' ∨ c = 'P')) ∨ (¬ hex ∧ (c = 'e' ∨ c = 'E')) then exponentPart? tail
        else if hex then none else some (0, rest)
      | [] => if hex then none else some (0, [])
    match part with
    | some (e, []) =>
      if floatUnderscores cs then
        scaled f negative hex (m.value base)
          (e - (if hex then 4 * m.afterPoint else m.afterPoint : Nat))
      else none
    | _ => none

/-- Reads a float; `none` for text that is no float or overflows the format. -/
def real? (f : BinaryFormat) (cs : List Char) : Option Nat :=
  let (negative, body) := splitSign cs
  let word := body.map Char.toLower
  if word = ['i', 'n', 'f'] ∨ word = ['i', 'n', 'f', 'i', 'n', 'i', 't', 'y'] then
    some (f.infinity negative)
  else if cs.map Char.toLower = ['n', 'a', 'n'] then some f.quietNan
  else unsignedReal? f negative body

end TaskMachine.Numeral
