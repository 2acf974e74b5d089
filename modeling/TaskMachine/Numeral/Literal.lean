import TaskMachine.Numeral.Power

/-!
# Reading integer literals

An integer literal is an optional sign and digits in a base that the digits'
own marker selects: `0x`, `0o`, `0b`, a leading `0` for octal, else decimal.
Single underscores may separate digits, or stand between the marker and the
first digit.
-/

namespace TaskMachine.Numeral

/-- Why a literal was refused: it is no literal, or its value does not fit. -/
inductive LiteralError where
  | malformed
  | outOfRange
  deriving DecidableEq, Repr

/-- The value of a digit or letter read as a digit, up to base 36. -/
def digitValue? (c : Char) : Option Nat :=
  if '0' ≤ c ∧ c ≤ '9' then some (c.toNat - '0'.toNat)
  else if 'a' ≤ c ∧ c ≤ 'z' then some (c.toNat - 'a'.toNat + 10)
  else if 'A' ≤ c ∧ c ≤ 'Z' then some (c.toNat - 'A'.toNat + 10)
  else none

/-- Adds the digits of `cs` in `base` to what has been read so far. Underscores are passed
over here; whether they stand in allowed places is `underscoresSeparate`. The value is
refused as soon as it exceeds `bound`. -/
def readDigits (base bound : Nat) : List Char → Nat → Except LiteralError Nat
  | [], n => .ok n
  | c :: cs, n =>
    if c = '_' then readDigits base bound cs n
    else
      match digitValue? c with
      | none => .error .malformed
      | some d =>
        if base ≤ d then .error .malformed
        else if bound < n * base + d then .error .outOfRange
        else readDigits base bound cs (n * base + d)

/-- Splits the base marker off a literal. A marker needs at least one character after it. -/
def splitBase : List Char → Nat × List Char
  | '0' :: m :: d :: ds =>
    if m = 'b' ∨ m = 'B' then (2, d :: ds)
    else if m = 'o' ∨ m = 'O' then (8, d :: ds)
    else if m = 'x' ∨ m = 'X' then (16, d :: ds)
    else (8, m :: d :: ds)
  | '0' :: ds => (8, ds)
  | cs => (10, cs)

/-- What the last character before the current one was, as far as underscores care. -/
inductive Before where
  | start
  | digit
  | underscore
  | other
  deriving DecidableEq, Repr

/-- Whether every underscore follows a digit and is followed by one. -/
def separates (hex : Bool) : Before → List Char → Bool
  | before, [] => before ≠ .underscore
  | before, c :: cs =>
    let isDigit := ('0' ≤ c ∧ c ≤ '9') ∨
      (hex = true ∧ (('a' ≤ c ∧ c ≤ 'f') ∨ ('A' ≤ c ∧ c ≤ 'F')))
    if isDigit then separates hex .digit cs
    else if c = '_' then before = .digit && separates hex .underscore cs
    else before ≠ .underscore && separates hex .other cs

/-- Whether the underscores of an unsigned literal stand in allowed places; a base marker
counts as a digit. -/
def underscoresSeparate : List Char → Bool
  | '0' :: m :: cs =>
    if m = 'x' ∨ m = 'X' then separates true .digit cs
    else if m = 'b' ∨ m = 'B' ∨ m = 'o' ∨ m = 'O' then separates false .digit cs
    else separates false .start ('0' :: m :: cs)
  | cs => separates false .start cs

/-- Reads an unsigned literal of at most `bound`. -/
def unsignedLiteral (bound : Nat) (cs : List Char) : Except LiteralError Nat :=
  if cs = [] then .error .malformed
  else
    let (base, digits) := splitBase cs
    match readDigits base bound digits 0 with
    | .error e => .error e
    | .ok n =>
      if cs.contains '_' && !underscoresSeparate cs then .error .malformed else .ok n

/-- The sign of a literal and what follows it. -/
def splitSign : List Char → Bool × List Char
  | '+' :: cs => (false, cs)
  | '-' :: cs => (true, cs)
  | cs => (false, cs)

/-- Reads a signed literal that fits a two's-complement number of `bits` bits. -/
def signedLiteral (bits : Nat) (cs : List Char) : Except LiteralError Int :=
  let (negative, magnitude) := splitSign cs
  match unsignedLiteral (twoPow bits - 1) magnitude with
  | .error e => .error e
  | .ok n =>
    if negative then
      if twoPow (bits - 1) < n then .error .outOfRange else .ok (-(n : Int))
    else
      if twoPow (bits - 1) ≤ n then .error .outOfRange else .ok (n : Int)

/-- Reads plain decimal digits of at most `bound`; neither sign nor underscore is allowed. -/
def plainDecimal? (bound : Nat) (cs : List Char) : Option Nat :=
  if cs = [] ∨ cs.contains '_' = true then none
  else (readDigits 10 bound cs 0).toOption

end TaskMachine.Numeral
