/-!
# Spelling numbers

Decimal, signed, hexadecimal and grouped spellings of integers, and padding to
a column. Every number the machine, the assembler or the scheduler prints goes
through one of these functions.
-/

namespace TaskMachine.Numeral

/-- The decimal digits of a natural number, without leading zeros. -/
def decimalNat (n : Nat) : String := String.ofList (Nat.toDigits 10 n)

/-- The decimal spelling of an integer, with a sign only when it is negative. -/
def decimal (i : Int) : String :=
  if i < 0 then "-" ++ decimalNat i.natAbs else decimalNat i.natAbs

/-- The decimal spelling of an integer that always carries its sign. -/
def signedDecimal (i : Int) : String :=
  if i < 0 then decimal i else "+" ++ decimal i

/-- Digits with a comma before every complete group of three, counted from the right. -/
def groupDigits (digits : List Char) : List Char :=
  (digits.foldr
    (fun c (out, count) =>
      if count % 3 = 0 ∧ 0 < count then (c :: ',' :: out, count + 1) else (c :: out, count + 1))
    (([] : List Char), 0)).1

/-- The decimal spelling that messages use: groups of three digits set off by commas. -/
def grouped (i : Int) : String :=
  let digits := String.ofList (groupDigits (Nat.toDigits 10 i.natAbs))
  if i < 0 then "-" ++ digits else digits

/-- Fills a text on the left up to `width` characters. -/
def padLeft (fill : Char) (width : Nat) (cs : List Char) : List Char :=
  List.replicate (width - cs.length) fill ++ cs

/-- Fills a text with spaces on the right up to `width` characters. -/
def padRight (width : Nat) (text : String) : String :=
  text ++ String.ofList (List.replicate (width - text.length) ' ')

/-- Lower-case hexadecimal digits, at least `width` of them. -/
def hexPadded (width n : Nat) : String :=
  String.ofList (padLeft '0' width (Nat.toDigits 16 n))

/-- Upper-case hexadecimal digits, at least `width` of them. -/
def upperHexPadded (width n : Nat) : String :=
  String.ofList ((padLeft '0' width (Nat.toDigits 16 n)).map Char.toUpper)

/-- The literal spelling of a hexadecimal number, as the assembler writes it back into a line. -/
def hexLiteral (n : Nat) : String := "0x" ++ String.ofList (Nat.toDigits 16 n)

/-- An address or a word in eight hexadecimal digits. -/
def hexWord (w : UInt32) : String := hexPadded 8 w.toNat

end TaskMachine.Numeral
