import TaskMachine.Numeral.Digits
import TaskMachine.Numeral.Literal
import TaskMachine.Text.Printable
import TaskMachine.Text.Utf8

/-!
# Quoted byte strings

`encode` writes a byte string between double quotes, with escapes for quotes,
backslashes, control and other unprintable characters, and stray bytes.
`decode` reads the literals a source may hold: double-quoted text with escapes,
text between backquotes as it stands, and one character in single quotes.
-/

namespace TaskMachine.Text.Quoted

open TaskMachine.Numeral

/-- One character inside double quotes. -/
def escapeChar (c : Char) : List Char :=
  if c = '"' ∨ c = '\\' then ['\\', c]
  else if isPrintable c then [c]
  else
    match c.toNat with
    | 0x07 => ['\\', 'a']
    | 0x08 => ['\\', 'b']
    | 0x0c => ['\\', 'f']
    | 0x0a => ['\\', 'n']
    | 0x0d => ['\\', 'r']
    | 0x09 => ['\\', 't']
    | 0x0b => ['\\', 'v']
    | n =>
      if n < 0x20 ∨ n = 0x7f then '\\' :: 'x' :: padLeft '0' 2 (Nat.toDigits 16 n)
      else if n < 0x10000 then '\\' :: 'u' :: padLeft '0' 4 (Nat.toDigits 16 n)
      else '\\' :: 'U' :: padLeft '0' 8 (Nat.toDigits 16 n)

/-- One piece of a byte string inside double quotes. -/
def escapePiece : Utf8.Piece → List Char
  | .char c => escapeChar c
  | .stray b => '\\' :: 'x' :: padLeft '0' 2 (Nat.toDigits 16 b.toNat)

/-- The double-quoted form of a byte string. -/
def encode (bytes : List UInt8) : String :=
  String.ofList ('"' :: ((Utf8.pieces bytes).flatMap escapePiece ++ ['"']))

/-- The double-quoted form of a text. -/
def encodeText (text : String) : String := encode (Utf8.encode text.toList)

/-- The value of exactly `n` digits of a base at the head of a text. -/
def fixedDigits? (base : Nat) : Nat → List Char → Nat → Option Nat
  | 0, _, acc => some acc
  | _ + 1, [], _ => none
  | n + 1, c :: cs, acc =>
    match digitValue? c with
    | some d => if d < base then fixedDigits? base n cs (acc * base + d) else none
    | none => none

/-- What the escape at the head of a text, its backslash removed, stands for, and how many
characters it has. A quote may be escaped only inside quotes of its own kind. -/
def escape? (quote : Char) : List Char → Option (List UInt8 × Nat)
  | [] => none
  | c :: cs =>
    if c = 'a' then some ([0x07], 1)
    else if c = 'b' then some ([0x08], 1)
    else if c = 'f' then some ([0x0c], 1)
    else if c = 'n' then some ([0x0a], 1)
    else if c = 'r' then some ([0x0d], 1)
    else if c = 't' then some ([0x09], 1)
    else if c = 'v' then some ([0x0b], 1)
    else if c = '\\' then some ([0x5c], 1)
    else if c = '\'' ∨ c = '"' then
      if c = quote then some ([UInt8.ofNat c.toNat], 1) else none
    else if c = 'x' then
      (fixedDigits? 16 2 cs 0).map fun n => ([UInt8.ofNat n], 3)
    else if c = 'u' then do
      let n ← fixedDigits? 16 4 cs 0
      let r ← Utf8.scalar? 0 n
      return (String.utf8EncodeChar r, 5)
    else if c = 'U' then do
      let n ← fixedDigits? 16 8 cs 0
      let r ← Utf8.scalar? 0 n
      return (String.utf8EncodeChar r, 9)
    else do
      let n ← fixedDigits? 8 3 (c :: cs) 0
      if n ≤ 0xff then some ([UInt8.ofNat n], 3) else none

/-- The bytes of a double-quoted text after its opening quote; the closing quote must end the
literal. `skip` characters belong to the escape before, and `acc` holds the bytes read so far
in reverse. -/
def bodyBytes (skip : Nat) : List Char → List UInt8 → Option (List UInt8)
  | [], _ => none
  | c :: cs, acc =>
    match skip with
    | k + 1 => bodyBytes k cs acc
    | 0 =>
      if c = '"' then (if cs = [] then some acc.reverse else none)
      else if c = '\n' then none
      else if c = '\\' then
        match escape? '"' cs with
        | some (bytes, n) => bodyBytes n cs (bytes.reverse ++ acc)
        | none => none
      else bodyBytes 0 cs ((String.utf8EncodeChar c).reverse ++ acc)

/-- The byte string that a literal stands for, or `none` for text that is no literal. -/
def decode : List Char → Option (List UInt8)
  | '"' :: cs => bodyBytes 0 cs []
  | '`' :: cs =>
    match cs.getLast? with
    | some '`' =>
      let body := cs.dropLast
      if body.contains '`' then none else some (Utf8.encode (body.filter (· ≠ '\r')))
    | _ => none
  | '\'' :: cs =>
    match cs with
    | [] => none
    | '\'' :: rest => if rest = [] then some [] else none
    | '\\' :: rest =>
      match escape? '\'' rest with
      | some (bytes, n) => if rest.drop n = ['\''] then some bytes else none
      | none => none
    | c :: rest =>
      if c ≠ '\n' ∧ rest = ['\''] then some (String.utf8EncodeChar c) else none
  | _ => none

end TaskMachine.Text.Quoted
