import TaskMachine.Expr.Interpreter
import TaskMachine.Numeral.Real
import TaskMachine.Text.Quoted

/-!
# Tokens of scripts

The tokens of Starlark: names, numbers, string literals, and marks, which are
operators, brackets and reserved words. Blanks separate tokens, `#` starts a
comment, and a line end counts as a blank inside brackets and after a backslash.
Anywhere else it ends the line, and the margin of the next line tells whether a
block begins or ends there. A NUL outside string literals ends the text.
-/

namespace TaskMachine.Expr

open Numeral

/-- A token. A reserved word is a mark like an operator. -/
inductive Token where
  | name (text : String)
  | int (value : Nat)
  | float (bits : Nat)
  | text (bytes : List UInt8)
  /-- A string literal of bytes that need not be text. -/
  | octets (bytes : List UInt8)
  | mark (text : String)
  /-- The end of a line outside brackets. -/
  | lineEnd
  /-- The start of lines with a wider margin. -/
  | indent
  /-- The end of such lines. -/
  | outdent
  deriving DecidableEq, Repr

namespace Token

/-- The words that are no names. Some of them have no use in expressions at all. -/
def reserved : List String := [
  "and", "break", "continue", "def", "elif", "else", "for", "if", "in", "lambda", "load", "not",
  "or", "pass", "return", "while", "as", "async", "await", "class", "del", "except", "finally",
  "from", "global", "import", "is", "nonlocal", "raise", "try", "with", "yield"]

/-- The operators and brackets, longer ones before those they begin with. -/
def operators : List String := [
  "//=", "<<=", ">>=", "**", "//", "<<", ">>", "<=", ">=", "==", "!=", "+=", "-=", "*=", "/=", "%=",
  "&=", "|=", "^=", "+", "-", "*", "/", "%", "&", "|", "^", "~", "<", ">", "=", "(", ")", "[", "]",
  "\x7b", "\x7d", ",", ":", ";", "."]

/-- Whether a character ends a line. -/
def isLineEnd (c : Char) : Bool := c = '\n' || c = '\r'

/-- Whether a character separates tokens and stands for nothing else. -/
def isBlank (c : Char) : Bool := c = ' ' || c = '\t'

/-- The character that ends a text before its end. -/
def terminator : Char := Char.ofNat 0

/-- Whether a character is a digit of a base. -/
def isDigitOf (base : Nat) (c : Char) : Bool :=
  match digitValue? c with
  | some d => d < base
  | none => false

/-- The number that digits of a base spell. -/
def valueOf (base : Nat) (cs : List Char) : Nat :=
  ofDigits base (cs.map fun c => (digitValue? c).getD 0)

/-- A number with a base marker; octal and binary ones are limited to 63 bits. -/
def markedInt? (base : Nat) (cs : List Char) : Option (Token × List Char) :=
  let digits := cs.takeWhile (isDigitOf base)
  let value := valueOf base digits
  if digits = [] ∨ (base ≠ 16 ∧ 0x8000000000000000 ≤ value) then none
  else some (.int value, cs.dropWhile (isDigitOf base))

/-- An exponent: its characters from `e` on and the rest, or `none` if it has no digits. -/
def exponentChars? : List Char → Option (List Char × List Char)
  | [] => some ([], [])
  | e :: cs =>
    if e = 'e' ∨ e = 'E' then
      let (sign, rest) : List Char × List Char :=
        match cs with
        | c :: tail => if c = '+' ∨ c = '-' then ([c], tail) else ([], cs)
        | [] => ([], [])
      let digits := rest.takeWhile isDigit
      if digits = [] then none else some (e :: sign ++ digits, rest.dropWhile isDigit)
    else some ([], e :: cs)

/-- A number without a base marker. Only zero itself may begin with a zero, unless the number is
a float. -/
def plainNumber? (cs : List Char) : Option (Token × List Char) :=
  let whole := cs.takeWhile isDigit
  let rest := cs.dropWhile isDigit
  let (fraction, rest) : List Char × List Char :=
    match rest with
    | '.' :: tail => ('.' :: tail.takeWhile isDigit, tail.dropWhile isDigit)
    | _ => ([], rest)
  match exponentChars? rest with
  | none => none
  | some (exponent, rest) =>
    if fraction = [] ∧ exponent = [] then
      if 1 < whole.length ∧ whole.head? = some '0' ∧ whole.any (· ≠ '0') then none
      else some (.int (valueOf 10 whole), rest)
    else (real? binary64 (whole ++ fraction ++ exponent)).map fun bits => (.float bits, rest)

/-- The number at the head of a text. -/
def number? : List Char → Option (Token × List Char)
  | '0' :: m :: cs =>
    if m = 'x' ∨ m = 'X' then markedInt? 16 cs
    else if m = 'o' ∨ m = 'O' then markedInt? 8 cs
    else if m = 'b' ∨ m = 'B' then markedInt? 2 cs
    else plainNumber? ('0' :: m :: cs)
  | cs => plainNumber? cs

/-- Whether a number may end before a text. A name cannot follow at once, but a reserved word
can. -/
def endsNumber (cs : List Char) : Bool :=
  let word := cs.takeWhile isNamePart
  word = [] || String.ofList word ∈ reserved

/-- What an escape in a string literal stands for, its backslash removed, and how many
characters it has. Numeric escapes of one byte stay below a limit. -/
def escape? (limit : Nat) (cs : List Char) : Option (List UInt8 × Nat) :=
  let octal := (cs.take 3).takeWhile (isDigitOf 8)
  if octal ≠ [] then
    let n := valueOf 8 octal
    if n < limit then some ([UInt8.ofNat n], octal.length) else none
  else
    match cs with
    | '\'' :: _ => some ([0x27], 1)
    | 'x' :: rest =>
      match Text.Quoted.fixedDigits? 16 2 rest 0 with
      | some n => if n < limit then some ([UInt8.ofNat n], 3) else none
      | none => none
    | _ => Text.Quoted.escape? '"' cs

/-- How a string literal is written: with which quote, whether with three of them, whether its
backslashes stand for themselves, and whether its bytes need not be text. -/
structure Quoting where
  quote : Char
  tripled : Bool
  raw : Bool
  anyBytes : Bool

namespace Quoting

/-- The quotes at either end. -/
def marks (q : Quoting) : List Char :=
  if q.tripled then [q.quote, q.quote, q.quote] else [q.quote]

/-- What numeric escapes of one byte stay below: only ASCII is text byte by byte. -/
def escapeLimit (q : Quoting) : Nat := if q.anyBytes then 0x100 else 0x80

/-- The token of a literal. -/
def token (q : Quoting) (content : List UInt8) : Token :=
  if q.anyBytes then .octets content else .text content

end Quoting

/-- The bytes of a character in a string literal. Every line end is a line feed there. -/
def plainBytes (c : Char) : List UInt8 := if isLineEnd c then [0x0a] else String.utf8EncodeChar c

/-- The bytes of a string literal after its opening quotes, and the text after it. `skip`
characters belong to the escape before, and `acc` holds the bytes so far in reverse. Only
between tripled quotes may there be line ends, but an escaped one is left out anywhere. -/
def literal? (q : Quoting) (skip : Nat) : List Char → List UInt8 → Option (Token × List Char)
  | [], _ => none
  | c :: cs, acc =>
    match skip with
    | k + 1 => literal? q k cs acc
    | 0 =>
      if q.marks.isPrefixOf (c :: cs) then
        some (q.token acc.reverse, (c :: cs).drop q.marks.length)
      else if isLineEnd c ∧ ¬ q.tripled then none
      else if c = '\\' then
        match cs with
        | [] => none
        | d :: _ =>
          if q.raw then literal? q 1 cs ((plainBytes d).reverse ++ 0x5c :: acc)
          else if isLineEnd d then literal? q 1 cs acc
          else
            match escape? q.escapeLimit cs with
            | some (content, n) => literal? q n cs (content.reverse ++ acc)
            | none => none
      else literal? q 0 cs ((plainBytes c).reverse ++ acc)

/-- The string literal at the head of a text, if a quote or a marked quote stands there. -/
def quoted? (cs : List Char) : Option (Option (Token × List Char)) :=
  let (raw, anyBytes, cs) : Bool × Bool × List Char :=
    match cs with
    | 'r' :: 'b' :: rest => (true, true, rest)
    | 'r' :: rest => (true, false, rest)
    | 'b' :: rest => (false, true, rest)
    | _ => (false, false, cs)
  match cs with
  | [] => none
  | quote :: rest =>
    if quote = '"' ∨ quote = '\'' then
      let tripled := [quote, quote].isPrefixOf rest
      some (literal? ⟨quote, tripled, raw, anyBytes⟩ 0 (if tripled then rest.drop 2 else rest) [])
    else none

/-- The operator at the head of a text. -/
def operator? (cs : List Char) : Option (Token × List Char) :=
  (operators.find? fun op => op.toList.isPrefixOf cs).map fun op => (.mark op, cs.drop op.length)

/-- The bracket depth after a mark. -/
def depthAfter (depth : Nat) : Token → Nat
  | .mark m =>
    if m = "(" ∨ m = "[" ∨ m = "\x7b" then depth + 1
    else if m = ")" ∨ m = "]" ∨ m = "\x7d" then depth - 1
    else depth
  | _ => depth

/-- The text after a comment. -/
def afterComment (cs : List Char) : List Char :=
  cs.dropWhile fun c => !isLineEnd c && c ≠ terminator

/-- The text at the start of a line, from its first line on that holds more than blanks and a
comment. The number bounds how many lines are left out. -/
def skipBlankLines : Nat → List Char → List Char
  | 0, cs => cs
  | fuel + 1, cs =>
    let afterLine (rest : List Char) : List Char :=
      match rest with
      | c :: rest => if isLineEnd c then skipBlankLines fuel rest else []
      | [] => []
    match cs.dropWhile isBlank with
    | [] => []
    | c :: rest =>
      if c = '#' then afterLine (afterComment rest)
      else if isLineEnd c ∨ c = terminator then afterLine (c :: rest)
      else cs

/-- How far a tab reaches at most. -/
def tabWidth : Nat := 8

/-- The width of the margin of a line. How far a tab reaches depends on how many characters
stand before it. -/
def margin (cs : List Char) : Nat :=
  ((cs.takeWhile isBlank).zipIdx).foldl
    (fun width (c, i) => width + if c = '\t' then tabWidth - i % tabWidth else 1) 0

/-- The margins of the open blocks, the innermost first, after a line with a margin, and the
tokens that open or close blocks. A line must share its margin with a block or open one. -/
def openLine? (margins : List Nat) (width : Nat) : Option (List Nat × List Token) :=
  let left := margins.dropWhile fun m => decide (width < m)
  match left with
  | [] => none
  | m :: _ =>
    if m = width then some (left, List.replicate (margins.length - left.length) .outdent)
    else if left.length = margins.length then some (width :: margins, [.indent])
    else none

/-- The tokens at the end of a text, where blocks that are still open end, after those before,
which are in reverse. -/
def finish (margins : List Nat) (acc : List Token) : List Token :=
  let acc := if margins.length ≤ 1 ∨ acc.head? = some .lineEnd then acc else .lineEnd :: acc
  acc.reverse ++ List.replicate (margins.length - 1) .outdent

/-- The tokens of a text that begins inside a line, at most `fuel` of them and the blanks
between, after those before, which are in reverse. `depth` brackets are open, and blocks with
the given margins. -/
def scanFrom : Nat → Nat → List Nat → List Char → List Token → Option (List Token)
  | _, _, margins, [], acc => some (finish margins acc)
  | 0, _, _, _ :: _, _ => none
  | fuel + 1, depth, margins, c :: cs, acc =>
    let continueWith (r : Option (Token × List Char)) : Option (List Token) :=
      match r with
      | some (token, rest) => scanFrom fuel (depthAfter depth token) margins rest (token :: acc)
      | none => none
    if c = terminator then some (finish margins acc)
    else if let some r := quoted? (c :: cs) then continueWith r
    else if isBlank c then scanFrom fuel depth margins cs acc
    else if c = '#' then scanFrom fuel depth margins (afterComment cs) acc
    else if c = '\\' then
      match cs with
      | [] => none
      | d :: rest => if isLineEnd d then scanFrom fuel depth margins rest acc else none
    else if isLineEnd c then
      if 0 < depth then scanFrom fuel depth margins cs acc
      else
        match skipBlankLines fuel cs with
        | [] => some (finish margins (.lineEnd :: acc))
        | d :: rest =>
          match openLine? margins (margin (d :: rest)) with
          | none => none
          | some (margins, blocks) =>
            scanFrom fuel depth margins (d :: rest) (blocks ++ .lineEnd :: acc)
    else if isDigit c ∨ (c = '.' ∧ (cs.head?.map isDigit).getD false = true) then
      continueWith ((number? (c :: cs)).filter fun (_, rest) => endsNumber rest)
    else if isNameStart c then
      let word := String.ofList (c :: cs.takeWhile isNamePart)
      continueWith <|
        some (if word ∈ reserved then .mark word else .name word, cs.dropWhile isNamePart)
    else continueWith (operator? (c :: cs))

/-- The tokens of a text without a margin, or `none` if some part of it is no token. -/
def scan (cs : List Char) : Option (List Token) := scanFrom (cs.length + 1) 0 [0] cs []

end Token

end TaskMachine.Expr
