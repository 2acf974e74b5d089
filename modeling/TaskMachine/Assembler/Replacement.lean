import TaskMachine.Assembler.Operand
import TaskMachine.Text.Lines

/-!
# Values written into a line

Before a line is cut into words, a character in quotes is replaced by its code
and `$( )` by the value of the expression inside. An expression extends to the
last closing bracket before the next `$`.
-/

namespace TaskMachine

open Numeral

/-- The code of a quoted character, for the escapes that have one. -/
def escapeCode? : Char → Option Nat
  | '\\' => some 92
  | 'n' => some 10
  | 'r' => some 13
  | 'e' => some 27
  | _ => none

/-- The code of a plain quoted character; only a character of one byte has one. -/
def plainCode? (c : Char) : Option Nat :=
  if c.utf8Size = 1 ∧ c ≠ '\\' then some c.toNat else none

/-- A character literal at the head of a text: its code, if it has one, and its length. -/
def charLiteral? : List Char → Option (Option Nat × Nat)
  | '\'' :: '\\' :: c :: '\'' :: _ =>
    if c = '\'' then some (none, 3) else some (escapeCode? c, 4)
  | '\'' :: c :: '\'' :: _ => if c = '\'' then none else some (plainCode? c, 3)
  | _ => none

/-- A text with its character literals replaced by their codes. A literal without a code stays
as it is. `skip` characters belong to the literal before, and `acc` holds the text so far in
reverse. -/
def replaceChars (skip : Nat) : List Char → List Char → List Char
  | [], acc => acc.reverse
  | c :: cs, acc =>
    match skip with
    | k + 1 => replaceChars k cs acc
    | 0 =>
      match charLiteral? (c :: cs) with
      | some (some code, n) =>
        replaceChars (n - 1) cs ((Nat.toDigits 10 code).reverse ++ acc)
      | some (none, n) => replaceChars (n - 1) cs (((c :: cs).take n).reverse ++ acc)
      | none => replaceChars 0 cs (c :: acc)

/-- The part of a text before its last closing bracket. -/
def beforeLastClosing? (cs : List Char) : Option (List Char) :=
  match cs.reverse.dropWhile (· ≠ ')') with
  | [] => none
  | _ :: body => some body.reverse

/-- The expression at the head of a text, without its brackets. -/
def expression? : List Char → Option (List Char)
  | '$' :: '(' :: cs => beforeLastClosing? (cs.takeWhile (· ≠ '$'))
  | _ => none

/-- A text with every expression in it replaced by the spelling of its value. If expressions
fail, the last failure counts. `skip` and `acc` are as for `replaceChars`. -/
def replaceExpressions (value : List Char → Except AsmError UInt32) (skip : Nat) :
    List Char → List Char → Option AsmError → Except AsmError (List Char)
  | [], acc, none => .ok acc.reverse
  | [], _, some e => .error e
  | c :: cs, acc, failure =>
    match skip with
    | k + 1 => replaceExpressions value k cs acc failure
    | 0 =>
      match expression? (c :: cs) with
      | none => replaceExpressions value 0 cs (c :: acc) failure
      | some body =>
        match value body with
        | .ok v =>
          replaceExpressions value (body.length + 2) cs
            ((hexLiteral v.toNat).toList.reverse ++ acc) failure
        | .error e => replaceExpressions value (body.length + 2) cs acc (some e)

/-- The meaning of an equate's name in an expression: equates that are no numbers mean
nothing there. -/
def equateValue (equates : Table String) (name : String) : Option Int :=
  ((equates.find? name).bind numberOf?).map fun v => v.toInt32.toInt

/-- The name that the value of an expression is bound to. -/
def resultName : String := "rc"

/-- The script that binds the value of an expression to a name. Text that begins with an equals
sign turns this into a comparison, and a carriage return begins another statement. -/
def valueScript (body : List Char) : List Char := resultName.toList ++ '=' :: (body ++ ['\n'])

/-- The low 32 bits of the value of an expression over the equates, which must be an integer of at
most 64 bits. -/
def expressionValue [Interpreter] (equates : Table String) (body : List Char) :
    Except AsmError UInt32 :=
  match Interpreter.integerOf (equateValue equates) (valueScript body) resultName with
  | .ok n =>
    if -0x8000000000000000 ≤ n ∧ n < 0x8000000000000000 then .ok (UInt32.ofInt n)
    else .error (.notExpression (String.ofList body))
  | .error .notInteger => .error (.notExpression (String.ofList body))
  | .error e => .error (.expression e)

/-- The words of a line after the replacements in it. -/
def wordsOf [Interpreter] (equates : Table String) (line : String) :
    Except AsmError (List String) :=
  match replaceExpressions (expressionValue equates) 0 (replaceChars 0 line.toList []) [] none with
  | .ok cs => .ok ((Text.words cs).map String.ofList)
  | .error e => .error e

end TaskMachine
