import TaskMachine.Assembler.Instruction
import TaskMachine.Assembler.Replacement
import TaskMachine.Numeral.Real

/-!
# Reading a source line

A line defines an equate or a constant, or it is a run of labels before an
instruction or a macro. Equates are replaced word for word, and only once. A
macro's arguments are equates while its body is assembled, and whatever the
body does to the equates is undone behind it; `@` in the body stands for a mark
made of the macro's name and the number of the line that invokes it.
-/

namespace TaskMachine

open Numeral

/-- The equate that holds the number of the current line. -/
def lineEquate : String := "LINENO"

/-- The words with equates in place of their names. -/
def substituted (equates : Table String) (words : List String) : List String :=
  words.map fun word => (equates.find? word).getD word

/-- The label that a word defines, if it ends in a colon. -/
def definedLabel? (word : String) : Option String :=
  match word.toList.getLast? with
  | some ':' => some (String.ofList word.toList.dropLast)
  | _ => none

/-- The constant that the operands of a pool definition describe. -/
def constantOf (kind value : String) (more : List String) : Except AsmError PoolItem :=
  if kind = "int" then
    if more ≠ [] then .error .poolSyntax
    else
      match numberOf? value with
      | some v => .ok (.integer v)
      | none => .error (notNumber value)
  else if kind = "float" then
    if more ≠ [] then .error .poolSyntax
    else
      match real? binary32 value.toList with
      | some bits => .ok (.float (UInt32.ofNat bits))
      | none => .error (.notNumber value)
  else if kind = "str" then
    match Text.Quoted.decode (" ".intercalate (value :: more)).toList with
    | some bytes => .ok (.text bytes)
    | none => .error .poolSyntax
  else .error .poolSyntax

/-- The mark of an expansion, which its local labels begin with. -/
def localMark (name : String) (number : Nat) : String := name ++ "_" ++ decimalNat number ++ "_"

/-- A line of a macro's body with the mark of its expansion. -/
def marked (mark line : String) : String :=
  String.ofList (line.toList.flatMap fun c => if c = '@' then mark.toList else [c])

namespace Asm

/-- Defines an equate by its operands. -/
def defineEquate : List String → Asm Unit
  | [name, value] => do
    if (← equate? name).isSome then throw .equateDuplicate
    setEquate name value
  | _ => throw .equateSyntax

/-- Defines a constant by its operands: the name becomes an equate for the index. -/
def defineConstant : List String → Asm Unit
  | name :: kind :: value :: more => do
    if (← equate? name).isSome then throw .equateDuplicate
    match constantOf kind value more with
    | .ok item =>
      let index ← intern item
      setEquate name (poolReference index)
    | .error e => throw e
  | _ => throw .poolSyntax

/-- Binds a label to the offset of the next word. -/
def defineLabel (label : String) : Asm Unit := do
  if (← get).labels.contains label then throw .labelDuplicate
  let pc ← currentPc
  modify fun s => { s with labels := s.labels.insert label pc }

/-- Binds the labels that some words begin with, and gives the words behind them. -/
def takeLabels : List String → Asm (List String)
  | [] => return []
  | word :: words =>
    match definedLabel? word with
    | none => return word :: words
    | some label => do
      defineLabel label
      takeLabels words

/-- Sets the parameters of a macro to its arguments. -/
def bindParams : List String → List String → Asm Unit
  | param :: params, arg :: args => do
    setEquate param arg
    bindParams params args
  | _, _ => return ()

/-- A reader of numbered lines: it gives the words that are left to assemble. -/
abbrev LineReader := Nat → String → Asm (List String)

/-- Assembles the lines of a macro's body, the first of which has the given number. -/
def expandBody (read : LineReader) (name mark : String) : Nat → List String → Asm Unit
  | _, [] => return ()
  | number, line :: lines => do
    let line := marked mark line
    wrapping (fun e => .located number line (.expanding name number e)) do
      let words ← read number line
      assembleWords number words
    expandBody read name mark (number + 1) lines

/-- Expands a macro that the line with the given number invokes. -/
def expand (read : LineReader) (number : Nat) (name : String) (m : MacroDef)
    (args : List String) : Asm Unit :=
  if args.length ≠ m.params.length then throw .macroSyntax
  else withScope do
    bindParams m.params args
    expandBody read name (localMark name number) m.number m.body

/-- Reads a line, with another reader for the lines of macros. -/
def readLineWith [Interpreter] (nested : LineReader) : LineReader := fun number line => do
  setEquate lineEquate (decimalNat number)
  match wordsOf (← get).equates line with
  | .error e => throw e
  | .ok [] => return []
  | .ok (head :: rest) =>
    if head = ".equ" then
      defineEquate rest
      return []
    else if head = ".pool" then
      defineConstant rest
      return []
    else
      let words ← takeLabels (substituted (← get).equates (head :: rest))
      match words with
      | [] => return []
      | name :: args =>
        match (← get).macros.find? name with
        | some m =>
          expand nested number name m args
          return []
        | none => return words

/-- Reads a line whose macros may nest to the given depth. -/
def readLine [Interpreter] : Nat → LineReader
  | 0 => readLineWith fun _ _ => throw .macroDepth
  | depth + 1 => readLineWith (readLine depth)

end Asm

end TaskMachine
