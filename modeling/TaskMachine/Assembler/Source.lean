import TaskMachine.Assembler.Line
import TaskMachine.Text.Blank

/-!
# Assembling a source text

The lines of a source are read once from top to bottom; macros are collected as
they are defined, and all else is assembled where it stands. When the last line
has been read, the labels that lines wait for are patched in. What an assembler
makes of a source depends on the source and its predefined equates only, not on
the sources before.
-/

namespace TaskMachine

open Numeral

/-- How deep macros may nest. -/
def macroDepthLimit : Nat := 1000000

/-- The equates of every source. -/
def standardEquates : Table String := .ofList [("INSTRUCTION_SIZE", "4"), (lineEquate, "0")]

/-- The part of a line that counts: what stands before a comment, without blanks around it. -/
def stripped (line : List Char) : String := String.ofList (Text.trim (Text.before ';' line))

namespace Asm

/-- Starts the definition of a macro, whose body follows on the next line. -/
def openMacro (number : Nat) : List String → Asm String
  | [] => throw .macroSyntax
  | name :: params => do
    if (← get).macros.contains name then throw .macroDuplicate
    modify fun s => { s with macros := s.macros.insert name ⟨number + 1, params, []⟩ }
    return name

/-- Adds a line to the body of a macro. -/
def extendMacro (name line : String) : Asm Unit :=
  modify fun s =>
    match s.macros.find? name with
    | some m => { s with macros := s.macros.insert name { m with body := m.body ++ [line] } }
    | none => s

/-- Takes in one line while the macro with the given name, if any, is being defined, and gives
the macro that is being defined after it. -/
def takeLine [Interpreter] (number : Nat) (line : String) (opened : Option String) :
    Asm (Option String) :=
  match (Text.words line.toList).map String.ofList, opened with
  | ".macro" :: _, some _ => throw .macroNesting
  | ".macro" :: rest, none => some <$> openMacro number rest
  | ".endm" :: _, none => throw .macroUnopened
  | ".endm" :: _, some _ => return none
  | _, some name => do
    extendMacro name line
    return some name
  | _, none => do
    let words ← readLine macroDepthLimit number line
    assembleWords number words
    return none

/-- Takes in the lines of a source, the next of which has the given number. The line before is
at hand for a macro that is never closed. -/
def takeLines [Interpreter] : Nat → String → Option String → List (List Char) → Asm Unit
  | number, before, some _, [] => throw (.located (number - 1) before .macroUnclosed)
  | _, _, none, [] => return ()
  | number, _, opened, raw :: rest => do
    note fun _ => decimalNat number ++ ": " ++ String.ofList raw
    let line := stripped raw
    let opened ← wrapping (.located number line) (takeLine number line opened)
    takeLines (number + 1) line opened rest

/-- Patches the label that a line waits for into it. -/
def resolve (line : Line) : Asm Line :=
  match line.target with
  | none => return line
  | some label => do
    match (← get).labels.find? label with
    | none => throw (.labelMissing label)
    | some offset => patch line ((offset.toNat : Int) - (line.pc.toNat : Int)) offset

/-- Patches the labels of some lines, the first of which has the given index. -/
def resolveAll : Nat → List Line → Asm Unit
  | _, [] => return ()
  | index, line :: rest => do
    let resolved ← wrapping (.located line.number line.text) (resolve line)
    modify fun s => { s with lines := s.lines.setIfInBounds index resolved }
    resolveAll (index + 1) rest

/-- Assembles a source. -/
def source [Interpreter] (text : String) : Asm Program := do
  takeLines 1 "" none (Text.readLines text.toList)
  resolveAll 0 (← get).lines.toList
  let s ← get
  return { origin := s.origin, lines := s.lines, pool := s.pool, labels := s.labels }

end Asm

/-- An assembler: its settings, and what the last source left. -/
structure Assembler where
  origin : UInt32 := 0
  verbose : Bool := false
  predefined : Table String := {}
  assembly : Assembly := {}
  deriving DecidableEq, Repr

namespace Assembler

/-- The assembler with an equate that every later source starts with. -/
def define (a : Assembler) (name value : String) : Assembler :=
  { a with predefined := a.predefined.insert name value }

/-- What a source starts from. -/
def start (a : Assembler) : Assembly :=
  { origin := a.origin
    equates := standardEquates.insertAll a.predefined.entries
    log := { enabled := a.verbose } }

/-- Assembles a source. -/
def parse [Interpreter] (a : Assembler) (text : String) : Assembler × Except AsmError Program :=
  match Asm.source text a.start with
  | .ok program s => ({ a with assembly := s }, .ok program)
  | .error e s => ({ a with assembly := s }, .error e)

end Assembler

end TaskMachine
