import TaskMachine.Assembler.Error
import TaskMachine.Assembler.Program
import TaskMachine.Log

/-!
# The state of an assembly

What has been assembled and defined so far. The assembler's work is done in
`Asm`, which keeps the state it reached when it fails.
-/

namespace TaskMachine

/-- A macro: the number of its first body line, its parameters and its body. -/
structure MacroDef where
  number : Nat
  params : List String
  body : List String
  deriving DecidableEq, Repr

/-- What an assembly has produced and knows. -/
structure Assembly where
  origin : UInt32 := 0
  lines : Array Line := #[]
  labels : Table UInt32 := {}
  equates : Table String := {}
  macros : Table MacroDef := {}
  pool : Pool := {}
  log : Log := {}
  deriving DecidableEq, Repr

/-- A part of the assembler's work. -/
abbrev Asm := EStateM AsmError Assembly

namespace Asm

/-- Notes a line in the log. -/
def note (line : Unit → String) : Asm Unit :=
  modify fun s => { s with log := s.log.note line }

/-- The offset of the next word. -/
def currentPc : Asm UInt32 := do
  return endOffset (← get).lines

/-- The value of an equate. -/
def equate? (name : String) : Asm (Option String) := do
  return (← get).equates.find? name

/-- Sets an equate. -/
def setEquate (name value : String) : Asm Unit :=
  modify fun s => { s with equates := s.equates.insert name value }

/-- The index of a constant in the pool, where it is put if it is new. -/
def intern (item : PoolItem) : Asm UInt32 := do
  let (pool, index) := (← get).pool.intern item
  modify fun s => { s with pool := pool }
  return index

/-- Appends an assembled line. -/
def emit (line : Line) : Asm Unit :=
  modify fun s => { s with lines := s.lines.push line }

/-- Work whose errors are given a place or a wrapping. -/
def wrapping {α : Type} (wrap : AsmError → AsmError) (work : Asm α) : Asm α := fun s =>
  match work s with
  | .ok a s => .ok a s
  | .error e s => .error (wrap e) s

/-- Work whose changes to the equates are undone at its end, whether it succeeds or not. -/
def withScope {α : Type} (work : Asm α) : Asm α := fun s =>
  let equates := s.equates
  match work s with
  | .ok a t => .ok a { t with equates }
  | .error e t => .error e { t with equates }

end Asm

end TaskMachine
