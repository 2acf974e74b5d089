import TaskMachine.Assembler.Source

/-!
# Memory layout

Programs are loaded at the origin, and task stacks are carved from the end of
memory. A source can refer to the layout it is assembled for through predefined
equates.
-/

namespace TaskMachine

open Numeral

/-- The usual address of programs, which sources know by a name. -/
def usualOrigin : UInt32 := 0x1000

/-- Where programs and stacks lie. -/
structure Layout where
  origin : UInt32 := usualOrigin
  memorySize : UInt32 := 0x10000
  stackSize : UInt32 := 0x400
  deriving DecidableEq, Repr

namespace Layout

/-- The first address past the memory. -/
def memoryEnd (l : Layout) : UInt32 := l.origin + l.memorySize

/-- The layout with a memory of the given size; zero stands for the usual size. -/
def withMemory (l : Layout) (size : UInt32) : Layout :=
  if size = 0 then l else { l with memorySize := size }

/-- The equates that describe the layout. The one for the origin is the usual origin, wherever
programs of the layout lie. -/
def defines (l : Layout) : Table String :=
  .ofList [
    ("MEMORY_END", hexLiteral l.memoryEnd.toNat), ("MEMORY_SIZE", hexLiteral l.memorySize.toNat),
    ("ORIGIN", hexLiteral usualOrigin.toNat), ("STACK_SIZE", hexLiteral l.stackSize.toNat)]

/-- An assembler of sources for the layout. -/
def assembler (l : Layout) (verbose : Bool) : Assembler :=
  { origin := l.origin, verbose, predefined := l.defines }

end Layout

end TaskMachine
