import TaskMachine.Store.Pool
import TaskMachine.Table

/-!
# Assembled programs

A program is a sequence of assembled lines, each with its offset from the
origin and its words, together with the constant pool and the labels. The image
of the program is the words of its lines one after the other.
-/

namespace TaskMachine

/-- Where a branch distance or an address is patched into a line. -/
inductive LinkKind where
  | none
  /-- A 16-bit distance in the instruction. -/
  | half
  /-- An 8-bit distance in instructions. -/
  | byte
  /-- A 24-bit distance in the instruction. -/
  | word
  /-- A distance in the info word. -/
  | info
  /-- An address in the info word. -/
  | absolute
  deriving DecidableEq, Repr

namespace LinkKind

/-- The number of a link kind. -/
def number : LinkKind → Nat
  | .none => 0
  | .half => 1
  | .byte => 2
  | .word => 3
  | .info => 4
  | .absolute => 5

/-- The name of a link kind's number. -/
def nameOf (n : Int) : String :=
  kindName "LinkKind" ["none", "imm16", "byte", "word", "info", "absolute"] n

/-- The name of a link kind. -/
def name (k : LinkKind) : String := nameOf k.number

end LinkKind

/-- An assembled line: where it stands in the source and in the image, its words as text and as
code, and the label it waits for. -/
structure Line where
  number : Nat
  pc : UInt32
  words : List String
  codes : List UInt32 := []
  target : Option String := none
  link : LinkKind := .none
  deriving DecidableEq, Repr

namespace Line

/-- The bytes a line takes up. -/
def size (line : Line) : UInt32 := UInt32.ofNat (line.codes.length * 4)

/-- The text of a line. -/
def text (line : Line) : String := " ".intercalate line.words

end Line

/-- The offset behind the last of some lines. -/
def endOffset (lines : Array Line) : UInt32 :=
  match lines.back? with
  | some last => last.pc + last.size
  | none => 0

/-- An assembled program. -/
structure Program where
  origin : UInt32
  lines : Array Line := #[]
  pool : Pool := {}
  labels : Table UInt32 := {}
  deriving DecidableEq, Repr

/-- The addresses and words of some words from an address on. -/
def addressed : UInt32 → List UInt32 → List (UInt32 × UInt32)
  | _, [] => []
  | addr, w :: ws => (addr, w) :: addressed (addr + 4) ws

namespace Program

/-- The size of the image in bytes. -/
def size (p : Program) : UInt32 := endOffset p.lines

/-- The address and the value of every word of the image. -/
def codes (p : Program) : List (UInt32 × UInt32) :=
  p.lines.toList.flatMap fun line => addressed (p.origin + line.pc) line.codes

/-- The words of the image. -/
def image (p : Program) : List UInt32 := p.codes.map (·.2)

/-- Whether a line of the program covers an address. -/
def covers (p : Program) (pc : UInt32) (line : Line) : Bool :=
  let addr := p.origin + line.pc
  addr ≤ pc && pc < addr + line.size

/-- The line that generated the word at an address, and which of its words that is. -/
def lineAt? (p : Program) (pc : UInt32) : Option (Line × Nat) :=
  (p.lines.find? (p.covers pc)).map fun line => (line, (pc - (p.origin + line.pc)).toNat / 4)

/-- The source line of an address, zero if there is none. -/
def lineNumber (p : Program) (pc : UInt32) : Nat :=
  match p.lineAt? pc with
  | some (line, _) => line.number
  | none => 0

/-- The address of a label. -/
def entry? (p : Program) (label : String) : Option UInt32 :=
  (p.labels.find? label).map (p.origin + ·)

end Program

end TaskMachine
