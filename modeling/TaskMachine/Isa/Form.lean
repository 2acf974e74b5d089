import TaskMachine.Isa.Opcode

/-!
# Operand forms

Every opcode takes its operands in one form. The form decides what the
assembler accepts after the mnemonic, how a word is shown as text, and whether
an info word follows; the coarser shape says how the lanes of the word are cut.
-/

namespace TaskMachine

open Numeral

/-- The name of a numbered kind, or the kind with the number in brackets. -/
def kindName (kind : String) (names : List String) (n : Int) : String :=
  match (if 0 ≤ n then names[n.toNat]? else none) with
  | some name => name
  | none => kind ++ "(" ++ decimal n ++ ")"

/-- How the lanes of an instruction word are cut into fields. -/
inductive Shape where
  | unassigned
  | threeLanes
  | regHalf
  | offset
  | range
  | bare
  deriving DecidableEq, Repr

namespace Shape

/-- The names of the shapes, by number. -/
def names : List String :=
  ["unimplemented", "two-sources", "dest-only", "word", "range-reg", "undefined"]

/-- The number of a shape. -/
def number : Shape → Nat
  | .unassigned => 0
  | .threeLanes => 1
  | .regHalf => 2
  | .offset => 3
  | .range => 4
  | .bare => 5

/-- The name of a shape number. -/
def nameOf (n : Int) : String := kindName "Shape" names n

/-- The name of a shape. -/
def name (s : Shape) : String := nameOf s.number

end Shape

/-- The operands an instruction is written with. -/
inductive Form where
  /-- Three registers. -/
  | regs3
  /-- Two registers. -/
  | regs2
  /-- Two registers and a byte, which is signed or not. -/
  | regs2Byte (signed : Bool)
  /-- Two registers and a value in the info word. -/
  | regs2Info
  /-- A register, a value in the info word, and a 16-bit distance. -/
  | compareInfo
  /-- A register, a byte that is signed or not, and an 8-bit distance in instructions. -/
  | compareByte (signed : Bool)
  /-- Two registers and a distance in the info word. -/
  | compareRegs
  /-- A register and a signed 16-bit number. -/
  | regHalf
  /-- A register and a value or address in the info word. -/
  | regInfo
  /-- One register. -/
  | reg1
  /-- A 24-bit distance. -/
  | distance
  /-- The first and last register of a range, and a number of extra words. -/
  | regRange
  /-- No operands. -/
  | bare
  deriving DecidableEq, Repr

namespace Form

/-- The shape of the words of a form. -/
def shape : Form → Shape
  | .regs3 | .regs2 | .regs2Byte _ | .regs2Info | .compareInfo | .compareByte _ | .compareRegs =>
    .threeLanes
  | .regHalf | .regInfo | .reg1 => .regHalf
  | .distance => .offset
  | .regRange => .range
  | .bare => .bare

end Form

namespace Opcode

/-- The operand form of an opcode. -/
def form : Opcode → Form
  | .add | .and | .mul | .div | .divu | .or | .xor | .sub | .sll | .sra | .srl => .regs3
  | .not | .neg | .exsb | .exsh | .mov | .movb | .movh => .regs2
  | .addb | .subb | .andb | .orb | .addh | .subh | .andh | .orh => .regs3
  | .slli | .srai | .srli | .addbi | .andbi | .orbi => .regs2Byte false
  | .addq | .mulq => .regs2Byte true
  | .sllb | .srlb | .srab | .sllh | .srlh | .srah => .regs3
  | .addhi | .andhi => .regs2Info
  | .beqi | .bnei | .bgei | .bgti | .bgtui | .blei | .bleui | .blti | .bltui => .compareInfo
  | .beqib | .bneib | .bgeib | .bgtib | .bleib | .bltib => .compareByte true
  | .bgtuib | .bleuib | .bltuib => .compareByte false
  | .ldq => .regHalf
  | .jpr | .callr => .reg1
  | .store | .restore => .regRange
  | .ret | .killtask | .sleep => .bare
  | .syscpy | .sysset => .regs3
  | .addi | .andi | .muli | .divi | .divui | .ori | .xori | .subi => .regs2Info
  | .stbd | .sthd | .stwd | .ldbd | .ldhd | .ldwd | .ldbud | .ldhud => .regs2Info
  | .ldi => .regInfo
  | .jpl | .calll => .distance
  | .beq | .bne | .bge | .bgeu | .bgt | .bgtu | .ble | .bleu | .blt | .bltu => .compareRegs

/-- The shape of the words in a slot. -/
def slotShape (code : UInt8) : Shape :=
  match ofCode? code with
  | some op => op.form.shape
  | none => .unassigned

end Opcode

end TaskMachine
