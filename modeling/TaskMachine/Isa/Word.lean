import TaskMachine.Isa.Register

/-!
# Instruction words

An instruction word is four bytes, the opcode lowest. The bytes above it are
lanes `a`, `b` and `c`, read as register fields, as raw or signed bytes, as a
16-bit number in `b` and `c`, or as a 24-bit number in all three. The builders
put such fields together and the readers take them apart.
-/

namespace TaskMachine

namespace Word

/-- A word from its bytes, the lowest first. -/
def ofBytes (op a b c : UInt8) : UInt32 :=
  op.toUInt32 ||| a.toUInt32 <<< 8 ||| b.toUInt32 <<< 16 ||| c.toUInt32 <<< 24

/-- The opcode byte. -/
def code (w : UInt32) : UInt8 := w.toUInt8

/-- The byte above the opcode. -/
def laneA (w : UInt32) : UInt8 := (w >>> 8).toUInt8

/-- The third byte. -/
def laneB (w : UInt32) : UInt8 := (w >>> 16).toUInt8

/-- The highest byte. -/
def laneC (w : UInt32) : UInt8 := (w >>> 24).toUInt8

/-- The register in lane `a`: a destination, a comparand or the start of a range. -/
def regA (w : UInt32) : Reg := Reg.ofField (laneA w)

/-- The register in lane `b`: the first source or the end of a range. -/
def regB (w : UInt32) : Reg := Reg.ofField (laneB w)

/-- The register in lane `c`: the second source. -/
def regC (w : UInt32) : Reg := Reg.ofField (laneC w)

/-- Lanes `b` and `c` as one 16-bit number. -/
def half (w : UInt32) : UInt16 := (w >>> 16).toUInt16

/-- The signed 24-bit number above the opcode. -/
def offset24 (w : UInt32) : Int32 := w.toInt32 >>> 8

/-- The word with another 16-bit number in lanes `b` and `c`. -/
def withHalf (w : UInt32) (imm : UInt16) : UInt32 :=
  ofBytes (code w) (laneA w) imm.toUInt8 (imm >>> 8).toUInt8

/-- The word with another byte in lane `c`. -/
def withLaneC (w : UInt32) (c : UInt8) : UInt32 := ofBytes (code w) (laneA w) (laneB w) c

/-- Builds a word with three registers. -/
def ofRegs (code : UInt8) (d s t : Reg) : UInt32 := ofBytes code d.field s.field t.field

/-- Builds a word with two registers and a byte in lane `c`. -/
def ofRegsByte (code : UInt8) (d s : Reg) (t : UInt8) : UInt32 := ofBytes code d.field s.field t

/-- Builds a word with one register and bytes in lanes `b` and `c`. -/
def ofRegBytes (code : UInt8) (d : Reg) (s t : UInt8) : UInt32 := ofBytes code d.field s t

/-- Builds a word with one register and a 16-bit number. -/
def ofRegHalf (code : UInt8) (d : Reg) (imm : UInt16) : UInt32 :=
  ofBytes code d.field imm.toUInt8 (imm >>> 8).toUInt8

/-- Builds a word with a 24-bit number, of which only the low 24 bits are kept. -/
def ofOffset24 (code : UInt8) (value : UInt32) : UInt32 :=
  ofBytes code value.toUInt8 (value >>> 8).toUInt8 (value >>> 16).toUInt8

/-- Builds a word without operands. -/
def ofCode (code : UInt8) : UInt32 := code.toUInt32

/-- A byte as a word with its sign carried up. -/
def signExtend8 (b : UInt8) : UInt32 := b.toInt8.toInt32.toUInt32

/-- A 16-bit number as a word with its sign carried up. -/
def signExtend16 (h : UInt16) : UInt32 := h.toInt16.toInt32.toUInt32

end Word

end TaskMachine
