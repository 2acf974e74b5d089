import TaskMachine.Isa.Form
import TaskMachine.Isa.Word

/-!
# Instruction text

An instruction word written as assembly. An operand that lives in the info word
is shown as `#`, distances carry their sign, and a word with an unassigned
opcode is shown as data.
-/

namespace TaskMachine

open Numeral

/-- The text of a word whose opcode is `op`. -/
def Opcode.textOf (op : Opcode) (w : UInt32) : String :=
  let d := Reg.name (Word.regA w)
  let s := Reg.name (Word.regB w)
  let parts : List String :=
    match op.form with
    | .regs3 => [d, s, Reg.name (Word.regC w)]
    | .regs2 => [d, s]
    | .regs2Byte true => [d, s, decimal (Word.laneC w).toInt8.toInt]
    | .regs2Byte false => [d, s, decimal (Word.laneC w).toNat]
    | .regs2Info => [d, s, "#"]
    | .compareInfo => [d, "#", signedDecimal (Word.half w).toInt16.toInt]
    | .compareByte _ =>
      [d, decimal (Word.laneB w).toInt8.toInt, signedDecimal ((Word.laneC w).toInt8.toInt * 4)]
    | .compareRegs => [d, s, "#"]
    | .regHalf => [d, decimal (Word.half w).toInt16.toInt]
    | .regInfo => [d, "#"]
    | .reg1 => [d]
    | .distance => [signedDecimal (Word.offset24 w).toInt]
    | .regRange => [d, s, decimal (Word.laneC w).toNat]
    | .bare => []
  " ".intercalate (op.mnemonic :: parts)

/-- The text of an instruction word. -/
def disassemble (w : UInt32) : String :=
  match Opcode.ofCode? (Word.code w) with
  | some op => op.textOf w
  | none => ".word 0x" ++ hexWord w

end TaskMachine
