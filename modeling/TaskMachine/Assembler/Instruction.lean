import TaskMachine.Assembler.Operand
import TaskMachine.Isa.Form

/-!
# Assembled lines

The words of a source line, once labels and equates are dealt with, are a
mnemonic with the operands of its form, or `.word` with the numbers to place.
The registers of an instruction are read before its values, and its target
last.
-/

namespace TaskMachine

/-- The number of operands a form is written with. -/
def Form.operandCount : Form → Nat
  | .regs3 | .regs2Byte _ | .regs2Info | .compareInfo | .compareByte _ | .compareRegs
  | .regRange => 3
  | .regs2 | .regHalf | .regInfo => 2
  | .reg1 | .distance => 1
  | .bare => 0

/-- The error for operands whose number is not the one wanted. -/
def countError (wanted : Nat) (operands : List String) : AsmError :=
  if operands.length < wanted then .operandMissing else .operandExtra

/-- The directive that places numbers. -/
def wordDirective : String := ".word"

namespace Asm

/-- Assembles an instruction with its operands into a line. -/
def instruction (op : Opcode) (line : Line) (operands : List String) : Asm Line :=
  match op.form, operands with
  | .regs3, [d, s, t] => do
    let d ← register d
    let s ← register s
    let t ← register t
    return { line with codes := [Word.ofRegs op.code d s t] }
  | .regs2, [d, s] => do
    let d ← register d
    let s ← register s
    return { line with codes := [Word.ofRegs op.code d s Reg.zero] }
  | .regs2Byte signed, [d, s, imm] => do
    let d ← register d
    let s ← register s
    let imm ← byteField signed imm
    return { line with codes := [Word.ofRegsByte op.code d s imm.toUInt8] }
  | .regs2Info, [d, s, value] => do
    let d ← register d
    let s ← register s
    let info ← operandInfo value
    return { line with codes := [Word.ofRegs op.code d s Reg.zero, info] }
  | .compareInfo, [d, value, target] => do
    let d ← register d
    let info ← operandInfo value
    aim { line with codes := [Word.ofRegs op.code d Reg.zero Reg.zero, info] } .half target
  | .compareByte signed, [d, imm, target] => do
    let d ← register d
    let imm ← byteField signed imm
    aim { line with codes := [Word.ofRegBytes op.code d imm.toUInt8 0] } .byte target
  | .compareRegs, [d, s, target] => do
    let d ← register d
    let s ← register s
    aim { line with codes := [Word.ofRegs op.code d s Reg.zero, 0] } .info target
  | .regHalf, [d, imm] => do
    let d ← register d
    let imm ← signedField 16 imm
    return { line with codes := [Word.ofRegHalf op.code d imm.toUInt16] }
  | .regInfo, [d, target] => do
    let d ← register d
    aim { line with codes := [Word.ofRegHalf op.code d 0, 0] } .absolute target
  | .reg1, [d] => do
    let d ← register d
    return { line with codes := [Word.ofRegHalf op.code d 0] }
  | .distance, [target] => aim { line with codes := [Word.ofOffset24 op.code 0] } .word target
  | .regRange, [first, last] => do
    let first ← register first
    let last ← register last
    return { line with codes := [Word.ofRegsByte op.code first last 0] }
  | .regRange, [first, last, extra] => do
    let first ← register first
    let last ← register last
    let extra ← unsignedByte extra
    return { line with codes := [Word.ofRegsByte op.code first last extra.toUInt8] }
  | .bare, [] => return { line with codes := [Word.ofCode op.code] }
  | form, operands => throw (countError form.operandCount operands)

/-- The values of some numbers. -/
def numbers : List String → Asm (List UInt32)
  | [] => return []
  | word :: words => do
    let value ← number word
    let values ← numbers words
    return value :: values

/-- Assembles the words of a line. -/
def lineOf (line : Line) (head : String) (operands : List String) : Asm Line :=
  if head = wordDirective then
    if operands = [] then throw .operandMissing
    else do
      let values ← numbers operands
      return { line with codes := values }
  else
    match Opcode.ofMnemonic? head with
    | some op => instruction op line operands
    | none => throw .instructionInvalid

/-- Assembles the words of a source line and appends what they generate. -/
def assembleWords (number : Nat) : List String → Asm Unit
  | [] => return ()
  | head :: operands => do
    let line ← lineOf { number, pc := ← currentPc, words := head :: operands } head operands
    emit line

end Asm

end TaskMachine
