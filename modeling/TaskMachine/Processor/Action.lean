import TaskMachine.Isa.Form
import TaskMachine.Processor.Machine
import TaskMachine.Processor.Operation

/-!
# What instructions do

`Opcode.action` assigns every opcode its action, and `Action.perform` carries
an action out on the fields of an instruction word. The program counter has
already moved past the word when an action begins.
-/

namespace TaskMachine

/-- The behaviour of an instruction, with the operation or relation it uses. -/
inductive Action where
  /-- `D = S op T`. -/
  | binary (op : BinaryOp)
  /-- `D = S / T`. -/
  | divide (d : Division)
  /-- `D = op S`. -/
  | unary (op : UnaryOp)
  /-- `D = S op T` on the narrow parts. -/
  | narrow (op : BinaryOp) (size : Narrow)
  /-- `D = S shifted by T`, where only the narrow part of `S` takes part. -/
  | narrowShift (op : BinaryOp) (size : Narrow)
  /-- `D = S op byte`, the byte signed or not. -/
  | quick (op : BinaryOp) (signed : Bool)
  /-- `D = S op byte` on the low byte. -/
  | quickByte (op : BinaryOp)
  /-- `D = S op info`. -/
  | immediate (op : BinaryOp)
  /-- `D = S op info` on the low halves. -/
  | immediateHalf (op : BinaryOp)
  /-- `D = S / info`. -/
  | divideImmediate (d : Division)
  /-- Compares `D` with the info word and branches by a 16-bit distance. -/
  | branchInfo (c : Condition)
  /-- Compares `D` with a byte, signed or not, and branches by a distance in instructions. -/
  | branchByte (c : Condition) (signed : Bool)
  /-- Compares `D` with `S` and branches by the distance in the info word. -/
  | branchRegs (c : Condition)
  /-- Stores `D` at `S + info`. -/
  | store (size : Width)
  /-- Loads `D` from `S + info`, with or without its sign. -/
  | load (size : Width) (signed : Bool)
  /-- Loads a signed 16-bit number. -/
  | loadQuick
  /-- Loads the value of the info word. -/
  | loadInfo
  | jumpReg
  | callReg
  | jump
  | call
  | ret
  /-- Pushes a range of registers and reserves extra words below them. -/
  | push
  /-- Releases the extra words and pops a range of registers. -/
  | pop
  /-- Copies a block of memory. -/
  | copy
  /-- Fills a block of memory. -/
  | fill
  /-- Ends the task. -/
  | kill
  /-- Gives up the rest of the time slice. -/
  | sleep
  deriving DecidableEq, Repr

/-- The action of an opcode. -/
def Opcode.action : Opcode → Action
  | .add => .binary .add
  | .and => .binary .and
  | .mul => .binary .mul
  | .div => .divide .signed
  | .divu => .divide .unsigned
  | .or => .binary .or
  | .xor => .binary .xor
  | .sub => .binary .sub
  | .sll => .binary .sll
  | .sra => .binary .sra
  | .srl => .binary .srl
  | .not => .unary .not
  | .neg => .unary .neg
  | .exsb => .unary .extendByte
  | .exsh => .unary .extendHalf
  | .mov => .unary .move
  | .addb => .narrow .add .byte
  | .subb => .narrow .sub .byte
  | .andb => .narrow .and .byte
  | .orb => .narrow .or .byte
  | .movb => .unary .moveByte
  | .addh => .narrow .add .half
  | .subh => .narrow .sub .half
  | .andh => .narrow .and .half
  | .orh => .narrow .or .half
  | .movh => .unary .moveHalf
  | .slli => .quick .sll false
  | .srai => .quick .sra false
  | .srli => .quick .srl false
  | .addq => .quick .add true
  | .mulq => .quick .mul true
  | .addbi => .quickByte .add
  | .andbi => .quickByte .and
  | .orbi => .quickByte .or
  | .sllb => .narrowShift .sll .byte
  | .srlb => .narrowShift .srl .byte
  | .srab => .narrowShift .sra .byte
  | .addhi => .immediateHalf .add
  | .andhi => .immediateHalf .and
  | .sllh => .narrowShift .sll .half
  | .srlh => .narrowShift .srl .half
  | .srah => .narrowShift .sra .half
  | .beqi => .branchInfo .eq
  | .bnei => .branchInfo .ne
  | .bgei => .branchInfo .ge
  | .bgti => .branchInfo .gt
  | .bgtui => .branchInfo .gtu
  | .blei => .branchInfo .le
  | .bleui => .branchInfo .leu
  | .blti => .branchInfo .lt
  | .bltui => .branchInfo .ltu
  | .beqib => .branchByte .eq true
  | .bneib => .branchByte .ne true
  | .bgeib => .branchByte .ge true
  | .bgtib => .branchByte .gt true
  | .bgtuib => .branchByte .gtu false
  | .bleib => .branchByte .le true
  | .bleuib => .branchByte .leu false
  | .bltib => .branchByte .lt true
  | .bltuib => .branchByte .ltu false
  | .ldq => .loadQuick
  | .jpr => .jumpReg
  | .callr => .callReg
  | .store => .push
  | .restore => .pop
  | .ret => .ret
  | .killtask => .kill
  | .sleep => .sleep
  | .syscpy => .copy
  | .sysset => .fill
  | .addi => .immediate .add
  | .andi => .immediate .and
  | .muli => .immediate .mul
  | .divi => .divideImmediate .signed
  | .divui => .divideImmediate .unsigned
  | .ori => .immediate .or
  | .xori => .immediate .xor
  | .subi => .immediate .sub
  | .stbd => .store .byte
  | .sthd => .store .half
  | .stwd => .store .word
  | .ldbd => .load .byte true
  | .ldhd => .load .half true
  | .ldwd => .load .word false
  | .ldbud => .load .byte false
  | .ldhud => .load .half false
  | .ldi => .loadInfo
  | .jpl => .jump
  | .calll => .call
  | .beq => .branchRegs .eq
  | .bne => .branchRegs .ne
  | .bge => .branchRegs .ge
  | .bgeu => .branchRegs .geu
  | .bgt => .branchRegs .gt
  | .bgtu => .branchRegs .gtu
  | .ble => .branchRegs .le
  | .bleu => .branchRegs .leu
  | .blt => .branchRegs .lt
  | .bltu => .branchRegs .ltu

open Exec

/-- The registers from `first` to `last`, ascending; none if `last` comes before `first`. -/
def Reg.range (first last : Reg) : List Reg :=
  (List.finRange 64).filter fun r => first ≤ r && r ≤ last

/-- Pushes registers below `sp`, the first one highest, and gives the new stack top. What was
pushed before a fault stays in memory. -/
def pushAll : List Reg → UInt32 → Exec UInt32
  | [], sp => return sp
  | r :: rs, sp => do
    storeBytes (sp - 4) (Memory.wordBytes (← reg r))
    pushAll rs (sp - 4)

/-- Reads one word for each register upward from `sp`, and gives the stack top above them. -/
def popAll : List Reg → UInt32 → Exec (List (Reg × UInt32) × UInt32)
  | [], sp => return ([], sp)
  | r :: rs, sp => do
    let value ← load32 sp
    let (rest, top) ← popAll rs (sp + 4)
    return ((r, value) :: rest, top)

/-- Writes registers one after the other. -/
def setAll : List (Reg × UInt32) → Exec Unit
  | [] => return ()
  | (r, v) :: rest => do
    setReg r v
    setAll rest

/-- The word in a register plus the value of the info word. -/
def operandAddress (pool : Option Pool) (w : UInt32) : Exec UInt32 := do
  let base ← reg (Word.regB w)
  return base + (← fetchInfo pool)

/-- The value loaded from an address. -/
def loadValue (addr : UInt32) : Width → Bool → Exec UInt32
  | .byte, signed => do
    let v ← load8 addr
    return if signed then Word.signExtend8 v else v.toUInt32
  | .half, signed => do
    let v ← load16 addr
    return if signed then Word.signExtend16 v else v.toUInt32
  | .word, _ => load32 addr

/-- The low bytes of a word that a store writes. -/
def storedBytes (v : UInt32) : Width → List UInt8
  | .byte => [v.toUInt8]
  | .half => Memory.halfBytes v.toUInt16
  | .word => Memory.wordBytes v

namespace Action

/-- Carries an action out on the fields of an instruction word. -/
def perform (pool : Option Pool) (w : UInt32) : Action → Exec Unit
  | .binary op => do
    let s ← reg (Word.regB w)
    let t ← reg (Word.regC w)
    setReg (Word.regA w) (op.apply s t)
  | .divide d => do
    let s ← reg (Word.regB w)
    let t ← reg (Word.regC w)
    match d.apply? s t with
    | some v => setReg (Word.regA w) v
    | none => throw .divideByZero
  | .unary op => do
    let s ← reg (Word.regB w)
    setReg (Word.regA w) (op.apply s)
  | .narrow op size => do
    let s ← reg (Word.regB w)
    let t ← reg (Word.regC w)
    setReg (Word.regA w) (op.apply (s &&& size.mask) (t &&& size.mask) &&& size.mask)
  | .narrowShift op size => do
    let s ← reg (Word.regB w)
    let t ← reg (Word.regC w)
    let value := if op = .sra then size.signExtend s else s &&& size.mask
    setReg (Word.regA w) (op.apply value t &&& size.mask)
  | .quick op signed => do
    let s ← reg (Word.regB w)
    let imm := if signed then Word.signExtend8 (Word.laneC w) else (Word.laneC w).toUInt32
    setReg (Word.regA w) (op.apply s imm)
  | .quickByte op => do
    let s ← reg (Word.regB w)
    setReg (Word.regA w) (op.apply (s &&& 0xff) (Word.laneC w).toUInt32 &&& 0xff)
  | .immediate op => do
    let s ← reg (Word.regB w)
    let imm ← fetchInfo pool
    setReg (Word.regA w) (op.apply s imm)
  | .immediateHalf op => do
    let s ← reg (Word.regB w)
    let imm ← fetchInfo pool
    setReg (Word.regA w) (op.apply (s &&& 0xffff) (imm &&& 0xffff) &&& 0xffff)
  | .divideImmediate d => do
    let s ← reg (Word.regB w)
    let imm ← fetchInfo pool
    match d.apply? s imm with
    | some v => setReg (Word.regA w) v
    | none => throw .divideByZero
  | .branchInfo c => do
    let base ← here
    let imm ← fetchInfo pool
    let a ← reg (Word.regA w)
    if c.holds a imm then setReg Reg.pc (base + Word.signExtend16 (Word.half w))
  | .branchByte c signed => do
    let imm := if signed then Word.signExtend8 (Word.laneB w) else (Word.laneB w).toUInt32
    let a ← reg (Word.regA w)
    if c.holds a imm then setReg Reg.pc ((← here) + Word.signExtend8 (Word.laneC w) * 4)
  | .branchRegs c => do
    let base ← here
    let a ← reg (Word.regA w)
    let b ← reg (Word.regB w)
    if c.holds a b then setReg Reg.pc (base + (← fetchInfo pool)) else skipInfo
  | .store size => do
    let addr ← operandAddress pool w
    storeBytes addr (storedBytes (← reg (Word.regA w)) size)
  | .load size signed => do
    let addr ← operandAddress pool w
    setReg (Word.regA w) (← loadValue addr size signed)
  | .loadQuick => setReg (Word.regA w) (Word.signExtend16 (Word.half w))
  | .loadInfo => do
    setReg (Word.regA w) (← fetchInfo pool)
  | .jumpReg => do
    setReg Reg.pc (← reg (Word.regA w))
  | .callReg => do
    let target ← reg (Word.regA w)
    setReg Reg.ra (← reg Reg.pc)
    setReg Reg.pc target
  | .jump => do
    setReg Reg.pc ((← here) + (Word.offset24 w).toUInt32)
  | .call => do
    let target := (← here) + (Word.offset24 w).toUInt32
    setReg Reg.ra (← reg Reg.pc)
    setReg Reg.pc target
  | .ret => do
    setReg Reg.pc (← reg Reg.ra)
  | .push => do
    let top ← pushAll (Reg.range (Word.regA w) (Word.regB w)) (← reg Reg.sp)
    setReg Reg.sp (top - (Word.laneC w).toUInt32 * 4)
  | .pop => do
    let frame := (← reg Reg.sp) + (Word.laneC w).toUInt32 * 4
    let (values, top) ← popAll (Reg.range (Word.regA w) (Word.regB w)).reverse frame
    setAll values
    setReg Reg.sp top
  | .copy => do
    let dst ← reg (Word.regA w)
    let src ← reg (Word.regB w)
    let count ← reg (Word.regC w)
    requireAccess src count
    requireAccess dst count
    modify fun m => { m with mem := m.mem.copyBytes dst src count }
  | .fill => do
    let dst ← reg (Word.regA w)
    let value ← reg (Word.regB w)
    let count ← reg (Word.regC w)
    requireAccess dst count
    modify fun m => { m with mem := m.mem.fillBytes dst value.toUInt8 count }
  | .kill => return ()
  | .sleep => return ()

/-- The log line of a block operation, which is noted before anything is checked. -/
def note? (w : UInt32) (regs : Registers) : Action → Option (Unit → String)
  | .copy => some fun _ =>
    Memory.copyNote (regs.get (Word.regA w)) (regs.get (Word.regB w)) (regs.get (Word.regC w))
  | .fill => some fun _ =>
    Memory.fillNote (regs.get (Word.regA w)) (regs.get (Word.regB w)).toUInt8
      (regs.get (Word.regC w))
  | _ => none

end Action

end TaskMachine
