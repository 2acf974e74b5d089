import TaskMachine.Isa.Disassembly
import TaskMachine.Isa.Info
import TaskMachine.Log
import TaskMachine.Store.Memory
import TaskMachine.Store.Pool

/-!
# Machine state

A processor is a register file and the state of its run: how many instructions
the last run completed, whether it is running, and whether a stop was asked
for. A machine is a processor at a memory. Instructions are computations in
`Exec`, which keep the state they reached when they fault.
-/

namespace TaskMachine

open Numeral

/-- The contents of the register file. -/
abbrev Registers := Vector UInt32 64

/-- A register file of zeros. -/
def Registers.zeroed : Registers := Vector.replicate 64 0

/-- The register file with one register changed. -/
def Registers.put (regs : Registers) (r : Reg) (v : UInt32) : Registers := regs.set r.val v r.isLt

/-- One processor. -/
structure Cpu where
  regs : Registers := Registers.zeroed
  ran : Nat := 0
  running : Bool := false
  stopping : Bool := false
  deriving DecidableEq, Repr

namespace Cpu

/-- The program counter. -/
def pc (cpu : Cpu) : UInt32 := cpu.regs.get Reg.pc

/-- Asks the run in progress to end before its next instruction. -/
def stop (cpu : Cpu) : Cpu := { cpu with stopping := true }

/-- The processor with a register changed from outside. -/
def setReg (cpu : Cpu) (r : Reg) (v : UInt32) : Cpu :=
  { cpu with regs := cpu.regs.put r v }

/-- A cleared register file with an entry point and a stack. -/
def reset (cpu : Cpu) (pc sp : UInt32) : Cpu :=
  { cpu with
    regs := (Registers.zeroed.put Reg.pc pc).put Reg.sp sp
    ran := 0 }

/-- One register of the dump: its name in five columns and its value in two halves. -/
def dumpEntry (cpu : Cpu) (r : Reg) : String :=
  let v := cpu.regs.get r
  String.ofList (padLeft ' ' 5 (Reg.name r).toList) ++ ": " ++
    upperHexPadded 4 (v >>> 16).toNat ++ "_" ++ upperHexPadded 4 (v &&& 0xffff).toNat

/-- The named registers as text, four to a line. -/
def dump (cpu : Cpu) : String :=
  String.join <| (List.finRange 64).filterMap fun r =>
    if r.val ≤ Reg.pc.val then
      some (cpu.dumpEntry r ++ (if r.val % 4 = 3 ∨ r = Reg.pc then "\n" else " "))
    else none

end Cpu

/-- A processor at a memory, with the log of what it does. -/
structure Machine extends Cpu where
  mem : Memory
  log : Log := {}
  deriving DecidableEq, Repr

/-- What can go wrong inside an instruction. -/
inductive Fault where
  | address (e : AddressError)
  | notInteger (index : UInt32)
  | divideByZero
  deriving DecidableEq, Repr

/-- The text of a fault. -/
def Fault.message : Fault → String
  | .address e => e.message
  | .notInteger index => "pool index " ++ grouped index.toNat ++ " is not an integer"
  | .divideByZero => "divide by zero"

/-- A computation of one instruction. A fault leaves the state as it was reached. -/
abbrev Exec := EStateM Fault Machine

namespace Exec

/-- The value of a register. -/
def reg (r : Reg) : Exec UInt32 := do
  return (← get).regs.get r

/-- Changes a register. -/
def setReg (r : Reg) (v : UInt32) : Exec Unit :=
  modify fun m => { m with regs := m.regs.put r v }

/-- Faults unless `size` bytes at `addr` are mapped. -/
def requireAccess (addr size : UInt32) : Exec Unit := do
  if (← get).mem.accessible addr size then return () else throw (.address ⟨addr, size⟩)

/-- Reads a byte. -/
def load8 (addr : UInt32) : Exec UInt8 := do
  requireAccess addr 1
  return (← get).mem.get8 addr

/-- Reads a half. -/
def load16 (addr : UInt32) : Exec UInt16 := do
  requireAccess addr 2
  return (← get).mem.get16 addr

/-- Reads a word. -/
def load32 (addr : UInt32) : Exec UInt32 := do
  requireAccess addr 4
  return (← get).mem.get32 addr

/-- Writes bytes at an address that must hold all of them. -/
def storeBytes (addr : UInt32) (bytes : List UInt8) : Exec Unit := do
  requireAccess addr (UInt32.ofNat bytes.length)
  modify fun m => { m with mem := m.mem.putBytes addr bytes }

/-- The value of the info word at the program counter, which moves past that word in any
case. Without a pool, every index is one of no integer. -/
def fetchInfo (pool : Option Pool) : Exec UInt32 := do
  let pc ← reg Reg.pc
  setReg Reg.pc (pc + 4)
  match Info.read (← load32 pc) with
  | .literal value => return value
  | .pooled index =>
    match pool.bind (·.integer? index) with
    | some value => return value
    | none => throw (.notInteger index)

/-- Moves past an info word without reading it. -/
def skipInfo : Exec Unit := do
  setReg Reg.pc ((← reg Reg.pc) + 4)

/-- The address of the instruction being executed: the program counter is one word ahead. -/
def here : Exec UInt32 := do
  return (← reg Reg.pc) - 4

end Exec

end TaskMachine
