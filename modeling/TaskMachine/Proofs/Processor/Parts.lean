import TaskMachine.Processor.Run
import TaskMachine.Proofs.Stateful

/-!
# The parts of an instruction

Every instruction is put together from a few parts: it reads and writes
registers, checks an access, reads memory and writes bytes, one after the other.
What holds of each of these parts and is kept by putting computations in sequence
holds of all instructions.
-/

namespace TaskMachine.Parts

open Stateful Exec

/-- What holds of the parts of an instruction and is kept by putting them together. -/
structure Closed (P : {α : Type} → Exec α → Prop) : Prop where
  pure : ∀ {α : Type} (a : α), P (Pure.pure a : Exec α)
  throw : ∀ {α : Type} (fault : Fault), P (MonadExcept.throw fault : Exec α)
  bind : ∀ {α β : Type} {x : Exec α} {g : α → Exec β}, P x → (∀ a, P (g a)) → P (x >>= g)
  reg : ∀ r, P (reg r)
  setReg : ∀ r v, P (setReg r v)
  requireAccess : ∀ addr size, P (requireAccess addr size)
  readMem : ∀ {α : Type} (g : Memory → α), P (do return g (← get).mem : Exec α)
  putBytes : ∀ addr bytes,
    P (modify fun m => { m with mem := m.mem.putBytes addr bytes } : Exec PUnit)
  copyBytes : ∀ dst src count,
    P (modify fun m => { m with mem := m.mem.copyBytes dst src count } : Exec PUnit)
  fillBytes : ∀ dst value count,
    P (modify fun m => { m with mem := m.mem.fillBytes dst value count } : Exec PUnit)

namespace Closed

variable {P : {α : Type} → Exec α → Prop} (hP : Closed P)

include hP

theorem load8 (addr : UInt32) : P (load8 addr) :=
  hP.bind (hP.requireAccess addr 1) fun _ => hP.readMem (·.get8 addr)

theorem load16 (addr : UInt32) : P (load16 addr) :=
  hP.bind (hP.requireAccess addr 2) fun _ => hP.readMem (·.get16 addr)

theorem load32 (addr : UInt32) : P (load32 addr) :=
  hP.bind (hP.requireAccess addr 4) fun _ => hP.readMem (·.get32 addr)

theorem storeBytes (addr : UInt32) (bytes : List UInt8) : P (storeBytes addr bytes) :=
  hP.bind (hP.requireAccess addr _) fun _ => hP.putBytes addr bytes

theorem fetchInfo (pool : Option Pool) : P (fetchInfo pool) := by
  refine hP.bind (hP.reg Reg.pc) fun pc => hP.bind (hP.setReg Reg.pc (pc + 4)) fun _ =>
    hP.bind (hP.load32 pc) fun word => ?_
  split
  · exact hP.pure _
  · split
    · exact hP.pure _
    · exact hP.throw _

theorem skipInfo : P skipInfo := hP.bind (hP.reg Reg.pc) fun _ => hP.setReg Reg.pc _

theorem here : P here := hP.bind (hP.reg Reg.pc) fun _ => hP.pure _

theorem pushAll (rs : List Reg) (sp : UInt32) : P (pushAll rs sp) := by
  induction rs generalizing sp with
  | nil => exact hP.pure sp
  | cons r rs ih =>
    exact hP.bind (hP.reg r) fun _ => hP.bind (hP.storeBytes _ _) fun _ => ih (sp - 4)

theorem popAll (rs : List Reg) (sp : UInt32) : P (popAll rs sp) := by
  induction rs generalizing sp with
  | nil => exact hP.pure ([], sp)
  | cons r rs ih =>
    exact hP.bind (hP.load32 sp) fun _ => hP.bind (ih (sp + 4)) fun _ => hP.pure _

theorem setAll (values : List (Reg × UInt32)) : P (setAll values) := by
  induction values with
  | nil => exact hP.pure ()
  | cons entry rest ih => exact hP.bind (hP.setReg entry.1 entry.2) fun _ => ih

theorem operandAddress (pool : Option Pool) (w : UInt32) : P (operandAddress pool w) :=
  hP.bind (hP.reg _) fun _ => hP.bind (hP.fetchInfo pool) fun _ => hP.pure _

theorem loadValue (addr : UInt32) (size : Width) (signed : Bool) :
    P (loadValue addr size signed) := by
  cases size with
  | byte => exact hP.bind (hP.load8 addr) fun _ => hP.pure _
  | half => exact hP.bind (hP.load16 addr) fun _ => hP.pure _
  | word => exact hP.load32 addr

/-- What holds of the parts holds of every instruction. -/
theorem perform (pool : Option Pool) (w : UInt32) (action : Action) :
    P (action.perform pool w) := by
  have reg (r : Reg) {α : Type} {g : UInt32 → Exec α} (hg : ∀ v, P (g v)) := hP.bind (hP.reg r) hg
  have info {α : Type} {g : UInt32 → Exec α} (hg : ∀ v, P (g v)) := hP.bind (hP.fetchInfo pool) hg
  have here {α : Type} {g : UInt32 → Exec α} (hg : ∀ v, P (g v)) := hP.bind hP.here hg
  have set (r : Reg) (v : UInt32) := hP.setReg r v
  have ite {c : Prop} [Decidable c] {x y : Exec Unit} (hx : P x) (hy : P y) :
      P (if c then x else y) := by
    split
    · exact hx
    · exact hy
  cases action with
  | binary op => exact reg _ fun _ => reg _ fun _ => set _ _
  | divide d =>
    refine reg _ fun s => reg _ fun t => ?_
    split
    · exact set _ _
    · exact hP.throw _
  | unary op => exact reg _ fun _ => set _ _
  | narrow op size => exact reg _ fun _ => reg _ fun _ => set _ _
  | narrowShift op size => exact reg _ fun _ => reg _ fun _ => set _ _
  | quick op signed => exact reg _ fun _ => set _ _
  | quickByte op => exact reg _ fun _ => set _ _
  | immediate op => exact reg _ fun _ => info fun _ => set _ _
  | immediateHalf op => exact reg _ fun _ => info fun _ => set _ _
  | divideImmediate d =>
    refine reg _ fun s => info fun imm => ?_
    split
    · exact set _ _
    · exact hP.throw _
  | branchInfo c =>
    exact here fun _ => info fun _ => reg _ fun _ => ite (set _ _) (hP.pure _)
  | branchByte c signed =>
    exact reg _ fun _ => ite (here fun _ => set _ _) (hP.pure _)
  | branchRegs c =>
    exact here fun _ => reg _ fun _ => reg _ fun _ =>
      ite (info fun _ => set _ _) hP.skipInfo
  | store size =>
    exact hP.bind (hP.operandAddress pool w) fun _ => reg _ fun _ => hP.storeBytes _ _
  | load size signed =>
    exact hP.bind (hP.operandAddress pool w) fun _ =>
      hP.bind (hP.loadValue _ size signed) fun _ => set _ _
  | loadQuick => exact set _ _
  | loadInfo => exact info fun _ => set _ _
  | jumpReg => exact reg _ fun _ => set _ _
  | callReg => exact reg _ fun _ => reg _ fun _ => hP.bind (set _ _) fun _ => set _ _
  | jump => exact here fun _ => set _ _
  | call => exact here fun _ => reg _ fun _ => hP.bind (set _ _) fun _ => set _ _
  | ret => exact reg _ fun _ => set _ _
  | push => exact reg _ fun _ => hP.bind (hP.pushAll _ _) fun _ => set _ _
  | pop =>
    exact reg _ fun _ => hP.bind (hP.popAll _ _) fun _ => hP.bind (hP.setAll _) fun _ => set _ _
  | copy =>
    exact reg _ fun dst => reg _ fun src => reg _ fun count =>
      hP.bind (hP.requireAccess src count) fun _ =>
        hP.bind (hP.requireAccess dst count) fun _ => hP.copyBytes dst src count
  | fill =>
    exact reg _ fun dst => reg _ fun value => reg _ fun count =>
      hP.bind (hP.requireAccess dst count) fun _ => hP.fillBytes dst value.toUInt8 count
  | kill => exact hP.pure _
  | sleep => exact hP.pure _

end Closed

end TaskMachine.Parts
