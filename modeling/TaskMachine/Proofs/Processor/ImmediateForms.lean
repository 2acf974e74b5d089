import TaskMachine.Proofs.Assembler.Agreement

/-!
# Immediate instructions compute what their register forms do

An arithmetic instruction takes its second operand from a register, from the
last byte of its own word or from its info word. Whatever the source, the
operand goes through the same computation, and the first operand is read before
the info word is passed. The two forms of an operation therefore leave the same
word in the destination, or both find a divisor of zero.
-/

namespace TaskMachine.ImmediateForms

open Stateful Constants Effects Agreement Exec
open Word (regA regB regC laneC code)

/-! ## The two forms of an operation -/

/-- The register instruction for the operation of an immediate one. -/
def registerForm? : Opcode → Option Opcode
  | .addi | .addq => some .add
  | .andi => some .and
  | .muli | .mulq => some .mul
  | .divi => some .div
  | .divui => some .divu
  | .ori => some .or
  | .xori => some .xor
  | .subi => some .sub
  | .addhi => some .addh
  | .andhi => some .andh
  | .addbi => some .addb
  | .andbi => some .andb
  | .orbi => some .orb
  | .slli => some .sll
  | .srai => some .sra
  | .srli => some .srl
  | _ => none

/-- The value that an immediate instruction carries: its last byte, with its sign or without, or
what the info word at the next address stands for. -/
def carried? (pool : Option Pool) (mem : Memory) (next w : UInt32) : Opcode → Option UInt32
  | .addq | .mulq => some (Word.signExtend8 (laneC w))
  | .addbi | .andbi | .orbi | .slli | .srai | .srli => some (laneC w).toUInt32
  | .addi | .andi | .muli | .divi | .divui | .ori | .xori | .subi | .addhi | .andhi =>
    (mem.read32 next).toOption.bind (value? pool)
  | _ => none

/-- What an action computes from its two operands, which is nothing for a division by zero. -/
def compute : Action → UInt32 → UInt32 → Option UInt32
  | .binary op, s, t | .quick op _, s, t | .immediate op, s, t => some (op.apply s t)
  | .narrow op size, s, t => some (op.apply (s &&& size.mask) (t &&& size.mask) &&& size.mask)
  | .quickByte op, s, t => some (op.apply (s &&& 0xff) (t &&& 0xff) &&& 0xff)
  | .immediateHalf op, s, t => some (op.apply (s &&& 0xffff) (t &&& 0xffff) &&& 0xffff)
  | .divide d, s, t | .divideImmediate d, s, t => d.apply? s t
  | _, _, _ => none

theorem compute_registerForm {op op' : Opcode} (h : registerForm? op = some op') :
    compute op.action = compute op'.action := by
  cases op <;> cases h <;> rfl

/-- Only the divisions can be without a result. -/
theorem compute_eq_none {op op' : Opcode} (h : registerForm? op = some op') (s t : UInt32) :
    compute op'.action s t = none ↔ (op' = .div ∨ op' = .divu) ∧ t = 0 := by
  have hdivision (d : Division) : d.apply? s t = none ↔ t = 0 := by
    unfold Division.apply?
    split
    · exact iff_of_true rfl ‹_›
    · cases d <;> exact iff_of_false nofun ‹_›
  cases op <;> cases h <;> simp [compute, Opcode.action, hdivision]

/-! ## Carrying the instructions out -/

/-- The end of an arithmetic instruction: its result in the destination, or the fault. -/
def finish (w : UInt32) (m : Machine) : Option UInt32 → EStateM.Result Fault Machine Unit
  | some r => .ok () (withReg m (regA w) r)
  | none => .error .divideByZero m

/-- The machine once an instruction has its operands. -/
def ready (m : Machine) (action : Action) : Machine := if takesInfo action then past m else m

theorem ready_mem (m : Machine) (action : Action) : (ready m action).mem = m.mem := by
  unfold ready
  split <;> rfl

theorem get_ready_of_ne (m : Machine) (action : Action) {r : Reg} (h : r ≠ Reg.pc) :
    (ready m action).regs.get r = m.regs.get r := by
  unfold ready
  split
  · exact get_past_of_ne m h
  · rfl

section Perform

variable {pool : Option Pool} {w : UInt32} {m : Machine} {op op' : Opcode}

theorem perform_divide (d : Division) :
    (Action.divide d).perform pool w m =
      finish w m (compute (.divide d) (m.regs.get (regB w)) (m.regs.get (regC w))) := by
  rw [compute]
  change (match d.apply? (m.regs.get (regB w)) (m.regs.get (regC w)) with
    | some v => setReg (regA w) v
    | none => throw .divideByZero : Exec Unit) m = _
  cases d.apply? (m.regs.get (regB w)) (m.regs.get (regC w)) with
  | some v => rfl
  | none => rfl

theorem perform_register (pool : Option Pool) (w : UInt32) (m : Machine)
    (h : registerForm? op = some op') :
    op'.action.perform pool w m =
      finish w m (compute op'.action (m.regs.get (regB w)) (m.regs.get (regC w))) := by
  cases op <;> cases h <;> first | rfl | exact perform_divide _

theorem perform_quickByte (op : BinaryOp) :
    (Action.quickByte op).perform pool w m =
      finish w m (compute (.quickByte op) (m.regs.get (regB w)) (laneC w).toUInt32) := by
  have hbyte : (laneC w).toUInt32 &&& 0xff = (laneC w).toUInt32 := by
    have hlt := (laneC w).toNat_lt
    apply UInt32.toNat_inj.mp
    rw [UInt32.toNat_and, UInt8.toNat_toUInt32]
    exact Nat.and_two_pow_sub_one_of_lt_two_pow (n := 8) hlt
  rw [compute, hbyte]
  rfl

theorem perform_immediate {v : UInt32} (h : registerForm? op = some op')
    (hcarried : carried? pool m.mem m.pc w op = some v) :
    op.action.perform pool w m =
      finish w (ready m op.action) (compute op.action (m.regs.get (regB w)) v) := by
  have hinfo {action : Action}
      (hvalue : (m.mem.read32 m.pc).toOption.bind (value? pool) = some v)
      (hwith : withInfo? v w m action =
        some (finish w (past m) (compute action (m.regs.get (regB w)) v))) :
      action.perform pool w m =
        finish w (past m) (compute action (m.regs.get (regB w)) v) := by
    cases hread : m.mem.read32 m.pc with
    | error e =>
      rw [hread] at hvalue
      cases hvalue
    | ok info =>
      rw [hread] at hvalue
      exact perform_of_value w hread hvalue hwith
  have hdivision (d : Division) : withInfo? v w m (.divideImmediate d) =
      some (finish w (past m) (compute (.divideImmediate d) (m.regs.get (regB w)) v)) := by
    unfold withInfo? compute
    cases d.apply? (m.regs.get (regB w)) v with
    | some q => rfl
    | none => rfl
  cases op with
  | addq | mulq | slli | srai | srli =>
    cases hcarried
    rfl
  | addbi | andbi | orbi =>
    cases hcarried
    exact perform_quickByte _
  | addi | andi | muli | ori | xori | subi | addhi | andhi => exact hinfo hcarried rfl
  | divi | divui => exact hinfo hcarried (hdivision _)
  | _ => cases h

end Perform

/-! ## What the instructions leave behind -/

/-- The next step leaves a result in its destination and changes no other register but the program
counter, or faults for want of a result and changes no register but the program counter. Memory
stays the same. -/
def Delivers (pool : Option Pool) (m : Machine) (w : UInt32) : Option UInt32 → Prop
  | some r => ∃ m', m.step pool = .ok none m' ∧ m'.regs.get (regA w) = r ∧
      (∀ q, q ≠ regA w → q ≠ Reg.pc → m'.regs.get q = m.regs.get q) ∧ m'.mem = m.mem
  | none => ∃ m', m.step pool = .error (.instruction m.pc w .divideByZero) m' ∧
      (∀ q, q ≠ Reg.pc → m'.regs.get q = m.regs.get q) ∧ m'.mem = m.mem

theorem delivers_of_perform {pool : Option Pool} {m t : Machine} {w : UInt32} {op : Opcode}
    {result : Option UInt32} (hread : m.mem.read32 m.pc = .ok w) (hcode : code w = op.code)
    (hgoes : op.action.suspension = none)
    (hperform : op.action.perform pool w (m.enter m.pc w op.action) = finish w t result)
    (hregs : ∀ q, q ≠ Reg.pc → t.regs.get q = m.regs.get q) (hmem : t.mem = m.mem) :
    Delivers pool m w result := by
  have hop : Opcode.ofCode? (code w) = some op := by rw [hcode, ofCode?_code]
  cases result with
  | some r =>
    refine ⟨_, by rw [step_of_word hread hop, hperform, hgoes]; rfl, ?_, fun q hq hpc => ?_, ?_⟩
    · exact get_put_self t.regs (regA w) r
    · change (t.regs.put (regA w) r).get q = _
      rw [get_put_of_ne _ _ hq.symm, hregs q hpc]
    · exact hmem
  | none => exact ⟨t, by rw [step_of_word hread hop, hperform]; rfl, hregs, hmem⟩

theorem delivers_of_ready {pool : Option Pool} {m : Machine} {w : UInt32} {op : Opcode}
    {result : Option UInt32} (hread : m.mem.read32 m.pc = .ok w) (hcode : code w = op.code)
    (hgoes : op.action.suspension = none)
    (hperform : op.action.perform pool w (m.enter m.pc w op.action) =
      finish w (ready (m.enter m.pc w op.action) op.action) result) :
    Delivers pool m w result := by
  refine delivers_of_perform hread hcode hgoes hperform (fun q hq => ?_) ?_
  · rw [get_ready_of_ne _ _ hq, get_enter_of_ne _ _ _ _ hq]
  · rw [ready_mem, enter_mem]

section Forms

variable {m : Machine} {w : UInt32} {op op' : Opcode}

theorem delivers_register (pool : Option Pool) (h : registerForm? op = some op')
    (hread : m.mem.read32 m.pc = .ok w) (hcode : code w = op'.code) :
    Delivers pool m w
      (compute op'.action ((past m).regs.get (regB w)) ((past m).regs.get (regC w))) := by
  have hgoes : op'.action.suspension = none := by cases op <;> cases h <;> rfl
  have hperform := perform_register pool w (m.enter m.pc w op'.action) h
  rw [enter_regs, ← past_regs] at hperform
  exact delivers_of_perform hread hcode hgoes hperform (fun q => get_enter_of_ne _ _ _ _)
    (enter_mem _ _ _ _)

theorem delivers_immediate {pool : Option Pool} {v : UInt32} (h : registerForm? op = some op')
    (hread : m.mem.read32 m.pc = .ok w) (hcode : code w = op.code)
    (hcarried : carried? pool m.mem (m.pc + 4) w op = some v) :
    Delivers pool m w (compute op.action ((past m).regs.get (regB w)) v) := by
  have hgoes : op.action.suspension = none := by cases op <;> cases h <;> rfl
  have hentered : carried? pool (m.enter m.pc w op.action).mem (m.enter m.pc w op.action).pc w op =
      some v := by
    rw [enter_mem, pc_enter]
    exact hcarried
  have hperform := perform_immediate h hentered
  rw [enter_regs, ← past_regs] at hperform
  exact delivers_of_ready hread hcode hgoes hperform

end Forms

/-- The quotient of two words as two's-complement numbers, rounded toward zero. -/
def quotient (s t : UInt32) : UInt32 := UInt32.ofInt (s.toInt32.toInt.tdiv t.toInt32.toInt)

theorem quotient_of_ne_zero (s : UInt32) {t : UInt32} (ht : t ≠ 0) :
    Division.signed.apply? s t = some (quotient s t) := by
  have hquotient : quotient s t = (s.toInt32 / t.toInt32).toUInt32 := by
    apply UInt32.toBitVec_inj.mp
    rw [quotient, Fields.toBitVec_ofInt]
    apply BitVec.eq_of_toInt_eq
    rw [BitVec.toInt_ofInt]
    exact (Int32.toInt_div _ _).symm
  unfold Division.apply?
  rw [if_neg ht, hquotient]

/-- An immediate instruction and the register instruction for its operation, carried out on the
same registers where a register other than the program counter holds the value that the first one
carries, leave the same word in the same destination, or both fault with a divisor of zero. A
signed quotient is rounded toward zero and wraps around. -/
theorem immediate_eq_register :
    (∀ (op op' : Opcode), registerForm? op = some op' → ∀ (pool pool' : Option Pool)
      (m n : Machine) (w w' v : UInt32), n.regs = m.regs →
      m.mem.read32 m.pc = .ok w → code w = op.code →
      carried? pool m.mem (m.pc + 4) w op = some v →
      n.mem.read32 n.pc = .ok w' → code w' = op'.code → regA w' = regA w → regB w' = regB w →
      regC w' ≠ Reg.pc → n.regs.get (regC w') = v →
        ∃ result, Delivers pool m w result ∧ Delivers pool' n w' result ∧
          (result = none ↔ (op' = .div ∨ op' = .divu) ∧ v = 0)) ∧
    (∀ (pool : Option Pool) (m : Machine) (w : UInt32), m.mem.read32 m.pc = .ok w →
      code w = Opcode.div.code → (past m).regs.get (regC w) ≠ 0 →
        Delivers pool m w
          (some (quotient ((past m).regs.get (regB w)) ((past m).regs.get (regC w))))) ∧
    ∀ (pool : Option Pool) (m : Machine) (w v : UInt32), m.mem.read32 m.pc = .ok w →
      code w = Opcode.divi.code → carried? pool m.mem (m.pc + 4) w .divi = some v → v ≠ 0 →
        Delivers pool m w (some (quotient ((past m).regs.get (regB w)) v)) := by
  refine ⟨fun op op' hform pool pool' m n w w' v hregs hread hcode hcarried hread' hcode' hD hS hT
    hv => ?_, fun pool m w hread hcode ht => ?_, fun pool m w v hread hcode hcarried hv => ?_⟩
  · have hsame : (past n).regs = (past m).regs := by
      rw [past_regs, past_regs, Cpu.pc, Cpu.pc, hregs]
    have hvalue : (past n).regs.get (regC w') = v := by
      rw [get_past_of_ne _ hT, hv]
    have himmediate := delivers_immediate hform hread hcode hcarried
    have hregister := delivers_register pool' hform hread' hcode'
    rw [hvalue, hsame, hS, ← compute_registerForm hform] at hregister
    refine ⟨_, himmediate, hregister, ?_⟩
    rw [compute_registerForm hform]
    exact compute_eq_none hform _ v
  · have hform : registerForm? .divi = some .div := rfl
    rw [← quotient_of_ne_zero _ ht]
    exact delivers_register pool hform hread hcode
  · have hform : registerForm? .divi = some .div := rfl
    rw [← quotient_of_ne_zero _ hv]
    exact delivers_immediate hform hread hcode hcarried

/-- About to carry out the words, with the least signed number in one register and minus one in
another. -/
def dividing (word info : UInt32) : Machine := facing word info 0x80000000 0xffffffff

/-- Minus one is added to the program counter in both forms, and the one signed quotient that does
not fit wraps around to the dividend. -/
theorem immediate_eq_register_minus_one :
    (∃ result,
      Delivers none (dividing (Word.ofRegsByte Opcode.addq.code Reg.pc Reg.pc 0xff) 0)
        (Word.ofRegsByte Opcode.addq.code Reg.pc Reg.pc 0xff) result ∧
      Delivers none (dividing (Word.ofRegs Opcode.add.code Reg.pc Reg.pc (.ofInt 6)) 0)
        (Word.ofRegs Opcode.add.code Reg.pc Reg.pc (.ofInt 6)) result ∧ result ≠ none) ∧
    Delivers none (dividing (Word.ofRegsByte Opcode.divi.code (.ofInt 4) (.ofInt 5) 0)
      (Info.ofLiteral 0xffffffff)) (Word.ofRegsByte Opcode.divi.code (.ofInt 4) (.ofInt 5) 0)
      (some 0x80000000) ∧
    Delivers none (dividing (Word.ofRegs Opcode.div.code (.ofInt 4) (.ofInt 5) (.ofInt 6)) 0)
      (Word.ofRegs Opcode.div.code (.ofInt 4) (.ofInt 5) (.ofInt 6)) (some 0x80000000) := by
  obtain ⟨hagree, hregister, himmediate⟩ := immediate_eq_register
  refine ⟨?_, ?_, ?_⟩
  · obtain ⟨result, hm, hn, hnone⟩ := hagree .addq .add rfl none none
      (dividing (Word.ofRegsByte Opcode.addq.code Reg.pc Reg.pc 0xff) 0)
      (dividing (Word.ofRegs Opcode.add.code Reg.pc Reg.pc (.ofInt 6)) 0)
      (Word.ofRegsByte Opcode.addq.code Reg.pc Reg.pc 0xff)
      (Word.ofRegs Opcode.add.code Reg.pc Reg.pc (.ofInt 6)) 0xffffffff rfl
      (by decide +kernel) (by decide +kernel) (by decide +kernel) (by decide +kernel)
      (by decide +kernel) (by decide +kernel) (by decide +kernel) (by decide +kernel)
      (by decide +kernel)
    exact ⟨result, hm, hn, fun h => absurd (hnone.mp h).1 (by decide)⟩
  · exact himmediate none _ _ 0xffffffff (by decide +kernel) (by decide +kernel)
      (by decide +kernel) (by decide)
  · exact hregister none _ _ (by decide +kernel) (by decide +kernel) (by decide +kernel)

end TaskMachine.ImmediateForms
