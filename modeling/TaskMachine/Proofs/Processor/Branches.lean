import TaskMachine.Proofs.Assembler.Agreement

/-!
# The three families of branches agree

A relation is tested by up to three opcodes: against the value of an info word,
against a byte of the instruction itself, and against a register. All of them
compare the same register with the same number, read as the name of the relation
says. Whatever the answer, the program counter is all that changes: it goes to
the distance from the instruction, or past the words of the instruction.
-/

namespace TaskMachine.Branches

open Stateful Constants Effects Counter Agreement Exec
open Word (regA regB laneB laneC half code)

/-! ## Relations -/

/-- Two words stand in a relation, as two's-complement numbers or as unsigned ones. -/
def Stands : Condition → UInt32 → UInt32 → Prop
  | .eq, a, c => a = c
  | .ne, a, c => a ≠ c
  | .ge, a, c => a.toInt32.toInt ≥ c.toInt32.toInt
  | .geu, a, c => a.toNat ≥ c.toNat
  | .gt, a, c => a.toInt32.toInt > c.toInt32.toInt
  | .gtu, a, c => a.toNat > c.toNat
  | .le, a, c => a.toInt32.toInt ≤ c.toInt32.toInt
  | .leu, a, c => a.toNat ≤ c.toNat
  | .lt, a, c => a.toInt32.toInt < c.toInt32.toInt
  | .ltu, a, c => a.toNat < c.toNat

theorem holds_iff (rel : Condition) (a c : UInt32) : rel.holds a c = true ↔ Stands rel a c := by
  cases rel with
  | eq => exact beq_iff_eq
  | ne => exact bne_iff_ne
  | ge | gt | le | lt =>
    simp only [Condition.holds, Stands, decide_eq_true_eq, Int32.le_iff_toInt_le,
      Int32.lt_iff_toInt_lt, ge_iff_le, gt_iff_lt]
  | geu | gtu | leu | ltu =>
    simp only [Condition.holds, Stands, decide_eq_true_eq, UInt32.le_iff_toNat_le,
      UInt32.lt_iff_toNat_lt, ge_iff_le, gt_iff_lt]

instance (rel : Condition) (a c : UInt32) : Decidable (Stands rel a c) :=
  decidable_of_iff _ (holds_iff rel a c)

/-- The relations on unsigned numbers. -/
def unsigned : Condition → Bool
  | .geu | .gtu | .leu | .ltu => true
  | _ => false

/-- The number that a byte stands for in a relation. -/
def byteComparand (rel : Condition) (b : UInt8) : UInt32 :=
  if unsigned rel then b.toUInt32 else Word.signExtend8 b

/-! ## Families -/

/-- The opcode that tests a relation against the value of its info word. -/
def infoBranch? : Condition → Option Opcode
  | .eq => some .beqi
  | .ne => some .bnei
  | .ge => some .bgei
  | .geu => none
  | .gt => some .bgti
  | .gtu => some .bgtui
  | .le => some .blei
  | .leu => some .bleui
  | .lt => some .blti
  | .ltu => some .bltui

/-- The opcode that tests a relation against a byte. -/
def byteBranch? : Condition → Option Opcode
  | .eq => some .beqib
  | .ne => some .bneib
  | .ge => some .bgeib
  | .geu => none
  | .gt => some .bgtib
  | .gtu => some .bgtuib
  | .le => some .bleib
  | .leu => some .bleuib
  | .lt => some .bltib
  | .ltu => some .bltuib

/-- The opcode that tests a relation against a register. -/
def regsBranch : Condition → Opcode
  | .eq => .beq
  | .ne => .bne
  | .ge => .bge
  | .geu => .bgeu
  | .gt => .bgt
  | .gtu => .bgtu
  | .le => .ble
  | .leu => .bleu
  | .lt => .blt
  | .ltu => .bltu

theorem action_infoBranch {rel : Condition} {op : Opcode} (h : infoBranch? rel = some op) :
    op.action = .branchInfo rel := by
  cases rel <;> cases h <;> rfl

/-- The relations that read a byte without its sign are those on unsigned numbers. -/
theorem action_byteBranch {rel : Condition} {op : Opcode} (h : byteBranch? rel = some op) :
    op.action = .branchByte rel (!unsigned rel) := by
  cases rel <;> cases h <;> rfl

theorem action_regsBranch (rel : Condition) : (regsBranch rel).action = .branchRegs rel := by
  cases rel <;> rfl

/-! ## Moving the program counter -/

theorem put_put (regs : Registers) (r : Reg) (u v : UInt32) :
    (regs.put r u).put r v = regs.put r v :=
  Vector.set_set ..

theorem withReg_past (m : Machine) (v : UInt32) :
    withReg (past m) Reg.pc v = withReg m Reg.pc v := by
  unfold withReg
  rw [past_regs, put_put]
  rfl

theorem withReg_pc_self (m : Machine) : withReg m Reg.pc m.pc = m := by
  have hregs : m.regs.put Reg.pc m.pc = m.regs := Vector.set_getElem_self _
  unfold withReg
  rw [hregs]

/-- The next step completes, and takes the program counter to an address and changes nothing
else that a program can see. -/
def Goes (pool : Option Pool) (m : Machine) (target : UInt32) : Prop :=
  ∃ m', m.step pool = .ok none m' ∧ m'.pc = target ∧
    (∀ r, r ≠ Reg.pc → m'.regs.get r = m.regs.get r) ∧ m'.mem = m.mem

theorem goes_of_perform {pool : Option Pool} {m : Machine} {w target : UInt32} {op : Opcode}
    (hread : m.mem.read32 m.pc = .ok w) (hcode : code w = op.code)
    (hbranch : conditional op.action = true)
    (hperform : op.action.perform pool w (m.enter m.pc w op.action) =
      .ok () (withReg (m.enter m.pc w op.action) Reg.pc target)) : Goes pool m target := by
  have hop : Opcode.ofCode? (code w) = some op := by rw [hcode, ofCode?_code]
  have hgoes : op.action.suspension = none := by
    cases haction : op.action with
    | kill | sleep =>
      rw [haction] at hbranch
      cases hbranch
    | _ => rfl
  refine ⟨_, by rw [step_of_word hread hop, hperform, hgoes], ?_, fun r hr => ?_, ?_⟩
  · exact pc_withReg_pc _ target
  · change ((m.enter m.pc w op.action).regs.put Reg.pc target).get r = _
    rw [get_put_of_ne _ _ hr.symm, get_enter_of_ne _ _ _ _ hr]
  · exact enter_mem _ _ _ _

section Perform

variable (pool : Option Pool) (rel : Condition) {w : UInt32} {m : Machine}

theorem perform_branchInfo {info c : UInt32} (hread : m.mem.read32 m.pc = .ok info)
    (hvalue : value? pool info = some c) (hreg : regA w ≠ Reg.pc) :
    (Action.branchInfo rel).perform pool w m = .ok () (withReg m Reg.pc
      (if Stands rel (m.regs.get (regA w)) c then m.pc - 4 + Word.signExtend16 (half w)
        else m.pc + 4)) := by
  have hsame : (past m).regs.get (regA w) = m.regs.get (regA w) :=
    get_put_of_ne _ _ hreg.symm
  rw [perform_of_value w hread hvalue rfl, hsame]
  by_cases hrel : Stands rel (m.regs.get (regA w)) c
  · rw [if_pos ((holds_iff _ _ _).mpr hrel), if_pos hrel, withReg_past]
  · rw [if_neg (mt (holds_iff _ _ _).mp hrel), if_neg hrel]
    rfl

theorem perform_branchByte :
    (Action.branchByte rel (!unsigned rel)).perform pool w m = .ok () (withReg m Reg.pc
      (if Stands rel (m.regs.get (regA w)) (byteComparand rel (laneB w)) then
        m.pc - 4 + Word.signExtend8 (laneC w) * 4 else m.pc)) := by
  have hcomparand : byteComparand rel (laneB w) =
      if (!unsigned rel) = true then Word.signExtend8 (laneB w) else (laneB w).toUInt32 := by
    unfold byteComparand
    cases unsigned rel <;> rfl
  rw [hcomparand]
  change (if rel.holds (m.regs.get (regA w)) _ = true then _ else _ : Exec Unit) m = _
  by_cases hrel : Stands rel (m.regs.get (regA w))
      (if (!unsigned rel) = true then Word.signExtend8 (laneB w) else (laneB w).toUInt32)
  · rw [if_pos ((holds_iff _ _ _).mpr hrel), if_pos hrel]
    rfl
  · rw [if_neg (mt (holds_iff _ _ _).mp hrel), if_neg hrel, withReg_pc_self]
    rfl

/-- The info word of a branch that is not taken need not stand for a value, nor even be mapped. -/
theorem perform_branchRegs {d : UInt32}
    (hinfo : Stands rel (m.regs.get (regA w)) (m.regs.get (regB w)) →
      ∃ info, m.mem.read32 m.pc = .ok info ∧ value? pool info = some d) :
    (Action.branchRegs rel).perform pool w m = .ok () (withReg m Reg.pc
      (if Stands rel (m.regs.get (regA w)) (m.regs.get (regB w)) then m.pc - 4 + d
        else m.pc + 4)) := by
  change (if rel.holds (m.regs.get (regA w)) (m.regs.get (regB w)) = true then _ else _ :
    Exec Unit) m = _
  by_cases hrel : Stands rel (m.regs.get (regA w)) (m.regs.get (regB w))
  · obtain ⟨info, hread, hvalue⟩ := hinfo hrel
    rw [if_pos ((holds_iff _ _ _).mpr hrel), if_pos hrel,
      bind_of_ok (fetchInfo_of_value hread hvalue), ← withReg_past]
    rfl
  · rw [if_neg (mt (holds_iff _ _ _).mp hrel), if_neg hrel]
    rfl

end Perform

/-- The three opcodes that test a relation take the branch exactly when the register and the
comparand stand in it, be the comparand the value of an info word, a byte or another register. A
branch that is taken leads by its distance from its own address, and one that is not taken past its
words, of which the one with the byte has only one. Nothing but the program counter changes. -/
theorem families_agree (rel : Condition) (a c : UInt32) (d : Int) :
    (∀ op, infoBranch? rel = some op → -0x8000 ≤ d → d ≤ 0x7fff →
      ∀ (pool : Option Pool) (m : Machine) (w info : UInt32), m.mem.read32 m.pc = .ok w →
        code w = op.code → half w = UInt16.ofInt d → regA w ≠ Reg.pc → m.regs.get (regA w) = a →
        m.mem.read32 (m.pc + 4) = .ok info → value? pool info = some c →
          Goes pool m (if Stands rel a c then m.pc + UInt32.ofInt d else m.pc + 8)) ∧
    (∀ op, byteBranch? rel = some op → d % 4 = 0 → -0x80 ≤ d / 4 → d / 4 ≤ 0x7f →
      ∀ (pool : Option Pool) (m : Machine) (w : UInt32), m.mem.read32 m.pc = .ok w →
        code w = op.code → laneC w = UInt8.ofInt (d / 4) → regA w ≠ Reg.pc →
        m.regs.get (regA w) = a → byteComparand rel (laneB w) = c →
          Goes pool m (if Stands rel a c then m.pc + UInt32.ofInt d else m.pc + 4)) ∧
    ∀ (pool : Option Pool) (m : Machine) (w : UInt32), m.mem.read32 m.pc = .ok w →
      code w = (regsBranch rel).code → regA w ≠ Reg.pc → regB w ≠ Reg.pc →
      m.regs.get (regA w) = a → m.regs.get (regB w) = c →
      (Stands rel a c → ∃ info, m.mem.read32 (m.pc + 4) = .ok info ∧
        value? pool info = some (UInt32.ofInt d)) →
        Goes pool m (if Stands rel a c then m.pc + UInt32.ofInt d else m.pc + 8) := by
  have hpast (pc : UInt32) : pc + 4 + 4 = pc + 8 := by
    rw [UInt32.add_assoc]
    rfl
  refine ⟨fun op hop hlow hhigh pool m w info hread hcode hhalf hreg ha hinfo hvalue => ?_,
    fun op hop hmod hlow hhigh pool m w hread hcode hlane hreg ha hc => ?_,
    fun pool m w hread hcode hreg hreg' ha hc hinfo => ?_⟩
  · have haction := action_infoBranch hop
    refine goes_of_perform hread hcode (by rw [haction]; rfl) ?_
    rw [haction, perform_branchInfo pool rel (by rw [enter_mem, pc_enter]; exact hinfo) hvalue hreg,
      get_enter_of_ne _ _ _ _ hreg, ha, pc_enter, UInt32.add_sub_cancel, hhalf,
      Fields.signExtend16_ofInt d hlow hhigh, hpast]
  · have haction := action_byteBranch hop
    refine goes_of_perform hread hcode (by rw [haction]; rfl) ?_
    rw [haction, perform_branchByte, get_enter_of_ne _ _ _ _ hreg, ha, hc, pc_enter,
      UInt32.add_sub_cancel, hlane, Fields.signExtend8_mul_four hmod hlow hhigh]
  · have haction := action_regsBranch rel
    refine goes_of_perform hread hcode (by rw [haction]; rfl) ?_
    have hperform := perform_branchRegs pool rel (m := m.enter m.pc w (.branchRegs rel))
      (w := w) (d := UInt32.ofInt d)
    rw [get_enter_of_ne _ _ _ _ hreg, get_enter_of_ne _ _ _ _ hreg', ha, hc, enter_mem, pc_enter,
      UInt32.add_sub_cancel, hpast] at hperform
    rw [haction]
    exact hperform hinfo

/-- About to compare minus one with minus two, which is also in a register, in the given words. -/
def comparing (word info : UInt32) : Machine := facing word info 0xffffffff 0xfffffffe

/-- With their top bits set the two are numbers below zero, and the branch leads backward. -/
theorem families_agree_below_zero :
    Goes none (comparing (Word.ofRegHalf Opcode.bgti.code (.ofInt 5) 0xffc0)
      (Info.ofLiteral 0xfffffffe)) 0xc0 ∧
    Goes none (comparing (Word.ofRegBytes Opcode.bgtib.code (.ofInt 5) 0xfe 0xf0) 0) 0xc0 ∧
    Goes none (comparing (Word.ofRegs Opcode.bgt.code (.ofInt 5) (.ofInt 6) 0)
      (Info.ofLiteral 0xffffffc0)) 0xc0 := by
  obtain ⟨hinfo, hbyte, hregs⟩ := families_agree .gt 0xffffffff 0xfffffffe (-0x40)
  refine ⟨?_, ?_, ?_⟩
  · exact hinfo .bgti rfl (by decide) (by decide) none _
      (Word.ofRegHalf Opcode.bgti.code (.ofInt 5) 0xffc0) (Info.ofLiteral 0xfffffffe)
      (by decide +kernel) (by decide +kernel) (by decide +kernel) (by decide +kernel)
      (by decide +kernel) (by decide +kernel) (by decide +kernel)
  · exact hbyte .bgtib rfl (by decide) (by decide) (by decide) none _
      (Word.ofRegBytes Opcode.bgtib.code (.ofInt 5) 0xfe 0xf0) (by decide +kernel)
      (by decide +kernel) (by decide +kernel) (by decide +kernel) (by decide +kernel)
      (by decide +kernel)
  · exact hregs none _ (Word.ofRegs Opcode.bgt.code (.ofInt 5) (.ofInt 6) 0) (by decide +kernel)
      (by decide +kernel) (by decide +kernel) (by decide +kernel) (by decide +kernel)
      (by decide +kernel) fun _ => ⟨Info.ofLiteral 0xffffffc0, by decide +kernel, by decide +kernel⟩

end TaskMachine.Branches
