import TaskMachine.Proofs.Processor.Parts
import TaskMachine.Proofs.Store.Constants

/-!
# What an instruction does to the machine

The parts of an instruction as equations on the machine, and from them what an
instruction with an info word does once the value of that word is known, where
a branch that is taken leads, and that no instruction changes the extent of the
memory.
-/

namespace TaskMachine.Effects

open Stateful Constants Exec

/-! ## Registers -/

@[simp]
theorem get_put_self (regs : Registers) (r : Reg) (v : UInt32) : (regs.put r v).get r = v := by
  change (regs.set r.val v r.isLt)[r.val] = v
  rw [Vector.getElem_set_self]

theorem get_put_of_ne (regs : Registers) {r q : Reg} (v : UInt32) (h : r ≠ q) :
    (regs.put r v).get q = regs.get q := by
  change (regs.set r.val v r.isLt)[q.val] = regs[q.val]
  exact Vector.getElem_set_ne r.isLt q.isLt fun he => h (Fin.ext he)

/-- The machine with one register changed. -/
def withReg (m : Machine) (r : Reg) (v : UInt32) : Machine := { m with regs := m.regs.put r v }

@[simp]
theorem pc_withReg_pc (m : Machine) (v : UInt32) : (withReg m Reg.pc v).pc = v :=
  get_put_self m.regs Reg.pc v

/-- The machine with its program counter one word further. -/
def past (m : Machine) : Machine := withReg m Reg.pc (m.pc + 4)

theorem past_regs (m : Machine) : (past m).regs = m.regs.put Reg.pc (m.pc + 4) := rfl

theorem get_past_of_ne (m : Machine) {r : Reg} (h : r ≠ Reg.pc) :
    (past m).regs.get r = m.regs.get r :=
  get_put_of_ne m.regs _ h.symm

/-! ## The parts of an instruction -/

theorem requireAccess_eq_ok {addr size : UInt32} {m m' : Machine} {u : Unit} :
    requireAccess addr size m = .ok u m' ↔ m.mem.accessible addr size = true ∧ m' = m := by
  change (if m.mem.accessible addr size then pure () else throw _ : Exec Unit) m = _ ↔ _
  split
  · rename_i h
    rw [pure_eq_ok]
    exact ⟨fun hm => ⟨h, hm.2⟩, fun hm => ⟨rfl, hm.2⟩⟩
  · rename_i h
    rw [throw_eq_ok]
    exact ⟨False.elim, fun hm => h hm.1⟩

theorem storeBytes_eq_ok {addr : UInt32} {bytes : List UInt8} {m m' : Machine} {u : Unit} :
    storeBytes addr bytes m = .ok u m' ↔
      m.mem.accessible addr (UInt32.ofNat bytes.length) = true ∧
        m' = { m with mem := m.mem.putBytes addr bytes } := by
  unfold storeBytes
  rw [bind_eq_ok]
  constructor
  · rintro ⟨_, t, ht, hm⟩
    obtain ⟨hacc, rfl⟩ := requireAccess_eq_ok.mp ht
    exact ⟨hacc, modify_eq_ok.mp hm⟩
  · rintro ⟨hacc, rfl⟩
    exact ⟨(), m, requireAccess_eq_ok.mpr ⟨hacc, rfl⟩, rfl⟩

theorem read32_eq_ok {mem : Memory} {addr w : UInt32} :
    mem.read32 addr = .ok w ↔ mem.accessible addr 4 = true ∧ mem.get32 addr = w := by
  unfold Memory.read32 Memory.checked
  split
  · rename_i h
    rw [Except.ok.injEq]
    exact ⟨fun hw => ⟨h, hw⟩, fun hw => hw.2⟩
  · rename_i h
    constructor
    · intro hw
      cases hw
    · intro hw
      exact absurd hw.1 h

theorem load32_eq_ok {addr v : UInt32} {m m' : Machine} :
    load32 addr m = .ok v m' ↔ m.mem.read32 addr = .ok v ∧ m' = m := by
  unfold load32
  rw [bind_eq_ok, read32_eq_ok]
  constructor
  · rintro ⟨_, t, ht, hv⟩
    obtain ⟨hacc, rfl⟩ := requireAccess_eq_ok.mp ht
    cases hv
    exact ⟨⟨hacc, rfl⟩, rfl⟩
  · rintro ⟨⟨hacc, rfl⟩, rfl⟩
    exact ⟨(), m', requireAccess_eq_ok.mpr ⟨hacc, rfl⟩, rfl⟩

theorem infoValue_eq_ok {pool : Option Pool} {info v : UInt32} {m m' : Machine} :
    (match Info.read info with
      | .literal value => return value
      | .pooled index =>
        match pool.bind (·.integer? index) with
        | some value => return value
        | none => throw (.notInteger index) : Exec UInt32) m = .ok v m' ↔
      value? pool info = some v ∧ m' = m := by
  unfold value?
  cases Info.read info with
  | literal value =>
    rw [Option.some.injEq, pure_eq_ok]
    exact and_congr_left' eq_comm
  | pooled index =>
    dsimp only
    cases pool.bind (·.integer? index) with
    | some value =>
      rw [Option.some.injEq, pure_eq_ok]
      exact and_congr_left' eq_comm
    | none =>
      rw [throw_eq_ok]
      exact ⟨False.elim, fun h => nomatch h.1⟩

/-- The info word at the program counter gives its value, and the counter moves past it. -/
theorem fetchInfo_eq_ok {pool : Option Pool} {m m' : Machine} {v : UInt32} :
    fetchInfo pool m = .ok v m' ↔
      (∃ info, m.mem.read32 m.pc = .ok info ∧ value? pool info = some v) ∧ m' = past m := by
  change (load32 m.pc >>= _) (past m) = _ ↔ _
  rw [bind_eq_ok]
  constructor
  · rintro ⟨info, t, hload, hv⟩
    obtain ⟨hread, rfl⟩ := load32_eq_ok.mp hload
    obtain ⟨hvalue, rfl⟩ := infoValue_eq_ok.mp hv
    exact ⟨⟨info, hread, hvalue⟩, rfl⟩
  · rintro ⟨⟨info, hread, hvalue⟩, rfl⟩
    exact ⟨info, past m, load32_eq_ok.mpr ⟨hread, rfl⟩, infoValue_eq_ok.mpr ⟨hvalue, rfl⟩⟩

theorem fetchInfo_of_value {pool : Option Pool} {m : Machine} {info v : UInt32}
    (hread : m.mem.read32 m.pc = .ok info) (hvalue : value? pool info = some v) :
    fetchInfo pool m = .ok v (past m) :=
  fetchInfo_eq_ok.mpr ⟨⟨info, hread, hvalue⟩, rfl⟩

/-! ## One instruction -/

@[simp]
theorem enter_regs (m : Machine) (pc word : UInt32) (a : Action) :
    (m.enter pc word a).regs = m.regs.put Reg.pc (pc + 4) := by
  unfold Machine.enter
  dsimp only
  split <;> rfl

@[simp]
theorem enter_mem (m : Machine) (pc word : UInt32) (a : Action) :
    (m.enter pc word a).mem = m.mem := by
  unfold Machine.enter
  dsimp only
  split <;> rfl

@[simp]
theorem pc_enter (m : Machine) (pc word : UInt32) (a : Action) :
    (m.enter pc word a).pc = pc + 4 := by
  rw [Cpu.pc, enter_regs, get_put_self]

theorem get_enter_of_ne (m : Machine) (pc word : UInt32) (a : Action) {r : Reg}
    (h : r ≠ Reg.pc) : (m.enter pc word a).regs.get r = m.regs.get r := by
  rw [enter_regs, get_put_of_ne _ _ h.symm]

/-- A word that is an instruction is executed from the machine past it. -/
theorem step_of_word {pool : Option Pool} {m : Machine} {word : UInt32} {op : Opcode}
    (hread : m.mem.read32 m.pc = .ok word) (hop : Opcode.ofCode? (Word.code word) = some op) :
    Machine.step pool m =
      match op.action.perform pool word (m.enter m.pc word op.action) with
      | .ok _ m' => .ok op.action.suspension { m' with ran := m'.ran + 1 }
      | .error fault m' => .error (.instruction m.pc word fault) m' := by
  obtain ⟨hacc, rfl⟩ := read32_eq_ok.mp hread
  unfold Machine.step
  dsimp only
  rw [if_pos hacc]
  split
  · rename_i hnone
    cases hop.symm.trans hnone
  · rename_i op' hop'
    cases hop.symm.trans hop'
    rfl

/-- What an instruction does with the value that its info word stands for, from the moment its
own word has been passed; the instructions that take no such value are left out. -/
def withInfo? (v w : UInt32) (m : Machine) : Action → Option (EStateM.Result Fault Machine Unit)
  | .immediate op =>
    some (.ok () (withReg (past m) (Word.regA w) (op.apply (m.regs.get (Word.regB w)) v)))
  | .immediateHalf op =>
    let s := m.regs.get (Word.regB w) &&& 0xffff
    some (.ok () (withReg (past m) (Word.regA w) (op.apply s (v &&& 0xffff) &&& 0xffff)))
  | .divideImmediate d => some <|
    match d.apply? (m.regs.get (Word.regB w)) v with
    | some q => .ok () (withReg (past m) (Word.regA w) q)
    | none => .error .divideByZero (past m)
  | .branchInfo c => some <|
    if c.holds ((past m).regs.get (Word.regA w)) v then
      .ok () (withReg (past m) Reg.pc (m.pc - 4 + Word.signExtend16 (Word.half w)))
    else .ok () (past m)
  | .store size =>
    let bytes := storedBytes ((past m).regs.get (Word.regA w)) size
    some (storeBytes (m.regs.get (Word.regB w) + v) bytes (past m))
  | .load size signed => some <|
    match loadValue (m.regs.get (Word.regB w) + v) size signed (past m) with
    | .ok x m' => .ok () (withReg m' (Word.regA w) x)
    | .error fault m' => .error fault m'
  | .loadInfo => some (.ok () (withReg (past m) (Word.regA w) v))
  | _ => none

/-- An instruction uses exactly the value that its info word stands for. -/
theorem perform_of_value {pool : Option Pool} {m : Machine} {info v : UInt32} (w : UInt32)
    (hread : m.mem.read32 m.pc = .ok info) (hvalue : value? pool info = some v) {a : Action}
    {result : EStateM.Result Fault Machine Unit} (h : withInfo? v w m a = some result) :
    a.perform pool w m = result := by
  have hfetch := fetchInfo_of_value hread hvalue
  have haddr : operandAddress pool w m = .ok (m.regs.get (Word.regB w) + v) (past m) := by
    change (fetchInfo pool >>= _) m = _
    rw [bind_of_ok hfetch]
    rfl
  cases a with
  | immediate op =>
    cases h
    change (fetchInfo pool >>= _) m = _
    rw [bind_of_ok hfetch]
    rfl
  | immediateHalf op =>
    cases h
    change (fetchInfo pool >>= _) m = _
    rw [bind_of_ok hfetch]
    rfl
  | divideImmediate d =>
    cases h
    change (fetchInfo pool >>= _) m = _
    rw [bind_of_ok hfetch]
    cases d.apply? (m.regs.get (Word.regB w)) v with
    | some q => rfl
    | none => rfl
  | branchInfo c =>
    cases h
    change (fetchInfo pool >>= _) m = _
    rw [bind_of_ok hfetch]
    change (if c.holds ((past m).regs.get (Word.regA w)) v = true then _ else _ : Exec Unit)
      (past m) = _
    split
    · rfl
    · rfl
  | store size =>
    cases h
    change (operandAddress pool w >>= _) m = _
    rw [bind_of_ok haddr]
    rfl
  | load size signed =>
    change (operandAddress pool w >>= _) m = _
    cases h
    rw [bind_of_ok haddr]
    cases hx : loadValue (m.regs.get (Word.regB w) + v) size signed (past m) with
    | ok x m' =>
      rw [bind_of_ok hx]
      rfl
    | error fault m' => rw [bind_of_error hx]
  | loadInfo =>
    cases h
    change (fetchInfo pool >>= _) m = _
    rw [bind_of_ok hfetch]
    rfl
  | _ => cases h

/-! ## Branches and jumps -/

/-- Whether an action reads or skips an info word. -/
def takesInfo : Action → Bool
  | .immediate _ | .immediateHalf _ | .divideImmediate _ | .branchInfo _ | .branchRegs _
  | .store _ | .load _ _ | .loadInfo => true
  | _ => false

/-- Whether an instruction goes by the distance it carries: jumps and calls always do, and
branches when their condition holds. The registers are those past the instruction's own word. A
branch that compares with an info word is not taken unless that word stands for a value. -/
def taken (pool : Option Pool) (w info : UInt32) (regs : Registers) : Action → Bool
  | .branchInfo c =>
    match value? pool info with
    | some v => c.holds ((regs.put Reg.pc (regs.get Reg.pc + 4)).get (Word.regA w)) v
    | none => false
  | .branchByte c signed =>
    c.holds (regs.get (Word.regA w))
      (if signed then Word.signExtend8 (Word.laneB w) else (Word.laneB w).toUInt32)
  | .branchRegs c => c.holds (regs.get (Word.regA w)) (regs.get (Word.regB w))
  | .jump | .call => true
  | _ => false

/-- The distance that an instruction carries. -/
def distance? (pool : Option Pool) (w info : UInt32) : Action → Option UInt32
  | .branchInfo _ => some (Word.signExtend16 (Word.half w))
  | .branchByte _ _ => some (Word.signExtend8 (Word.laneC w) * 4)
  | .branchRegs _ => value? pool info
  | .jump | .call => some (Word.offset24 w).toUInt32
  | _ => none

/-- A taken branch leads from the instruction's own address by its distance. -/
theorem perform_taken {pool : Option Pool} {w info d : UInt32} {m : Machine} {a : Action}
    (hread : takesInfo a = true → m.mem.read32 m.pc = .ok info)
    (htaken : taken pool w info m.regs a = true) (hd : distance? pool w info a = some d) :
    ∃ m', a.perform pool w m = .ok () m' ∧ m'.pc = m.pc - 4 + d := by
  cases a with
  | branchInfo c =>
    cases hd
    simp only [taken] at htaken
    split at htaken
    · rename_i v hvalue
      refine ⟨_, perform_of_value w (hread rfl) hvalue (congrArg some (if_pos htaken)), ?_⟩
      exact pc_withReg_pc (past m) _
    · cases htaken
  | branchByte c signed =>
    cases hd
    simp only [taken] at htaken
    refine ⟨withReg m Reg.pc (m.pc - 4 + Word.signExtend8 (Word.laneC w) * 4), ?_,
      pc_withReg_pc m _⟩
    change (if _ then _ else _ : Exec Unit) m = _
    rw [if_pos htaken]
    rfl
  | branchRegs c =>
    simp only [taken] at htaken
    refine ⟨withReg (past m) Reg.pc (m.pc - 4 + d), ?_, pc_withReg_pc (past m) _⟩
    change (if _ then _ else _ : Exec Unit) m = _
    rw [if_pos htaken, bind_of_ok (fetchInfo_of_value (hread rfl) hd)]
    rfl
  | jump =>
    cases hd
    exact ⟨_, rfl, pc_withReg_pc m _⟩
  | call =>
    cases hd
    exact ⟨_, rfl, pc_withReg_pc (withReg m Reg.ra m.pc) _⟩
  | _ => cases hd

/-! ## The extent of the memory -/

/-- The memories of the machines are mapped at the same addresses. -/
structure SameExtent (m n : Machine) : Prop where
  base : n.mem.base = m.mem.base
  size : n.mem.data.size = m.mem.data.size

theorem SameExtent.refl (m : Machine) : SameExtent m m := ⟨rfl, rfl⟩

theorem SameExtent.trans {l m n : Machine} (h : SameExtent l m) (k : SameExtent m n) :
    SameExtent l n :=
  ⟨k.base.trans h.base, k.size.trans h.size⟩

theorem closed_sameExtent : Parts.Closed fun {_} x => Keeps SameExtent x where
  pure a := .pure SameExtent.refl a
  throw fault := .throw SameExtent.refl fault
  bind hx hg := .bind (R := SameExtent) SameExtent.trans hx hg
  reg _ m := .refl m
  setReg _ _ m := ⟨rfl, rfl⟩
  requireAccess addr size := by
    have hget : Keeps SameExtent (get : Exec Machine) := SameExtent.refl
    refine .bind (R := SameExtent) SameExtent.trans hget fun m => ?_
    exact .ite (.pure SameExtent.refl _) (.throw SameExtent.refl _)
  readMem _ m := .refl m
  putBytes addr bytes m := ⟨rfl, Bytes.size_setAll _ _ _⟩
  copyBytes dst src count m := ⟨rfl, Bytes.size_copyWithin _ _ _ _⟩
  fillBytes dst value count m := ⟨rfl, Bytes.size_fill _ _ _ _⟩

/-- No instruction moves the memory or changes its size, whether it completes or faults. -/
theorem sameExtent_step (pool : Option Pool) (m : Machine) :
    SameExtent m (endState (Machine.step pool m)) := by
  simp only [Machine.step]
  split
  · split
    · exact .refl m
    · rename_i op _
      have hperform := closed_sameExtent.perform pool (m.mem.get32 m.pc) op.action
        (m.enter m.pc (m.mem.get32 m.pc) op.action)
      obtain ⟨hbase, hsize⟩ := hperform
      rw [enter_mem] at hbase hsize
      split
      · rename_i hok
        rw [hok] at hbase hsize
        exact ⟨hbase, hsize⟩
      · rename_i herror
        rw [herror] at hbase hsize
        exact ⟨hbase, hsize⟩
  · exact .refl m

end TaskMachine.Effects
