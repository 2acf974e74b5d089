import TaskMachine.Proofs.Processor.Slicing
import TaskMachine.Proofs.Processor.Stack

/-!
# Where a fault leaves the machine

Every part of an instruction that can fault does so before it has changed
anything, with two exceptions: the program counter is past the info word as soon
as that word is asked for, and a push keeps in memory what it has written before
it comes to an address that is not mapped. `perform_eq_error` says this once for
all instructions. A run that faults is a run that spends a smaller budget and then
takes one step that faults, so that its registers are those of the instructions
that it completed.
-/

namespace TaskMachine.Faults

open Stateful Exec Effects Words Stack Slicing Bookkeeping
open Word (regA regB regC laneC)

variable {α β : Type} {f : Machine → Machine}

/-! ## Where computations fault -/

/-- The computation never faults. -/
def Faultless (x : Exec α) : Prop := ∀ m e m', x m ≠ .error e m'

/-- Whenever the computation faults, it has done this much. -/
def FaultsAt (f : Machine → Machine) (x : Exec α) : Prop := ∀ m e m', x m = .error e m' → m' = f m

theorem faultless_pure (a : α) : Faultless (pure a : Exec α) := by
  intro m e m' h
  cases h

theorem Faultless.bind {x : Exec α} {g : α → Exec β} (hx : Faultless x)
    (hg : ∀ a, Faultless (g a)) : Faultless (x >>= g) := by
  intro m e m' h
  obtain h | ⟨a, t, -, h⟩ := bind_eq_error h
  · exact hx m e m' h
  · exact hg a t e m' h

theorem Faultless.ite {x y : Exec α} {c : Prop} [Decidable c] (hx : Faultless x)
    (hy : Faultless y) : Faultless (if c then x else y) := by
  split
  · exact hx
  · exact hy

theorem Faultless.faultsAt {x : Exec α} (hx : Faultless x) : FaultsAt f x :=
  fun m e m' h => absurd h (hx m e m')

theorem faultsAt_throw (fault : Fault) : FaultsAt id (throw fault : Exec α) := by
  intro m e m' h
  cases h
  rfl

/-- What only looks at the machine may come before. -/
theorem FaultsAt.after_reading {x : Exec α} {g : α → Exec β} (hx : FaultsAt f x)
    (hread : Reads x) (hg : ∀ a, FaultsAt f (g a)) : FaultsAt f (x >>= g) := by
  intro m e m' h
  obtain h | ⟨a, t, ht, h⟩ := bind_eq_error h
  · exact hx m e m' h
  · rw [hread m a t ht] at h
    exact hg a m e m' h

/-- What has been done in full is kept when a later part faults in its place. -/
theorem FaultsAt.then_faulting {x : Exec α} {g : α → Exec β} (hx : FaultsAt f x)
    (hdone : Ensures (fun m m' => m' = f m) x) (hg : ∀ a, FaultsAt id (g a)) :
    FaultsAt f (x >>= g) := by
  intro m e m' h
  obtain h | ⟨a, t, ht, h⟩ := bind_eq_error h
  · exact hx m e m' h
  · rw [hg a t e m' h, hdone m a t ht]
    rfl

theorem FaultsAt.then_faultless {x : Exec α} {g : α → Exec β} (hx : FaultsAt f x)
    (hg : ∀ a, Faultless (g a)) : FaultsAt f (x >>= g) := by
  intro m e m' h
  obtain h | ⟨a, t, -, h⟩ := bind_eq_error h
  · exact hx m e m' h
  · exact absurd h (hg a t e m')

/-! ## The parts of an instruction -/

theorem faultless_reg (r : Reg) : Faultless (reg r) := by
  intro m e m' h
  cases h

theorem reads_reg (r : Reg) : Reads (reg r) := by
  intro m a m' h
  cases h
  rfl

/-- Registers may be looked at before. -/
theorem faultsAt_reg {g : UInt32 → Exec α} (r : Reg) (hg : ∀ v, FaultsAt f (g v)) :
    FaultsAt f (reg r >>= g) :=
  (faultless_reg r).faultsAt.after_reading (reads_reg r) hg

theorem faultless_here : Faultless here := by
  intro m e m' h
  cases h

theorem reads_here : Reads here := (reads_reg Reg.pc).bind fun _ => .pure _

theorem faultsAt_here {g : UInt32 → Exec α} (hg : ∀ v, FaultsAt f (g v)) :
    FaultsAt f (here >>= g) :=
  faultless_here.faultsAt.after_reading reads_here hg

theorem faultless_setReg (r : Reg) (v : UInt32) : Faultless (setReg r v) := by
  intro m e m' h
  cases h

theorem faultless_modify (g : Machine → Machine) : Faultless (modify g : Exec PUnit) := by
  intro m e m' h
  cases h

theorem faultless_readMem (g : Memory → α) : Faultless (do return g (← get).mem : Exec α) := by
  intro m e m' h
  cases h

theorem faultless_setAll (values : List (Reg × UInt32)) : Faultless (setAll values) := by
  induction values with
  | nil => exact faultless_pure ()
  | cons entry values ih => exact (faultless_setReg entry.1 entry.2).bind fun _ => ih

theorem requireAccess_eq_error {addr size : UInt32} {m m' : Machine} {e : Fault}
    (h : requireAccess addr size m = .error e m') :
    m.mem.accessible addr size = false ∧ m' = m := by
  change (if m.mem.accessible addr size then pure () else throw _ : Exec Unit) m = _ at h
  split at h
  · cases h
  · rename_i hacc
    cases h
    exact ⟨Bool.eq_false_iff.mpr hacc, rfl⟩

theorem reads_requireAccess (addr size : UInt32) : Reads (requireAccess addr size) :=
  fun _ _ _ h => (requireAccess_eq_ok.mp h).2

/-- An access that needs mapped bytes faults before anything else is done. -/
theorem faultsAt_requireAccess {g : Unit → Exec α} (addr size : UInt32)
    (hg : ∀ u, FaultsAt id (g u)) : FaultsAt id (requireAccess addr size >>= g) :=
  FaultsAt.after_reading (fun _ _ _ h => (requireAccess_eq_error h).2)
    (reads_requireAccess addr size) hg

theorem faultsAt_load8 (addr : UInt32) : FaultsAt id (load8 addr) :=
  faultsAt_requireAccess addr 1 fun _ => (faultless_readMem (·.get8 addr)).faultsAt

theorem faultsAt_load16 (addr : UInt32) : FaultsAt id (load16 addr) :=
  faultsAt_requireAccess addr 2 fun _ => (faultless_readMem (·.get16 addr)).faultsAt

theorem faultsAt_load32 (addr : UInt32) : FaultsAt id (load32 addr) :=
  faultsAt_requireAccess addr 4 fun _ => (faultless_readMem (·.get32 addr)).faultsAt

theorem reads_load32 (addr : UInt32) : Reads (load32 addr) :=
  fun _ _ _ h => (load32_eq_ok.mp h).2

theorem storeBytes_eq_error {addr : UInt32} {bytes : List UInt8} {m m' : Machine} {e : Fault}
    (h : storeBytes addr bytes m = .error e m') :
    m.mem.accessible addr (UInt32.ofNat bytes.length) = false ∧ m' = m := by
  obtain h | ⟨_, t, -, h⟩ := bind_eq_error h
  · exact requireAccess_eq_error h
  · cases h

theorem faultsAt_loadValue (addr : UInt32) (size : Width) (signed : Bool) :
    FaultsAt id (loadValue addr size signed) := by
  cases size with
  | byte => exact (faultsAt_load8 addr).then_faultless fun _ => faultless_pure _
  | half => exact (faultsAt_load16 addr).then_faultless fun _ => faultless_pure _
  | word => exact faultsAt_load32 addr

theorem faultsAt_popAll (rs : List Reg) (sp : UInt32) : FaultsAt id (popAll rs sp) := by
  induction rs generalizing sp with
  | nil => exact (faultless_pure _).faultsAt
  | cons r rs ih =>
    exact (faultsAt_load32 sp).after_reading (reads_load32 sp) fun _ =>
      (ih _).then_faultless fun _ => faultless_pure _

/-! ## The info word -/

/-- The counter moves past the info word before that word is read. -/
theorem faultsAt_fetchInfo (pool : Option Pool) : FaultsAt past (fetchInfo pool) := by
  intro m e m' h
  change (load32 m.pc >>= _) (past m) = _ at h
  refine (faultsAt_load32 m.pc).after_reading (reads_load32 m.pc) (fun word => ?_) (past m) e m' h
  split
  · exact (faultless_pure _).faultsAt
  · split
    · exact (faultless_pure _).faultsAt
    · exact faultsAt_throw _

/-- What comes after the info word faults with the counter past it. -/
theorem faultsAt_info {g : UInt32 → Exec α} (pool : Option Pool)
    (hg : ∀ v, FaultsAt id (g v)) : FaultsAt past (fetchInfo pool >>= g) :=
  (faultsAt_fetchInfo pool).then_faulting (fun _ _ _ h => (fetchInfo_eq_ok.mp h).2) hg

theorem faultsAt_address {g : UInt32 → Exec α} (pool : Option Pool) (w : UInt32)
    (hg : ∀ v, FaultsAt id (g v)) : FaultsAt past (operandAddress pool w >>= g) := by
  refine FaultsAt.then_faulting ?_ ?_ hg
  · exact faultsAt_reg _ fun _ => faultsAt_info pool fun _ => (faultless_pure _).faultsAt
  · intro m a m' h
    obtain ⟨base, h⟩ := (reads_reg _).bind_eq_ok h
    obtain ⟨disp, t, ht, h⟩ := bind_eq_ok.mp h
    obtain ⟨-, rfl⟩ := pure_eq_ok.mp h
    exact (fetchInfo_eq_ok.mp ht).2

/-- Whether an instruction asks for its info word, from the moment its own word has been passed: a
branch that finds its distance there does so only when it is taken. -/
def asksInfo (w : UInt32) (regs : Registers) : Action → Bool
  | .branchRegs c => c.holds (regs.get (regA w)) (regs.get (regB w))
  | a => takesInfo a

/-- An instruction that asks for its info word faults if that word stands for no value. -/
theorem perform_of_info_error {pool : Option Pool} {w : UInt32} {m m' : Machine} {a : Action}
    {e : Fault} (hasks : asksInfo w m.regs a = true) (h : fetchInfo pool m = .error e m') :
    a.perform pool w m = .error e m' := by
  have haddr : operandAddress pool w m = .error e m' := bind_of_error h _
  cases a with
  | immediate op => exact bind_of_error h _
  | immediateHalf op => exact bind_of_error h _
  | divideImmediate d => exact bind_of_error h _
  | branchInfo c => exact bind_of_error h _
  | branchRegs c =>
    simp only [asksInfo] at hasks
    change (if _ then _ else _ : Exec Unit) m = _
    rw [if_pos hasks]
    exact bind_of_error h _
  | store size => exact bind_of_error haddr _
  | load size signed => exact bind_of_error haddr _
  | loadInfo => exact bind_of_error h _
  | _ => cases hasks

/-! ## Whole instructions -/

theorem faultsAt_perform (pool : Option Pool) (w : UInt32) {a : Action} (hpush : a ≠ .push) :
    FaultsAt (if takesInfo a then past else id) (a.perform pool w) := by
  have set (v : UInt32) : Faultless (setReg (regA w) v) := faultless_setReg _ v
  have go (v : UInt32) : Faultless (setReg Reg.pc v) := faultless_setReg _ v
  cases a with
  | binary op => exact faultsAt_reg _ fun _ => faultsAt_reg _ fun _ => (set _).faultsAt
  | divide d =>
    refine faultsAt_reg _ fun s => faultsAt_reg _ fun t => ?_
    cases d.apply? s t with
    | some v => exact (set v).faultsAt
    | none => exact faultsAt_throw _
  | unary op => exact faultsAt_reg _ fun _ => (set _).faultsAt
  | narrow op size => exact faultsAt_reg _ fun _ => faultsAt_reg _ fun _ => (set _).faultsAt
  | narrowShift op size => exact faultsAt_reg _ fun _ => faultsAt_reg _ fun _ => (set _).faultsAt
  | quick op signed => exact faultsAt_reg _ fun _ => (set _).faultsAt
  | quickByte op => exact faultsAt_reg _ fun _ => (set _).faultsAt
  | immediate op => exact faultsAt_reg _ fun _ => faultsAt_info pool fun _ => (set _).faultsAt
  | immediateHalf op => exact faultsAt_reg _ fun _ => faultsAt_info pool fun _ => (set _).faultsAt
  | divideImmediate d =>
    refine faultsAt_reg _ fun s => faultsAt_info pool fun imm => ?_
    cases d.apply? s imm with
    | some v => exact (set v).faultsAt
    | none => exact faultsAt_throw _
  | branchInfo c =>
    refine faultsAt_here fun _ => faultsAt_info pool fun _ => faultsAt_reg _ fun _ => ?_
    exact (Faultless.ite (go _) (faultless_pure _)).faultsAt
  | branchByte c signed =>
    refine faultsAt_reg _ fun _ => (Faultless.ite ?_ (faultless_pure _)).faultsAt
    exact faultless_here.bind fun _ => go _
  | branchRegs c =>
    refine faultsAt_here fun _ => faultsAt_reg _ fun a => faultsAt_reg _ fun b => ?_
    cases c.holds a b with
    | true => exact faultsAt_info pool fun _ => (go _).faultsAt
    | false => exact ((faultless_reg _).bind fun _ => go _).faultsAt
  | store size =>
    exact faultsAt_address pool w fun _ => faultsAt_reg _ fun _ => fun _ _ _ h =>
      (storeBytes_eq_error h).2
  | load size signed =>
    exact faultsAt_address pool w fun _ => (faultsAt_loadValue _ size signed).then_faultless
      fun _ => set _
  | loadQuick => exact (set _).faultsAt
  | loadInfo => exact faultsAt_info pool fun _ => (set _).faultsAt
  | jumpReg => exact faultsAt_reg _ fun _ => (go _).faultsAt
  | callReg =>
    exact faultsAt_reg _ fun _ => faultsAt_reg _ fun _ =>
      ((faultless_setReg _ _).bind fun _ => go _).faultsAt
  | jump => exact faultsAt_here fun _ => (go _).faultsAt
  | call =>
    exact faultsAt_here fun _ => faultsAt_reg _ fun _ =>
      ((faultless_setReg _ _).bind fun _ => go _).faultsAt
  | ret => exact faultsAt_reg _ fun _ => (go _).faultsAt
  | push => exact absurd rfl hpush
  | pop =>
    exact faultsAt_reg _ fun _ => (faultsAt_popAll _ _).then_faultless fun _ =>
      (faultless_setAll _).bind fun _ => faultless_setReg _ _
  | copy =>
    exact faultsAt_reg _ fun _ => faultsAt_reg _ fun _ => faultsAt_reg _ fun _ =>
      faultsAt_requireAccess _ _ fun _ => faultsAt_requireAccess _ _ fun _ =>
      (faultless_modify _).faultsAt
  | fill =>
    exact faultsAt_reg _ fun _ => faultsAt_reg _ fun _ => faultsAt_reg _ fun _ =>
      faultsAt_requireAccess _ _ fun _ => (faultless_modify _).faultsAt
  | kill => exact (faultless_pure ()).faultsAt
  | sleep => exact (faultless_pure ()).faultsAt

/-- An instruction faults with the counter past its info word exactly when it asks for that word:
the branch that skips it cannot fault. -/
theorem perform_takesInfo {pool : Option Pool} {w : UInt32} {m m' : Machine} {a : Action}
    {e : Fault} (h : a.perform pool w m = .error e m') :
    takesInfo a = asksInfo w m.regs a := by
  cases a with
  | branchRegs c =>
    change (if c.holds (m.regs.get (regA w)) (m.regs.get (regB w)) then _ else _ : Exec Unit) m = _
      at h
    split at h
    · rename_i htaken
      exact htaken.symm
    · cases h
  | _ => rfl

/-! ## Saving registers -/

/-- The words that registers are saved in below a stack pointer, in the order of the writes. -/
def pushes (rs : List Reg) (sp : UInt32) (regs : Registers) : List (UInt32 × UInt32) :=
  (addressed (sp - UInt32.ofNat (4 * rs.length)) (rs.reverse.map regs.get)).reverse

theorem pushes_cons (r : Reg) (rs : List Reg) (sp : UInt32) (regs : Registers) :
    pushes (r :: rs) sp regs = (sp - 4, regs.get r) :: pushes rs (sp - 4) regs := by
  unfold pushes
  rw [List.length_cons, ← sub_four_sub, List.reverse_cons, List.map_append, addressed_append,
    List.length_map, List.length_reverse, UInt32.sub_add_cancel, List.reverse_append]
  rfl

/-- A push that does not reach its end has written the words before the first unmapped one. -/
theorem pushAll_eq_error {rs : List Reg} {sp : UInt32} {m m' : Machine} {e : Fault}
    (h : pushAll rs sp m = .error e m') :
    m'.regs = m.regs ∧
    m'.mem = writeAll m.mem ((pushes rs sp m.regs).takeWhile fun d => m.mem.accessible d.1 4) := by
  induction rs generalizing sp m with
  | nil => cases h
  | cons r rs ih =>
    rw [pushes_cons]
    obtain h | ⟨v, t, hreg, h⟩ := bind_eq_error h
    · cases h
    cases hreg
    obtain h | ⟨_, t, hstore, h⟩ := bind_eq_error h
    · obtain ⟨hacc, rfl⟩ := storeBytes_eq_error h
      have hunmapped : m'.mem.accessible (sp - 4) 4 = false := hacc
      rw [List.takeWhile_cons, hunmapped]
      exact ⟨rfl, rfl⟩
    · obtain ⟨hacc, rfl⟩ := storeBytes_eq_ok.mp hstore
      obtain ⟨hregs, hmem⟩ := ih h
      -- Writing a word maps and unmaps nothing.
      simp only [accessible_putBytes] at hmem
      have hmapped : m.mem.accessible (sp - 4) 4 = true := hacc
      rw [List.takeWhile_cons, hmapped]
      exact ⟨hregs, hmem⟩

/-- The words that a faulting instruction leaves in memory: those that a push comes to before the
first address that is not mapped. -/
def leftBehind (w : UInt32) (m : Machine) : Action → List (UInt32 × UInt32)
  | .push => (saved w m).reverse.takeWhile fun e => m.mem.accessible e.1 4
  | _ => []

/-- A fault leaves the registers as the instruction found them, but for the counter if the info word
was asked for, and adds the words left behind to memory. -/
theorem perform_eq_error {pool : Option Pool} {w : UInt32} {m m' : Machine} {a : Action}
    {e : Fault} (h : a.perform pool w m = .error e m') :
    m'.regs = (if asksInfo w m.regs a then past m else m).regs ∧
    m'.mem = writeAll m.mem (leftBehind w m a) := by
  by_cases hpush : a = .push
  · subst hpush
    obtain h | ⟨sp, t, hsp, h⟩ := bind_eq_error h
    · cases h
    cases hsp
    obtain h | ⟨top, t, -, h⟩ := bind_eq_error h
    · exact pushAll_eq_error h
    · cases h
  · have hend := faultsAt_perform pool w hpush m e m' h
    have hleft : leftBehind w m a = [] := by
      cases a with
      | push => exact absurd rfl hpush
      | _ => rfl
    rw [hend, perform_takesInfo h, hleft]
    split
    · exact ⟨rfl, rfl⟩
    · exact ⟨rfl, rfl⟩

/-! ## One step -/

/-- How a step can fault: the error it reports, and where the counter then stands. -/
inductive Faulted (pool : Option Pool) (m : Machine) : RunError → UInt32 → Prop
  /-- The word itself cannot be fetched. -/
  | unfetched (hacc : m.mem.accessible m.pc 4 = false) :
    Faulted pool m (.instruction m.pc 0 (.address ⟨m.pc, 4⟩)) m.pc
  /-- The word is no instruction. -/
  | unassigned {word : UInt32} (hread : m.mem.read32 m.pc = .ok word)
    (hnone : Opcode.ofCode? (Word.code word) = none) :
    Faulted pool m (.unassigned (Word.code word) m.pc) m.pc
  /-- The instruction asked for its info word, which stands for no value. -/
  | info {word : UInt32} {op : Opcode} {fault : Fault} {t : Machine}
    (hread : m.mem.read32 m.pc = .ok word) (hop : Opcode.ofCode? (Word.code word) = some op)
    (hasks : asksInfo word (past m).regs op.action = true)
    (hinfo : fetchInfo pool (m.enter m.pc word op.action) = .error fault t) :
    Faulted pool m (.instruction m.pc word fault) (m.pc + 8)
  /-- The instruction asked for its info word, and could not go on with its value. -/
  | afterInfo {word value : UInt32} {op : Opcode} {fault : Fault} {t : Machine}
    (hread : m.mem.read32 m.pc = .ok word) (hop : Opcode.ofCode? (Word.code word) = some op)
    (hasks : asksInfo word (past m).regs op.action = true)
    (hinfo : fetchInfo pool (m.enter m.pc word op.action) = .ok value t) :
    Faulted pool m (.instruction m.pc word fault) (m.pc + 8)
  /-- The instruction did not ask for an info word. -/
  | within {word : UInt32} {op : Opcode} {fault : Fault}
    (hread : m.mem.read32 m.pc = .ok word) (hop : Opcode.ofCode? (Word.code word) = some op)
    (hasks : asksInfo word (past m).regs op.action = false) :
    Faulted pool m (.instruction m.pc word fault) (m.pc + 4)

/-- A step that faults reports the address of its word, leaves every register but the counter alone
and is not counted. -/
theorem step_eq_error {pool : Option Pool} {m m' : Machine} {e : RunError}
    (h : m.step pool = .error e m') :
    Faulted pool m e m'.pc ∧ e.pc? = some m.pc ∧ (∀ r, r ≠ Reg.pc → m'.regs.get r = m.regs.get r) ∧
      m'.ran = m.ran := by
  cases hacc : m.mem.accessible m.pc 4 with
  | false =>
    simp only [Machine.step, hacc] at h
    cases h
    exact ⟨.unfetched hacc, rfl, fun _ _ => rfl, rfl⟩
  | true =>
    have hread := read32_of_accessible hacc
    cases hop : Opcode.ofCode? (Word.code (m.mem.get32 m.pc)) with
    | none =>
      simp only [Machine.step, hacc, hop] at h
      cases h
      exact ⟨.unassigned hread hop, rfl, fun _ _ => rfl, rfl⟩
    | some op =>
      rw [step_of_word hread hop] at h
      split at h
      · cases h
      · rename_i fault t hperform
        cases h
        obtain ⟨hregs, -⟩ := perform_eq_error hperform
        rw [enter_regs, ← past_regs] at hregs
        have hran := ran_perform pool (m.mem.get32 m.pc) op.action
          (m.enter m.pc (m.mem.get32 m.pc) op.action)
        rw [hperform, ran_enter] at hran
        cases hasks : asksInfo (m.mem.get32 m.pc) (past m).regs op.action with
        | false =>
          rw [hasks, if_neg Bool.false_ne_true, enter_regs] at hregs
          have hpc : m'.pc = m.pc + 4 := by rw [Cpu.pc, hregs, get_put_self]
          refine ⟨hpc ▸ .within hread hop hasks, rfl, fun r hr => ?_, hran⟩
          rw [hregs, get_put_of_ne _ _ hr.symm]
        | true =>
          rw [hasks, if_pos rfl, past_regs, pc_enter, enter_regs, UInt32.add_assoc] at hregs
          have hpc : m'.pc = m.pc + 8 := by rw [Cpu.pc, hregs, get_put_self]; rfl
          refine ⟨hpc ▸ ?_, rfl, fun r hr => ?_, hran⟩
          · cases hinfo : fetchInfo pool (m.enter m.pc (m.mem.get32 m.pc) op.action) with
            | ok value u => exact .afterInfo hread hop hasks hinfo
            | error fault' u =>
              have hfirst := perform_of_info_error (by rw [enter_regs, ← past_regs, hasks]) hinfo
              cases hfirst.symm.trans hperform
              exact .info hread hop hasks hinfo
          · rw [hregs, get_put_of_ne _ _ hr.symm, get_put_of_ne _ _ hr.symm]

/-! ## Runs -/

/-- A loop that faults first spends a smaller budget, and then takes the step that faults. -/
theorem loop_eq_fault {pool : Option Pool} {n : Nat} {m m' : Machine} {e : RunError}
    (hm : Underway m) (h : loop pool n m = (m', ⟨.fault, some e⟩)) :
    ∃ k t, loop pool k m = (t, ⟨.budget, none⟩) ∧ t.ran = m.ran + k ∧
      t.step pool = .error e m' := by
  induction n generalizing m with
  | zero => cases h
  | succ n ih =>
    obtain ⟨hrunning, hstopping⟩ := hm
    have hflags := flags_step pool m
    cases hstep : m.step pool with
    | error e' t =>
      simp only [loop, cycle, hstopping, id, hstep] at h
      cases h
      exact ⟨0, m, rfl, rfl, hstep⟩
    | ok event t =>
      rw [hstep] at hflags
      cases event with
      | none =>
        have hnext (j : Nat) : loop pool (j + 1) m = loop pool j t := by
          simp only [loop, cycle, hstopping, id, hstep]
          rfl
        have hunderway : Underway t := ⟨hflags.1.trans hrunning, hflags.2.trans hstopping⟩
        obtain ⟨k, t', hloop, hran, hfault⟩ := ih hunderway ((hnext n).symm.trans h)
        refine ⟨k + 1, t', (hnext k).trans hloop, ?_, hfault⟩
        rw [hran, ran_step hstep, Nat.add_assoc, Nat.add_comm 1 k]
      | some event =>
        simp only [loop, cycle, hstopping, id, hstep] at h
        cases h

/-- A run that faults has completed some instructions and then taken a step that faults. Every
register but the program counter holds what the completed instructions left in it; the counter
stands where the fault left it, and the error names the address of the faulting word. -/
theorem fault_precise {pool : Option Pool} {budget : Int} {m m' : Machine} {e : RunError}
    (h : m.run pool budget = (m', ⟨.fault, some e⟩)) (he : e ≠ .reentrant) :
    ∃ n, m.run pool m'.ran = (n, ⟨.budget, none⟩) ∧ n.ran = m'.ran ∧
      n.step pool = .error e m' ∧ e.pc? = some n.pc ∧ Faulted pool n e m'.pc ∧
      ∀ r, r ≠ Reg.pc → m'.regs.get r = n.regs.get r := by
  cases hidle : m.running with
  | true =>
    simp only [Machine.run, hidle] at h
    cases h
    exact absurd rfl he
  | false =>
    have hrun : m.run pool budget = m.run pool budget.toNat := by
      simp only [Machine.run, Int.toNat_natCast]
    rw [hrun, run_of_idle pool budget.toNat m hidle] at h
    generalize hloop : loop pool budget.toNat (begun m) = result at h
    obtain ⟨t', outcome⟩ := result
    cases h
    obtain ⟨k, t, hspent, hran, hstep⟩ := loop_eq_fault ⟨rfl, rfl⟩ hloop
    -- The flag that says whether the processor runs is not seen by the step.
    have hfault : (ended t).step pool = .error e (ended t') := by
      have hcommutes := commutes_step (change_withRunning false) pool t
      rw [hstep] at hcommutes
      exact hcommutes
    obtain ⟨hfaulted, hpc, hregs, hcount⟩ := step_eq_error hfault
    have hk : (ended t').ran = k := by
      rw [hcount]
      exact hran.trans (Nat.zero_add k)
    refine ⟨ended t, ?_, hcount.symm, hfault, hpc, hfaulted, hregs⟩
    rw [hk, run_of_idle pool k m hidle, hspent]

/-- Counts, and then divides by an info word of zero. -/
def dividingCode : List UInt32 :=
  [Word.ofRegsByte Opcode.addq.code Reg.ra Reg.ra 1,
    Word.ofRegs Opcode.divi.code Reg.ra Reg.ra Reg.zero, Info.ofLiteral 0]

def dividing : Machine where
  mem := ⟨0, 12, #[(dividingCode.flatMap Memory.wordBytes).toArray], by decide⟩

/-- The division faults past its info word, and the count of the instruction before it stays. -/
theorem fault_precise_dividing :
    ∃ m' n, dividing.run none 5 =
        (m', ⟨.fault, some (.instruction 4 dividingCode[1] .divideByZero)⟩) ∧
      m'.ran = 1 ∧ m'.pc = 12 ∧ dividing.run none 1 = (n, ⟨.budget, none⟩) ∧
      ∀ r, r ≠ Reg.pc → m'.regs.get r = n.regs.get r := by
  have hrun : (dividing.run none 5).2 =
      ⟨.fault, some (.instruction 4 dividingCode[1] .divideByZero)⟩ := by decide +kernel
  have hran : (dividing.run none 5).1.ran = 1 := by decide +kernel
  have hpc : (dividing.run none 5).1.pc = 12 := by decide +kernel
  have hfault : dividing.run none 5 = ((dividing.run none 5).1,
      ⟨.fault, some (.instruction 4 dividingCode[1] .divideByZero)⟩) := Prod.ext rfl hrun
  obtain ⟨n, hspent, -, -, -, -, hregs⟩ := fault_precise hfault nofun
  rw [hran] at hspent
  exact ⟨_, n, hfault, hran, hpc, hspent, hregs⟩

end TaskMachine.Faults
