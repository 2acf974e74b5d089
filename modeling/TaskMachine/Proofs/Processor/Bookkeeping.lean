import TaskMachine.Proofs.Processor.Parts

/-!
# Instructions do not see the bookkeeping of a run

Beside its registers, memory and log a machine carries the count of what its run
has completed, whether it is running, and whether a stop was asked for. An
instruction neither reads nor writes these three, except that the one completed
adds one to the count. So `Machine.step` commutes with every change of them that
respects the count, and a flag stays what it was through any step. The log is
written but never read, so a step also commutes with turning it off.
-/

namespace TaskMachine.Bookkeeping

open Stateful Exec

/-- A change of a machine that leaves registers and memory alone, and does not depend on them
either. -/
structure Unseen (f : Machine → Machine) : Prop where
  regs : ∀ m, (f m).regs = m.regs
  mem : ∀ m, (f m).mem = m.mem
  update : ∀ (m : Machine) regs mem,
    f { m with regs := regs, mem := mem } = { f m with regs := regs, mem := mem }

/-- A change of a machine that leaves registers, memory and log alone, and does not depend on
them either. -/
structure Change (f : Machine → Machine) : Prop where
  regs : ∀ m, (f m).regs = m.regs
  mem : ∀ m, (f m).mem = m.mem
  log : ∀ m, (f m).log = m.log
  update : ∀ (m : Machine) regs mem log,
    f { m with regs := regs, mem := mem, log := log } =
      { f m with regs := regs, mem := mem, log := log }
  count : ∀ m, f { m with ran := m.ran + 1 } = { f m with ran := (f m).ran + 1 }

/-- Counting from a later number on. -/
def countedFrom (k : Nat) (m : Machine) : Machine := { m with ran := m.ran + k }

def withRunning (b : Bool) (m : Machine) : Machine := { m with running := b }

def withStopping (b : Bool) (m : Machine) : Machine := { m with stopping := b }

def withRan (n : Nat) (m : Machine) : Machine := { m with ran := n }

/-- The machine with an empty log that keeps no lines. -/
def silenced (m : Machine) : Machine := { m with log := {} }

theorem change_countedFrom (k : Nat) : Change (countedFrom k) where
  regs _ := rfl
  mem _ := rfl
  log _ := rfl
  update _ _ _ _ := rfl
  count m := by
    unfold countedFrom
    rw [Nat.add_right_comm]

theorem change_withRunning (b : Bool) : Change (withRunning b) :=
  ⟨fun _ => rfl, fun _ => rfl, fun _ => rfl, fun _ _ _ _ => rfl, fun _ => rfl⟩

theorem change_withStopping (b : Bool) : Change (withStopping b) :=
  ⟨fun _ => rfl, fun _ => rfl, fun _ => rfl, fun _ _ _ _ => rfl, fun _ => rfl⟩

theorem unseen_withRan (n : Nat) : Unseen (withRan n) :=
  ⟨fun _ => rfl, fun _ => rfl, fun _ _ _ => rfl⟩

theorem unseen_silenced : Unseen silenced := ⟨fun _ => rfl, fun _ => rfl, fun _ _ _ => rfl⟩

theorem Change.unseen {f : Machine → Machine} (hf : Change f) : Unseen f where
  regs := hf.regs
  mem := hf.mem
  update m regs mem := by
    have h := hf.update m regs mem m.log
    rw [← hf.log m] at h
    rw [← h, hf.log m]

section

variable {f : Machine → Machine} (hf : Unseen f)

include hf

theorem Unseen.withRegs (m : Machine) (regs : Registers) :
    f { m with regs := regs } = { f m with regs := regs } := by
  have h := hf.update m regs m.mem
  rw [← hf.mem m] at h
  rw [← h, hf.mem m]

theorem Unseen.withMem (m : Machine) (mem : Memory) :
    f { m with mem := mem } = { f m with mem := mem } := by
  have h := hf.update m m.regs mem
  rw [← hf.regs m] at h
  rw [← h, hf.regs m]

/-! ## The parts of an instruction -/

theorem commutes_reg (r : Reg) : Commutes f (reg r) := by
  intro m
  change EStateM.Result.ok ((f m).regs.get r) (f m) = .ok (m.regs.get r) (f m)
  rw [hf.regs]

theorem commutes_setReg (r : Reg) (v : UInt32) : Commutes f (setReg r v) := by
  intro m
  change EStateM.Result.ok () { f m with regs := (f m).regs.put r v } =
    .ok () (f { m with regs := m.regs.put r v })
  rw [hf.withRegs m (m.regs.put r v), hf.regs m]

theorem commutes_modifyMem (g : Memory → Memory) :
    Commutes f (modify fun m => { m with mem := g m.mem } : Exec PUnit) := by
  intro m
  change EStateM.Result.ok PUnit.unit { f m with mem := g (f m).mem } =
    .ok PUnit.unit (f { m with mem := g m.mem })
  rw [hf.withMem m (g m.mem), hf.mem m]

theorem commutes_readMem {α : Type} (g : Memory → α) :
    Commutes f (do return g (← get).mem : Exec α) := by
  intro m
  change EStateM.Result.ok (g (f m).mem) (f m) = .ok (g m.mem) (f m)
  rw [hf.mem]

theorem commutes_requireAccess (addr size : UInt32) : Commutes f (requireAccess addr size) := by
  have h (m : Machine) : requireAccess addr size m =
      if m.mem.accessible addr size then .ok () m else .error (.address ⟨addr, size⟩) m := by
    change (if m.mem.accessible addr size then pure () else throw _ : Exec Unit) m = _
    split <;> rfl
  intro m
  rw [h, h, hf.mem]
  split <;> rfl

theorem closed_commutes : Parts.Closed fun {_} x => Commutes f x where
  pure := .pure
  throw := .throw
  bind := .bind
  reg := commutes_reg hf
  setReg := commutes_setReg hf
  requireAccess := commutes_requireAccess hf
  readMem := commutes_readMem hf
  putBytes addr bytes := commutes_modifyMem hf (·.putBytes addr bytes)
  copyBytes dst src count := commutes_modifyMem hf (·.copyBytes dst src count)
  fillBytes dst value count := commutes_modifyMem hf (·.fillBytes dst value count)

/-! ## Whole instructions -/

theorem commutes_perform (pool : Option Pool) (w : UInt32) (action : Action) :
    Commutes f (action.perform pool w) :=
  (closed_commutes hf).perform pool w action

/-- A step before such a change is a step after it, if entering an instruction and counting it
are. -/
theorem commutes_step_of_unseen
    (henter : ∀ m pc word action, Machine.enter (f m) pc word action = f (m.enter pc word action))
    (hcount : ∀ m, f { m with ran := m.ran + 1 } = { f m with ran := (f m).ran + 1 })
    (pool : Option Pool) : Commutes f (Machine.step pool) := by
  intro m
  have hpc : (f m).pc = m.pc := congrArg (Vector.get · Reg.pc) (hf.regs m)
  simp only [Machine.step]
  rw [hpc, hf.mem m]
  split
  · split
    · rfl
    · rename_i op _
      rw [henter, commutes_perform hf pool _ op.action]
      cases op.action.perform pool (m.mem.get32 m.pc) (m.enter m.pc (m.mem.get32 m.pc) op.action) with
      | ok u n =>
        change EStateM.Result.ok _ { f n with ran := (f n).ran + 1 } = .ok _ (f _)
        rw [hcount n]
      | error e n => rfl
  · rfl

end

theorem enter_change {f : Machine → Machine} (hf : Change f) (m : Machine) (pc word : UInt32)
    (action : Action) : (f m).enter pc word action = f (m.enter pc word action) := by
  unfold Machine.enter
  rw [hf.regs m, hf.log m]
  dsimp only
  split
  · have h := hf.update m (m.regs.put Reg.pc (pc + 4)) m.mem
    rw [h, hf.mem m]
  · have h := hf.update m (m.regs.put Reg.pc (pc + 4)) m.mem
    rw [h, hf.mem m]

/-- A step before a change of the bookkeeping is a step after it. -/
theorem commutes_step {f : Machine → Machine} (hf : Change f) (pool : Option Pool) :
    Commutes f (Machine.step pool) :=
  commutes_step_of_unseen hf.unseen (enter_change hf) hf.count pool

/-- A log that is off takes no lines. -/
theorem enter_silenced (m : Machine) (pc word : UInt32) (action : Action) :
    (silenced m).enter pc word action = silenced (m.enter pc word action) := by
  have hregs : (silenced m).regs = m.regs := rfl
  unfold Machine.enter
  rw [hregs]
  dsimp only
  split
  · rfl
  · rfl

theorem commutes_step_silenced (pool : Option Pool) : Commutes silenced (Machine.step pool) :=
  commutes_step_of_unseen unseen_silenced enter_silenced (fun _ => rfl) pool

theorem ran_enter (m : Machine) (pc word : UInt32) (action : Action) :
    (m.enter pc word action).ran = m.ran := by
  unfold Machine.enter
  dsimp only
  split
  · rfl
  · rfl

/-- Carrying out an action does not count: only its completion does. -/
theorem ran_perform (pool : Option Pool) (w : UInt32) (action : Action) (m : Machine) :
    (endState (action.perform pool w m)).ran = m.ran := by
  have h := (commutes_perform (unseen_withRan m.ran) pool w action).endState_fixed (s := m) rfl
  exact (congrArg (·.ran) h).symm

/-- A step that succeeds counts one instruction. -/
theorem ran_step {pool : Option Pool} {m n : Machine} {event : Option Event}
    (h : Machine.step pool m = .ok event n) : n.ran = m.ran + 1 := by
  simp only [Machine.step] at h
  split at h
  · split at h
    · cases h
    · rename_i op _
      split at h
      · rename_i u t hperform
        have hran := ran_perform pool (m.mem.get32 m.pc) op.action
          (m.enter m.pc (m.mem.get32 m.pc) op.action)
        rw [hperform, ran_enter] at hran
        cases h
        exact congrArg (· + 1) hran
      · cases h
  · cases h

/-- No step changes the flags of its machine. -/
theorem flags_step (pool : Option Pool) (m : Machine) :
    (endState (Machine.step pool m)).running = m.running ∧
    (endState (Machine.step pool m)).stopping = m.stopping := by
  have hr := (commutes_step (change_withRunning m.running) pool).endState_fixed (s := m) rfl
  have hs := (commutes_step (change_withStopping m.stopping) pool).endState_fixed (s := m) rfl
  exact ⟨congrArg (·.running) hr.symm, congrArg (·.stopping) hs.symm⟩

end TaskMachine.Bookkeeping
