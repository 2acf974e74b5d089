import TaskMachine.Expr.Script
import TaskMachine.Proofs.Scheduler.StackWindows

/-!
# When there is room for another task

The window of a new task is computed with addresses, that is with numbers that
wrap around, and three comparisons are to catch the cases where they did. In a
memory that ends inside the address space they do: as long as all tasks have stacks
of one size the product of their number and that size has not wrapped around, since
every one of them has passed the comparisons. So a task is admitted exactly when
its stack and those before it fit between the program and the end of memory.
-/

namespace TaskMachine.Admission

open Ticks StackWindows Words

/-! ## Where the program ends -/

/-- Consecutive words that are all mapped end in memory, if that ends inside the address space. -/
theorem end_le_of_accessible {m : Memory} {addr : UInt32} {ws : List UInt32}
    (hroom : m.base.toNat + m.data.size < 2 ^ 32) (hne : ws ≠ [])
    (hacc : ∀ e ∈ addressed addr ws, m.accessible e.1 4 = true) :
    addr.toNat + 4 * ws.length ≤ m.base.toNat + m.data.size := by
  induction ws generalizing addr with
  | nil => exact absurd rfl hne
  | cons w rest ih =>
    obtain ⟨hlow, hhigh⟩ := accessible_iff.mp (hacc (addr, w) List.mem_cons_self)
    change m.offset addr + 4 ≤ m.data.size at hhigh
    unfold Memory.offset at hhigh
    dsimp only at hlow
    rw [List.length_cons]
    by_cases hrest : rest = []
    · subst hrest
      rw [List.length_nil]
      omega
    · have hnext : (addr + 4).toNat = addr.toNat + 4 := by
        rw [UInt32.toNat_add]
        exact Nat.mod_eq_of_lt (by change addr.toNat + 4 < 2 ^ 32; omega)
      have hend := ih hrest fun e he => hacc e (List.mem_cons_of_mem _ he)
      omega

/-- The memory is that of the layout, and the program ends inside the address space if that does. -/
structure Seated (l : Layout) (s : Scheduler) : Prop where
  base : s.mem.base = l.origin
  extent : s.mem.data.size = l.memorySize.toNat
  unwrapped : l.origin.toNat + l.memorySize.toNat < 2 ^ 32 →
    s.program.origin.toNat + s.program.size.toNat < 2 ^ 32

theorem seated_ofLayout (l : Layout) : Seated l (.ofLayout l) where
  base := rfl
  extent := Bytes.size_zeros _
  unwrapped _ := l.origin.toNat_lt

/-- A program that was assembled and could be loaded ends inside the address space. -/
theorem unwrapped_of_load [Interpreter] {s s' t : Scheduler} {text : String} {p : Program}
    (hroom : s.mem.base.toNat + s.mem.data.size < 2 ^ 32) (hassemble : (s'.assemble text).2 = .ok p)
    (hload : s.load p = (t, none)) : p.origin.toNat + p.size.toNat < 2 ^ 32 := by
  rw [Loading.assemble_eq_parse] at hassemble
  have hsize := Placement.size_of_parse hassemble
  by_cases hempty : p.image = []
  · rw [hempty] at hsize
    rw [hsize]
    exact p.origin.toNat_lt
  · have hcleared : s.mem.cleared.data.size = s.mem.data.size := Bytes.size_zeros _
    have hend := end_le_of_accessible (m := s.mem.cleared) (by rw [hcleared]; exact hroom) hempty
      (Loading.load_eq_none hload).1
    rw [hcleared] at hend
    change p.origin.toNat + 4 * p.image.length ≤ s.mem.base.toNat + s.mem.data.size at hend
    rw [hsize, UInt32.toNat_ofNat_of_lt' (by change _ < 2 ^ 32; omega)]
    omega

theorem Seated.perform [Interpreter] {l : Layout} {s : Scheduler} (h : Seated l s) {call : Call}
    (hp : ∀ p, call = .load p → ∃ s' text, (Scheduler.assemble s' text).2 = .ok p) :
    Seated l (call.perform s) := by
  obtain ⟨p, rfl⟩ | ⟨entry, rfl⟩ | ⟨stackSize, rfl⟩ | ⟨hlayout, -⟩ := perform_cases call s
  · obtain ⟨s', text, hassemble⟩ := hp p rfl
    obtain ⟨hbase, hextent, hprogram⟩ := load_cases s p
    refine ⟨hbase.trans h.base, hextent.trans h.extent, fun hroom => ?_⟩
    change (s.load p).1.program.origin.toNat + (s.load p).1.program.size.toNat < 2 ^ 32
    rcases hprogram with ⟨hnone, hprogram⟩ | hprogram
    · rw [hprogram]
      refine unwrapped_of_load (s := s) ?_ hassemble (Prod.ext rfl hnone)
      rw [h.base, h.extent]
      exact hroom
    · rw [hprogram]
      exact h.unwrapped hroom
  · obtain ⟨hmem, hprogram⟩ := spawn_keeps entry s
    exact ⟨by rw [hmem, h.base], by rw [hmem, h.extent], by rw [hprogram]; exact h.unwrapped⟩
  · exact ⟨h.base, h.extent, h.unwrapped⟩
  · exact ⟨hlayout.base.trans h.base, hlayout.size.trans h.extent,
      by rw [hlayout.program]; exact h.unwrapped⟩

/-! ## The checks -/

/-- Where the stacks in use have not wrapped around, the comparisons find out whether one more
fits. -/
theorem nextStack?_eq_some {s : Scheduler} {top : UInt32}
    (hused : s.tasks.size * s.stackSize.toNat ≤ s.mem.endAddr.toNat)
    (hlimit : s.program.origin.toNat + s.program.size.toNat < 2 ^ 32) :
    s.nextStack? = some top ↔
      top.toNat + s.tasks.size * s.stackSize.toNat = s.mem.endAddr.toNat ∧
      s.program.origin.toNat + s.program.size.toNat + (s.tasks.size + 1) * s.stackSize.toNat ≤
        s.mem.endAddr.toNat := by
  have hend := s.mem.endAddr.toNat_lt
  have hsize := s.stackSize.toNat_lt
  have hproduct : (UInt32.ofNat s.tasks.size * s.stackSize).toNat =
      s.tasks.size * s.stackSize.toNat := by
    rw [toNat_ofNat_mul]
    exact Nat.mod_eq_of_lt (by omega)
  have hsum : (s.program.origin + s.program.size).toNat =
      s.program.origin.toNat + s.program.size.toNat := by
    rw [UInt32.toNat_add]
    exact Nat.mod_eq_of_lt hlimit
  have htop : (s.mem.endAddr - UInt32.ofNat s.tasks.size * s.stackSize).toNat +
      s.tasks.size * s.stackSize.toNat = s.mem.endAddr.toNat := by
    rw [UInt32.toNat_sub_of_le _ _ (by rw [UInt32.le_iff_toNat_le, hproduct]; exact hused), hproduct]
    omega
  unfold Scheduler.nextStack?
  dsimp only
  generalize s.mem.endAddr - UInt32.ofNat s.tasks.size * s.stackSize = top' at htop
  rw [Nat.succ_mul]
  -- A stack larger than what is left below its top shows as a bottom above the top.
  have hchecks : (s.mem.endAddr < top' ∨ top' < top' - s.stackSize ∨
      top' - s.stackSize < s.program.origin + s.program.size) ↔
      s.mem.endAddr.toNat < s.program.origin.toNat + s.program.size.toNat +
        (s.tasks.size * s.stackSize.toNat + s.stackSize.toNat) := by
    rw [UInt32.lt_iff_toNat_lt, UInt32.lt_iff_toNat_lt, UInt32.lt_iff_toNat_lt, hsum,
      UInt32.toNat_sub]
    omega
  split
  · rename_i hfail
    have hfull := hchecks.mp hfail
    constructor
    · intro h
      cases h
    · rintro ⟨-, hfits⟩
      omega
  · rename_i hpass
    have hfits := hchecks.not.mp hpass
    rw [Option.some.injEq]
    constructor
    · rintro rfl
      exact ⟨htop, by omega⟩
    · rintro ⟨htop', -⟩
      exact UInt32.toNat_inj.mp (by omega)

/-- The registers of a task that has not run yet. -/
theorem fresh_registers (id : Nat) (entry top : UInt32) :
    (Task.fresh id entry top).cpu.pc = entry ∧
      (Task.fresh id entry top).cpu.regs.get Reg.sp = top ∧
      ∀ r, r ≠ Reg.pc → r ≠ Reg.sp → (Task.fresh id entry top).cpu.regs.get r = 0 := by
  have hne : Reg.sp ≠ Reg.pc := by decide
  change (((Registers.zeroed.put Reg.pc entry).put Reg.sp top).get Reg.pc = entry) ∧
    (((Registers.zeroed.put Reg.pc entry).put Reg.sp top).get Reg.sp = top) ∧
    ∀ r, r ≠ Reg.pc → r ≠ Reg.sp →
      ((Registers.zeroed.put Reg.pc entry).put Reg.sp top).get r = 0
  refine ⟨?_, ?_, fun r hpc hsp => ?_⟩
  · rw [Effects.get_put_of_ne _ _ hne, Effects.get_put_self]
  · rw [Effects.get_put_self]
  · rw [Effects.get_put_of_ne _ _ hsp.symm, Effects.get_put_of_ne _ _ hpc.symm]
    exact Vector.getElem_replicate r.isLt

/-- A refused spawn reports that there is no room, and nothing is spawned. -/
theorem spawn_eq_error {s : Scheduler} {entry : UInt32} {e : ScheduleError}
    (h : s.spawn entry = .error e) :
    e = .stackSpace ∧ ∀ count, Scheduler.spawnMany entry (count + 1) s = (s, some e) := by
  refine ⟨?_, fun count => by simp only [Scheduler.spawnMany, h]⟩
  unfold Scheduler.spawn at h
  split at h
  · exact (Except.error.inj h).symm
  · cases h

/-- After any history in a memory that ends inside the address space, with all tasks since the last
load spawned under the stack size of now, a task is admitted exactly when its stack and those before
it fit between the program and the end of memory. Its stack begins where the last one ends, and its
registers are zero but for the entry and that stack. A task that does not fit leaves no trace. -/
theorem spawn_admits_iff_room [Interpreter] (l : Layout) (history : List Call)
    (hprograms : ∀ p, Call.load p ∈ history → ∃ s' text, (Scheduler.assemble s' text).2 = .ok p)
    (s : Scheduler) (sizes : List UInt32)
    (hafter : after reserve history (.ofLayout l) [] = (s, sizes))
    (hsizes : ∀ size ∈ sizes, size = s.stackSize)
    (hroom : s.mem.base.toNat + s.mem.data.size < 2 ^ 32) (entry : UInt32) :
    ((∃ t, s.spawn entry = .ok t) ↔
      ((s.tasks.size + 1) * s.stackSize.toNat : Int) ≤
        s.mem.endAddr.toNat - (s.program.origin.toNat + s.program.size.toNat)) ∧
    (∀ t, s.spawn entry = .ok t → ∃ task log,
      t = { s with tasks := s.tasks.push task, log } ∧
      task.id = s.tasks.size ∧ task.entry = entry ∧
      (task.stack.toNat : Int) = s.mem.endAddr.toNat - s.tasks.size * s.stackSize.toNat ∧
      task.cpu.pc = entry ∧ task.cpu.regs.get Reg.sp = task.stack ∧
      ∀ r, r ≠ Reg.pc → r ≠ Reg.sp → task.cpu.regs.get r = 0) ∧
    ∀ e, s.spawn entry = .error e →
      e = .stackSpace ∧ ∀ count, Scheduler.spawnMany entry (count + 1) s = (s, some e) := by
  have hinv : Seated l (after reserve history (.ofLayout l) []).1 ∧
      AllCarved (after reserve history (.ofLayout l) []).1
        (after reserve history (.ofLayout l) []).2 := by
    refine after_invariant (P := fun s sizes => Seated l s ∧ AllCarved s sizes)
      (fun call hcall s sizes hs => ?_) ⟨seated_ofLayout l, AllCarved.of_no_tasks rfl⟩
    exact ⟨hs.1.perform fun p hp => hprograms p (hp ▸ hcall), hs.2.perform call⟩
  rw [hafter] at hinv
  obtain ⟨hseated, hcarved⟩ := hinv
  have hlimit : s.program.origin.toNat + s.program.size.toNat < 2 ^ 32 := by
    refine hseated.unwrapped ?_
    rw [← hseated.base, ← hseated.extent]
    exact hroom
  have hused : s.tasks.size * s.stackSize.toNat ≤ s.mem.endAddr.toNat := by
    refine hcarved.depth_of_sameSize fun k hk => ?_
    rw [← hcarved.count] at hk
    rw [List.getElem?_eq_getElem hk, hsizes _ (List.getElem_mem hk)]
  have hcast : ((s.tasks.size + 1) * s.stackSize.toNat : Int) =
      ((s.tasks.size + 1) * s.stackSize.toNat : Nat) := by push_cast; rfl
  rw [hcast]
  refine ⟨⟨?_, fun hfits => ?_⟩, fun t hspawn => ?_, fun e => spawn_eq_error⟩
  · rintro ⟨t, hspawn⟩
    obtain ⟨top, -, hnext, -⟩ := spawn_eq_ok hspawn
    have hfits := ((nextStack?_eq_some hused hlimit).mp hnext).2
    omega
  · have htop : (UInt32.ofNat (s.mem.endAddr.toNat - s.tasks.size * s.stackSize.toNat)).toNat =
        s.mem.endAddr.toNat - s.tasks.size * s.stackSize.toNat := by
      have hend := s.mem.endAddr.toNat_lt
      exact UInt32.toNat_ofNat_of_lt' (by change _ < 2 ^ 32; omega)
    have hnext := (nextStack?_eq_some hused hlimit).mpr ⟨by rw [htop]; omega, by omega⟩
    unfold Scheduler.spawn
    rw [hnext]
    exact ⟨_, rfl⟩
  · obtain ⟨top, log, hnext, rfl⟩ := spawn_eq_ok hspawn
    have htop := ((nextStack?_eq_some hused hlimit).mp hnext).1
    obtain ⟨hpc, hsp, hzero⟩ := fresh_registers s.tasks.size entry top
    refine ⟨.fresh s.tasks.size entry top, log, rfl, rfl, rfl, ?_, hpc, hsp, hzero⟩
    change (top.toNat : Int) = _
    omega

/-- So many tasks spawned one after the other. -/
def spawning (count : Nat) : List Call := .load ending :: List.replicate count (.spawn 0x1000)

/-- A page has room for the stacks of three tasks above a program, and none for a fourth. -/
theorem spawn_admits_iff_room_onePage :
    let crowd (count : Nat) := after reserve (spawning count) (.ofLayout onePage) []
    (∃ t, (crowd 2).1.spawn 0x1000 = .ok t) ∧ ¬ ∃ t, (crowd 3).1.spawn 0x1000 = .ok t := by
  intro crowd
  have hprograms (count : Nat) (p : Program) (hp : Call.load p ∈ spawning count) :
      ∃ s' text, (Scheduler.assemble s' text).2 = .ok p := by
    simp only [spawning, List.mem_cons, Call.load.injEq, List.mem_replicate, reduceCtorEq,
      and_false, or_false] at hp
    obtain ⟨s', text, -, hassemble⟩ := assembled_ending
    exact ⟨s', text, hp ▸ hassemble⟩
  have hsizes {count : Nat} (h : (crowd count).2.all (· = (crowd count).1.stackSize) = true) :
      ∀ size ∈ (crowd count).2, size = (crowd count).1.stackSize :=
    fun size hsize => of_decide_eq_true (List.all_eq_true.mp h size hsize)
  have htwo : (crowd 2).2.all (· = (crowd 2).1.stackSize) = true := by decide +kernel
  have hthree : (crowd 3).2.all (· = (crowd 3).1.stackSize) = true := by decide +kernel
  obtain ⟨hadmitted, -⟩ := spawn_admits_iff_room onePage (spawning 2) (hprograms 2) (crowd 2).1
    (crowd 2).2 Prod.mk.eta.symm (hsizes htwo) (by decide +kernel) 0x1000
  obtain ⟨hrefused, -⟩ := spawn_admits_iff_room onePage (spawning 3) (hprograms 3) (crowd 3).1
    (crowd 3).2 Prod.mk.eta.symm (hsizes hthree) (by decide +kernel) 0x1000
  exact ⟨hadmitted.mpr (by decide +kernel), mt hrefused.mp (by decide +kernel)⟩

end TaskMachine.Admission
