import TaskMachine.Proofs.Processor.Footprints

/-!
# Slices of independent processors

Two processors share one memory and take turns. What a slice reads and writes is
put together from its steps, up to the one that ends it. A slice comes out the
same on any memory of the same extent that agrees on what it reads, so it does not
notice another slice before it that wrote to none of that. If neither slice writes
what the other reads or writes, the order of the two does not matter.
-/

namespace TaskMachine.Independence

open Stateful Effects Slicing Footprints

/-! ## The footprint of a slice -/

/-- What the loop of a run reads and writes. -/
def inLoop (pool : Option Pool) : Nat → Machine → Footprint
  | 0, _ => {}
  | n + 1, m =>
    if m.stopping then {}
    else inStep pool m ++ onward (Machine.step pool m) fun event m' =>
      match event with
      | none => inLoop pool n m'
      | some _ => {}

/-- What a run reads and writes; a processor that is running already does nothing more. -/
def inRun (pool : Option Pool) (budget : Int) (m : Machine) : Footprint :=
  if m.running then {} else inLoop pool budget.toNat (begun m)

/-- The loops from two machines alike that agree on what is read go the same way. -/
theorem loop_local (pool : Option Pool) (k : Nat) {m n : Machine} (hmn : Alike m n)
    (hagree : AgreeOn (inLoop pool k m).reads m n) :
    (loop pool k n).2 = (loop pool k m).2 ∧
      Moved (inLoop pool k m) m n (loop pool k m).1 (loop pool k n).1 := by
  induction k generalizing m n with
  | zero => exact ⟨rfl, .refl hmn⟩
  | succ k ih =>
    have hflag : n.stopping = m.stopping := congrArg Cpu.stopping hmn.cpu
    cases hstopping : m.stopping with
    | true =>
      simp only [loop, cycle, inLoop, hflag, hstopping, if_true]
      exact ⟨trivial, .refl hmn⟩
    | false =>
      simp only [loop, cycle, inLoop, id, hflag, hstopping, Bool.false_eq_true, if_false]
        at hagree ⊢
      obtain ⟨-, hend⟩ := local_step pool m n hmn (AgreeOn.left hagree)
      generalize Machine.step pool m = left at hend hagree
      generalize Machine.step pool n = right at hend
      cases hend with
      | ok event hmoved =>
        cases event with
        | none =>
          obtain ⟨hout, hrest⟩ := ih hmoved.alike (hmoved.agreeOn (AgreeOn.right hagree))
          exact ⟨hout, hmoved.trans hrest⟩
        | some e => exact ⟨rfl, hmoved.trans (.refl hmoved.alike)⟩
      | error e hmoved => exact ⟨rfl, hmoved.trans (.refl hmoved.alike)⟩

theorem run_local (pool : Option Pool) (budget : Int) {m n : Machine} (hmn : Alike m n)
    (hagree : AgreeOn (inRun pool budget m).reads m n) :
    (n.run pool budget).2 = (m.run pool budget).2 ∧
      Moved (inRun pool budget m) m n (m.run pool budget).1 (n.run pool budget).1 := by
  have hflag : n.running = m.running := congrArg Cpu.running hmn.cpu
  cases hrunning : m.running with
  | true =>
    simp only [Machine.run, inRun, hflag, hrunning]
    exact ⟨rfl, .refl hmn⟩
  | false =>
    have hbegun : Alike (begun m) (begun n) := ⟨congrArg Cpu.started hmn.cpu, hmn.base, hmn.size⟩
    simp only [inRun, hrunning] at hagree ⊢
    obtain ⟨hout, hmoved⟩ := loop_local pool budget.toNat hbegun hagree
    simp only [Machine.run, hflag, hrunning]
    refine ⟨hout, ⟨?_, hmoved.alike.base, hmoved.alike.size⟩, hmoved.written, hmoved.keptLeft,
      hmoved.keptRight⟩
    exact congrArg Cpu.finished hmoved.alike.cpu

theorem sameExtent_run (pool : Option Pool) (budget : Int) (m : Machine) :
    SameExtent m (m.run pool budget).1 := by
  cases hrunning : m.running with
  | true =>
    simp only [Machine.run, hrunning]
    exact .refl m
  | false =>
    have hloop : SameExtent m (loop pool budget.toNat (begun m)).1 :=
      cycle_invariant (P := SameExtent m) (fun s hs => hs.trans (sameExtent_step pool s)) _ _
        ⟨rfl, rfl⟩
    simp only [Machine.run, hrunning]
    exact ⟨hloop.base, hloop.size⟩

/-! ## Slices in a row -/

/-- No position belongs to both. -/
def Disjoint (xs ys : List Span) : Prop := ∀ i, Covered xs i → ¬ Covered ys i

/-- Neither slice writes what the other one reads or writes. -/
structure Independent (f g : Footprint) : Prop where
  overReads : Disjoint f.writes g.reads
  overWrites : Disjoint f.writes g.writes
  backReads : Disjoint g.writes f.reads

/-- The same extent, and the same byte at every position. -/
structure SameMemory (m n : Memory) : Prop where
  base : n.base = m.base
  size : n.data.size = m.data.size
  bytes : ∀ i, n.byteAt i = m.byteAt i

/-- A processor at the memory and the log that another one left. -/
def turn (cpu : Cpu) (m : Machine) : Machine := { m with toCpu := cpu }

section

variable {poolA poolB : Option Pool} {a : Machine} {n k : Int} {b : Cpu}

/-- A slice does not notice another one before it that wrote nothing of what it reads. -/
theorem slice_unaffected
    (h : Disjoint (inRun poolA n a).writes (inRun poolB k (turn b a)).reads) :
    ((turn b (a.run poolA n).1).run poolB k).2 = ((turn b a).run poolB k).2 ∧
      Moved (inRun poolB k (turn b a)) (turn b a) (turn b (a.run poolA n).1)
        ((turn b a).run poolB k).1 ((turn b (a.run poolA n).1).run poolB k).1 := by
  obtain ⟨hbase, hsize⟩ := sameExtent_run poolA n a
  obtain ⟨-, hself⟩ := run_local poolA n (m := a) ⟨rfl, rfl, rfl⟩ fun _ _ => rfl
  refine run_local poolB k ⟨rfl, hbase, hsize⟩ fun i hi => ?_
  exact hself.keptLeft i fun hw => h i hw hi

end

/-- Two processors at one memory, each with its own slice. If neither slice writes what the other
one reads or writes, then both orders leave the same memory and the same processors, counts
included, and both slices end in the same events and errors. -/
theorem slices_commute (poolA poolB : Option Pool) (n k : Int) (a b : Cpu) (mem : Memory) (log : Log)
    (h : Independent (inRun poolA n ⟨a, mem, log⟩) (inRun poolB k ⟨b, mem, log⟩)) :
    let firstA := Machine.run poolA n ⟨a, mem, log⟩
    let thenB := Machine.run poolB k (turn b firstA.1)
    let firstB := Machine.run poolB k ⟨b, mem, log⟩
    let thenA := Machine.run poolA n (turn a firstB.1)
    SameMemory thenB.1.mem thenA.1.mem ∧
      thenA.1.toCpu = firstA.1.toCpu ∧ thenB.1.toCpu = firstB.1.toCpu ∧
      thenA.2 = firstA.2 ∧ thenB.2 = firstB.2 := by
  intro firstA thenB firstB thenA
  obtain ⟨houtB, hB⟩ := slice_unaffected (a := ⟨a, mem, log⟩) (b := b) h.overReads
  obtain ⟨houtA, hA⟩ := slice_unaffected (a := ⟨b, mem, log⟩) (b := a) h.backReads
  have extentA : SameExtent ⟨a, mem, log⟩ firstA.1 := sameExtent_run poolA n _
  have extentB : SameExtent ⟨b, mem, log⟩ firstB.1 := sameExtent_run poolB k _
  refine ⟨⟨?_, ?_, fun i => ?_⟩, hA.alike.cpu, hB.alike.cpu, houtA, houtB⟩
  · exact (hA.alike.base.trans extentA.base).trans (hB.alike.base.trans extentB.base).symm
  · exact (hA.alike.size.trans extentA.size).trans (hB.alike.size.trans extentB.size).symm
  -- A byte written by one slice is kept by the other, and all others are kept by both.
  by_cases hwA : Covered (inRun poolA n ⟨a, mem, log⟩).writes i
  · have hwB := h.overWrites i hwA
    exact (hA.written i hwA).trans (hB.keptRight i hwB).symm
  · by_cases hwB : Covered (inRun poolB k ⟨b, mem, log⟩).writes i
    · exact (hA.keptRight i hwA).trans (hB.written i hwB).symm
    · have hleft : thenB.1.mem.byteAt i = mem.byteAt i :=
        (hB.keptRight i hwB).trans (hA.keptLeft i hwA)
      have hright : thenA.1.mem.byteAt i = mem.byteAt i :=
        (hA.keptRight i hwA).trans (hB.keptLeft i hwB)
      rw [hleft, hright]

/-- Spans one after the other have no position in common. -/
def apart (xs ys : List Span) : Bool :=
  xs.all fun x => ys.all fun y => x.start + x.count ≤ y.start || y.start + y.count ≤ x.start

theorem disjoint_of_apart {xs ys : List Span} (h : apart xs ys = true) : Disjoint xs ys := by
  rintro i ⟨x, hx, hxi⟩ ⟨y, hy, hyi⟩
  simp only [apart, List.all_eq_true, Bool.or_eq_true, decide_eq_true_eq] at h
  have hsides := h x hx y hy
  omega

/-- Two instructions, each of which pushes the return address. -/
def pushing : Memory :=
  let push := Word.ofRegsByte Opcode.store.code Reg.ra Reg.ra 0
  ⟨0, 16, #[([push, push].flatMap Memory.wordBytes).toArray], by decide⟩

def pusher (pc sp ra : UInt32) : Cpu := (Cpu.reset {} pc sp).setReg Reg.ra ra

/-- The processors push to places of their own, so either may go first. -/
theorem slices_commute_pushers :
    let firstA := Machine.run none 1 ⟨pusher 0 12 7, pushing, {}⟩
    let thenB := Machine.run none 1 (turn (pusher 4 16 9) firstA.1)
    let firstB := Machine.run none 1 ⟨pusher 4 16 9, pushing, {}⟩
    let thenA := Machine.run none 1 (turn (pusher 0 12 7) firstB.1)
    inRun none 1 ⟨pusher 0 12 7, pushing, {}⟩ = ⟨[⟨0, 4⟩], [⟨8, 4⟩]⟩ ∧
      inRun none 1 ⟨pusher 4 16 9, pushing, {}⟩ = ⟨[⟨4, 4⟩], [⟨12, 4⟩]⟩ ∧
      SameMemory thenB.1.mem thenA.1.mem ∧
      thenA.1.toCpu = firstA.1.toCpu ∧ thenB.1.toCpu = firstB.1.toCpu ∧
      thenA.2 = firstA.2 ∧ thenB.2 = firstB.2 := by
  have hA : inRun none 1 ⟨pusher 0 12 7, pushing, {}⟩ = ⟨[⟨0, 4⟩], [⟨8, 4⟩]⟩ := by decide +kernel
  have hB : inRun none 1 ⟨pusher 4 16 9, pushing, {}⟩ = ⟨[⟨4, 4⟩], [⟨12, 4⟩]⟩ := by decide +kernel
  refine ⟨hA, hB, slices_commute none none 1 1 (pusher 0 12 7) (pusher 4 16 9) pushing {} ?_⟩
  rw [hA, hB]
  refine ⟨?_, ?_, ?_⟩
  · exact disjoint_of_apart (by decide)
  · exact disjoint_of_apart (by decide)
  · exact disjoint_of_apart (by decide)

end TaskMachine.Independence
