import TaskMachine.Proofs.Processor.Slicing
import TaskMachine.Scheduler.Tick

/-!
# The time slice of a single task

A scheduler with one task runs it in slices, and a sleep ends a slice early. For
that task alone none of this matters: whichever way its time is sliced, it
executes the same instructions, so it is killed or faults at the same one, with
the same memory, registers and count. `Finishes` says where a task ends up
without speaking of slices; a run of ticks that ends does so exactly there.
-/

namespace TaskMachine.TimeSlices

open Stateful Bookkeeping Slicing

section

variable {pool : Option Pool} {m m' n n' : Machine} {o o' : Outcome} {j k : Nat}

/-! ## A task without slices -/

/-- An instruction after which the task goes on, at once or after a sleep. -/
def Pass (pool : Option Pool) (m n : Machine) : Prop :=
  Machine.step pool m = .ok none n ∨ Machine.step pool m = .ok (some .sleep) n

/-- An instruction after which the task does not go on. -/
def Halt (pool : Option Pool) (m n : Machine) (o : Outcome) : Prop :=
  (Machine.step pool m = .ok (some .kill) n ∧ o = ⟨.kill, none⟩) ∨
    ∃ e, Machine.step pool m = .error e n ∧ o = ⟨.fault, some e⟩

theorem Pass.unique (h : Pass pool m n) (h' : Pass pool m n') : n = n' := by
  rcases h with h | h <;> rcases h' with h' | h' <;> rw [h] at h' <;> cases h' <;> rfl

theorem Pass.not_halt (h : Pass pool m n) : ¬ Halt pool m n' o := by
  rintro (⟨h', -⟩ | ⟨e, h', -⟩)
  · rcases h with h | h <;> rw [h] at h' <;> cases h'
  · rcases h with h | h <;> rw [h] at h' <;> cases h'

theorem Halt.unique (h : Halt pool m n o) (h' : Halt pool m n' o') : n = n' ∧ o = o' := by
  rcases h with ⟨h, rfl⟩ | ⟨e, h, rfl⟩
  · rcases h' with ⟨h', rfl⟩ | ⟨e', h', rfl⟩
    · rw [h] at h'
      cases h'
      exact ⟨rfl, rfl⟩
    · rw [h] at h'
      cases h'
  · rcases h' with ⟨h', rfl⟩ | ⟨e', h', rfl⟩
    · rw [h] at h'
      cases h'
    · rw [h] at h'
      cases h'
      exact ⟨rfl, rfl⟩

/-- So many instructions after which the task goes on. -/
inductive Passes (pool : Option Pool) : Nat → Machine → Machine → Prop where
  | refl (m : Machine) : Passes pool 0 m m
  | step {k : Nat} {m n m' : Machine} (first : Pass pool m n) (rest : Passes pool k n m') :
    Passes pool (k + 1) m m'

/-- So many instructions after which the task goes on, and then one after which it does not. -/
inductive Finishes (pool : Option Pool) : Nat → Machine → Machine → Outcome → Prop where
  | halt {m n : Machine} {o : Outcome} (last : Halt pool m n o) : Finishes pool 0 m n o
  | step {k : Nat} {m n m' : Machine} {o : Outcome} (first : Pass pool m n)
    (rest : Finishes pool k n m' o) : Finishes pool (k + 1) m m' o

theorem Passes.finishes (h : Passes pool j m n) (hn : Finishes pool k n m' o) :
    Finishes pool (k + j) m m' o := by
  induction h with
  | refl m => exact hn
  | step first rest ih => exact .step first (ih hn)

/-- What is still to come after a part of the way. -/
theorem Passes.rest (h : Passes pool j m n) (hm : Finishes pool k m m' o) :
    ∃ i, i + j = k ∧ Finishes pool i n m' o := by
  induction h generalizing k with
  | refl m => exact ⟨k, rfl, hm⟩
  | step first rest ih =>
    cases hm with
    | halt last => exact absurd last first.not_halt
    | step first' rest' =>
      obtain rfl := first.unique first'
      obtain ⟨i, rfl, hi⟩ := ih rest'
      exact ⟨i, rfl, hi⟩

theorem Finishes.unique (h : Finishes pool j m n o) (h' : Finishes pool k m n' o') :
    n = n' ∧ o = o' := by
  induction h generalizing k with
  | halt last =>
    cases h' with
    | halt last' => exact last.unique last'
    | step first => exact absurd last first.not_halt
  | step first rest ih =>
    cases h' with
    | halt last' => exact absurd last' first.not_halt
    | step first' rest' =>
      obtain rfl := first.unique first'
      exact ih rest'

theorem Finishes.outcome (h : Finishes pool k m n o) :
    o = ⟨.kill, none⟩ ∨ ∃ e, o = ⟨.fault, some e⟩ := by
  induction h with
  | halt last =>
    rcases last with ⟨-, rfl⟩ | ⟨e, -, rfl⟩
    · exact .inl rfl
    · exact .inr ⟨e, rfl⟩
  | step first rest ih => exact ih

/-! ## A slice -/

theorem Pass.stopping (h : Pass pool m n) : n.stopping = m.stopping := by
  have hflag := (flags_step pool m).2
  rcases h with h | h
  · rw [h] at hflag
    exact hflag
  · rw [h] at hflag
    exact hflag

/-- A slice that nobody stops comes to the end of the task, or it comes a part of the way and
leaves the rest to the next slice. -/
theorem loop_cases (pool : Option Pool) (size : Nat) (m : Machine) (hm : m.stopping = false) :
    (∃ k, Finishes pool k m (loop pool size m).1 (loop pool size m).2) ∨
    ((loop pool size m).2 = ⟨.budget, none⟩ ∨ (loop pool size m).2 = ⟨.sleep, none⟩) ∧
      ∃ j, (0 < size → 0 < j) ∧ Passes pool j m (loop pool size m).1 := by
  induction size generalizing m with
  | zero => exact .inr ⟨.inl rfl, 0, id, .refl m⟩
  | succ size ih =>
    simp only [loop, cycle, hm, Bool.false_eq_true, if_false, id]
    cases hs : Machine.step pool m with
    | ok event n =>
      cases event with
      | none =>
        have hpass : Pass pool m n := .inl hs
        rcases ih n (hpass.stopping.trans hm) with ⟨k, hk⟩ | ⟨ho, j, -, hj⟩
        · exact .inl ⟨k + 1, .step hpass hk⟩
        · exact .inr ⟨ho, j + 1, fun _ => Nat.succ_pos j, .step hpass hj⟩
      | some e =>
        rcases event_of_step hs with rfl | rfl
        · exact .inr ⟨.inr rfl, 1, fun _ => Nat.one_pos, .step (.inr hs) (.refl n)⟩
        · exact .inl ⟨0, .halt (.inl ⟨hs, rfl⟩)⟩
    | error e n => exact .inl ⟨0, .halt (.inr ⟨e, hs, rfl⟩)⟩

end

/-! ## A tick -/

/-- The only task of a scheduler, which nobody watches and which is not running. -/
structure Solo (s : Scheduler) (task : Task) : Prop where
  tasks : s.tasks = #[task]
  unwatched : task.watch = none
  idle : task.cpu.running = false

section

variable {s : Scheduler} {task : Task}

theorem cpuOf_solo (h : Solo s task) : s.cpuOf 0 = task.cpu := by
  simp [Scheduler.cpuOf, h.tasks]

/-- The machine of the task in the middle of one long run, with all its instructions counted. -/
def work (s : Scheduler) (task : Task) : Machine where
  regs := task.cpu.regs
  ran := task.ran
  running := true
  mem := s.mem

theorem work_eq (h : Solo s task) :
    work s task = countedFrom task.ran (silenced (begun (s.machine 0))) := by
  simp only [work, countedFrom, silenced, begun, Scheduler.machine, Cpu.started, cpuOf_solo h,
    Nat.zero_add]

/-- The scheduler after a slice of its task that left the machine `m`. -/
def afterSlice (s : Scheduler) (m : Machine) (event : Event) : Scheduler :=
  ((s.detached 0).withMachine 0 (ended m)).account 0 event

/-- The task after that slice. -/
def sliced (task : Task) (m : Machine) : Task :=
  { task with cpu := (ended m).toCpu, ran := task.ran + m.ran }

theorem solo_afterSlice (h : Solo s task) (m : Machine) (event : Event) :
    Solo (afterSlice s m event) (sliced task m) where
  tasks := by
    simp [afterSlice, Scheduler.account, Scheduler.note, Scheduler.withMachine,
      Scheduler.detached, Scheduler.modifyCpu, Scheduler.modifyTask, Scheduler.cpuOf, h.tasks]
    rfl
  unwatched := h.unwatched
  idle := rfl

theorem solo_retire (h : Solo s task) : Solo (s.retire 0) { task with done := true } where
  tasks := by simp [Scheduler.retire, Scheduler.modifyTask, h.tasks]
  unwatched := h.unwatched
  idle := h.idle

theorem work_retire (s : Scheduler) (task : Task) :
    work (s.retire 0) { task with done := true } = work s task := rfl

/-- A slice of the task is a part of its one long run. -/
theorem work_afterSlice (h : Solo s task) (pool : Option Pool) (size : Nat) (event : Event) :
    loop pool size (work s task) =
      let r := loop pool size (begun (s.machine 0))
      (work (afterSlice s r.1 event) (sliced task r.1), r.2) := by
  -- The slice keeps its flags, so that only its count differs from that of the long run.
  have hunder := underway_loop pool size (begun (s.machine 0)) ⟨rfl, rfl⟩
  rw [work_eq h, loop_countedFrom, loop_silenced]
  generalize loop pool size (begun (s.machine 0)) = r at hunder
  obtain ⟨⟨⟨regs, ran, running, stopping⟩, mem, log⟩, o⟩ := r
  obtain ⟨hr, hs⟩ := hunder
  dsimp only at hr hs
  subst hr hs
  simp only [countedFrom, silenced, Nat.add_comm ran]
  rfl

theorem slice_pos (s : Scheduler) : 0 < s.slice := by
  unfold Scheduler.slice Scheduler.usualSlice
  split <;> omega

/-- The error with which a scheduler gives up when its task ends on the machine `m`. -/
def failure (program : Program) (m : Machine) (o : Outcome) : Option ScheduleError :=
  o.error.map fun cause =>
    .runtime 0 (cause.pc?.getD m.pc) (program.lineNumber (cause.pc?.getD m.pc)) cause

theorem runTask_solo (h : Solo s task) (nested : Scheduler → Scheduler × TickResult) :
    s.runTask nested 0 =
      let r := loop (some s.program.pool) s.slice (begun (s.machine 0))
      ((s.detached 0).withMachine 0 (ended r.1), r.2) := by
  have hwatch : ((s.tasks[0]?).bind (·.watch)).isSome = false := by simp [h.tasks, h.unwatched]
  have hidle : (s.machine 0).running = false := by
    simp only [Scheduler.machine, cpuOf_solo h, h.idle]
  have hrun := run_of_idle (some s.program.pool) s.slice (s.machine 0) hidle
  simp only [Scheduler.runTask, hwatch, Bool.false_eq_true, if_false]
  exact congrArg (fun r : Machine × Outcome => ((s.detached 0).withMachine 0 r.1, r.2)) hrun

theorem tick_solo (h : Solo s task) :
    ∃ nested, s.tick = s.tickTasks nested [0] 0 := by
  have hpending : s.pendingTicks = 0 := by
    simp [Scheduler.pendingTicks, h.tasks, h.unwatched]
  have hrange : List.range s.tasks.size = [0] := by
    simp [h.tasks]
  unfold Scheduler.tick
  rw [hpending, Scheduler.tickWithin, hrange]
  exact ⟨_, rfl⟩

theorem tick_of_done (h : Solo s task) (hdone : task.done = true) :
    s.tick = (s, ⟨true, none⟩) := by
  obtain ⟨nested, htick⟩ := tick_solo h
  rw [htick]
  simp [Scheduler.tickTasks, h.tasks, hdone]

theorem tick_of_live (h : Solo s task) (hlive : task.done = false) :
    let r := loop (some s.program.pool) s.slice (begun (s.machine 0))
    let after := afterSlice s r.1 r.2.event
    s.tick =
      match r.2.error, r.2.event with
      | some cause, _ => (after.retire 0, ⟨false, some (after.runtimeError 0 cause)⟩)
      | none, .stop => (after, ⟨false, none⟩)
      | none, .kill => (after.retire 0, ⟨true, none⟩)
      | none, _ => (after, ⟨false, none⟩) := by
  obtain ⟨nested, htick⟩ := tick_solo h
  have hdone : (s.tasks[0]?).any (·.done) = false := by simp [h.tasks, hlive]
  rw [htick]
  simp only [Scheduler.tickTasks, hdone, runTask_solo h, Bool.false_eq_true, if_false]
  rfl

/-- A tick comes to the end of the task, or it comes a part of the way. -/
theorem tick_cases (h : Solo s task) (hlive : task.done = false) :
    (∃ k m o t u, Finishes (some s.program.pool) k (work s task) m o ∧
      s.tick = (t, ⟨o.event = .kill, failure s.program m o⟩) ∧
      Solo t u ∧ u.done = true ∧ work t u = m) ∨
    ∃ j t u, 0 < j ∧ Passes (some s.program.pool) j (work s task) (work t u) ∧
      s.tick = (t, ⟨false, none⟩) ∧ Solo t u ∧ u.done = false ∧ t.program = s.program := by
  have htick := tick_of_live h hlive
  have hslice := work_afterSlice h (some s.program.pool) s.slice
  have hcases := loop_cases (some s.program.pool) s.slice (work s task) rfl
  generalize loop (some s.program.pool) s.slice (begun (s.machine 0)) = r at htick hslice
  obtain ⟨m, o⟩ := r
  rw [hslice o.event] at hcases
  dsimp only at htick hcases
  have hsolo := solo_afterSlice h m o.event
  rcases hcases with ⟨k, hk⟩ | ⟨ho, j, hpos, hj⟩
  · left
    refine ⟨k, _, o, _, _, hk, ?_, solo_retire hsolo, rfl, work_retire _ _⟩
    rcases hk.outcome with rfl | ⟨e, rfl⟩
    · exact htick
    · have hpc : (afterSlice s m .fault).cpuOf 0 = (ended m).toCpu := cpuOf_solo hsolo
      simp only [Scheduler.runtimeError, hpc] at htick
      exact htick
  · right
    refine ⟨j, _, _, hpos (slice_pos s), hj, ?_, hsolo, hlive, rfl⟩
    rcases ho with rfl | rfl
    · exact htick
    · exact htick

/-! ## A run -/

theorem run_succ_of_tick {t : Scheduler} {result : TickResult} (h : s.tick = (t, result))
    (n : Nat) :
    Scheduler.run (n + 1) s =
      if result.done ∨ result.error ≠ none then (t, result.error) else Scheduler.run n t := by
  simp only [Scheduler.run, h]

theorem run_of_final_tick {t : Scheduler} {pool : Option Pool} {k : Nat} {w m : Machine}
    {o : Outcome} (h : Finishes pool k w m o)
    (htick : s.tick = (t, ⟨o.event = .kill, failure s.program m o⟩)) (n : Nat) :
    Scheduler.run (n + 1) s = (t, failure s.program m o) := by
  rw [run_succ_of_tick htick]
  rcases h.outcome with rfl | ⟨e, rfl⟩
  · exact if_pos (.inl rfl)
  · exact if_pos (.inr nofun)

/-- A run of ticks that ends, ends where the task does. -/
theorem finishes_of_run {t : Scheduler} {n : Nat} {e : Option ScheduleError}
    (h : Solo s task) (hlive : task.done = false) (hrun : Scheduler.run n s = (t, e))
    (he : e ≠ some .canceled) :
    ∃ k m o u, Finishes (some s.program.pool) k (work s task) m o ∧ e = failure s.program m o ∧
      Solo t u ∧ u.done = true ∧ work t u = m := by
  induction n generalizing s task with
  | zero =>
    cases hrun
    exact absurd rfl he
  | succ n ih =>
    rcases tick_cases h hlive with ⟨k, m, o, t', u, hk, htick, hu⟩ | ⟨j, s', u, -, hj, htick, hu⟩
    · rw [run_of_final_tick hk htick] at hrun
      cases hrun
      exact ⟨k, m, o, u, hk, rfl, hu⟩
    · obtain ⟨hsolo, hu, hprogram⟩ := hu
      rw [run_succ_of_tick htick] at hrun
      obtain ⟨k, m, o, u', hk, hrest⟩ := ih hsolo hu (by simpa using hrun)
      rw [hprogram] at hk hrest
      exact ⟨k + j, m, o, u', hj.finishes hk, hrest⟩

/-- If the task ends, so does every run of enough ticks, whatever the slice is. -/
theorem run_of_finishes {k : Nat} {m : Machine} {o : Outcome}
    (h : Solo s task) (hlive : task.done = false)
    (hfin : Finishes (some s.program.pool) k (work s task) m o) :
    ∃ n t u, Scheduler.run n s = (t, failure s.program m o) ∧
      Solo t u ∧ u.done = true ∧ work t u = m := by
  induction k using Nat.strongRecOn generalizing s task with
  | ind k ih =>
    rcases tick_cases h hlive with
      ⟨k', m', o', t, u, hk', htick, hu⟩ | ⟨j, s', u, hpos, hj, htick, hsolo, hu, hprogram⟩
    · obtain ⟨rfl, rfl⟩ := hfin.unique hk'
      exact ⟨1, t, u, run_of_final_tick hk' htick 0, hu⟩
    · -- The tick took at least one instruction of those that are left.
      obtain ⟨i, rfl, hi⟩ := hj.rest hfin
      rw [← hprogram] at hi ⊢
      obtain ⟨n, t, u', hrun, hu'⟩ := ih i (by omega) hsolo hu hi
      refine ⟨n + 1, t, u', ?_, hu'⟩
      rw [run_succ_of_tick htick]
      simpa using hrun

end

/-- With one task, whose time nobody else asks for, the slice makes no difference: a run of ticks
that ends under one budget ends under every other, with the same error or none, the same memory
and registers, the same task done and the same count of instructions. -/
theorem run_independent_of_budget {s t : Scheduler} {task : Task} {n : Nat}
    {e : Option ScheduleError} (b₁ b₂ : Int) (htasks : s.tasks = #[task])
    (hwatch : task.watch = none) (hidle : task.cpu.running = false)
    (hrun : Scheduler.run n { s with budget := b₁ } = (t, e)) (he : e ≠ some .canceled) :
    ∃ n' t' u u', Scheduler.run n' { s with budget := b₂ } = (t', e) ∧
      t.tasks = #[u] ∧ t'.tasks = #[u'] ∧ t'.mem = t.mem ∧ u'.cpu.regs = u.cpu.regs ∧
      u'.done = u.done ∧ u'.ran = u.ran ∧ t'.instructions = t.instructions := by
  have hsolo (b : Int) : Solo { s with budget := b } task := ⟨htasks, hwatch, hidle⟩
  cases hdone : task.done with
  | true =>
    have hdoneRun (b : Int) (n : Nat) :
        Scheduler.run (n + 1) { s with budget := b } = ({ s with budget := b }, none) := by
      rw [run_succ_of_tick (tick_of_done (hsolo b) hdone)]
      exact if_pos (.inl rfl)
    cases n with
    | zero =>
      cases hrun
      exact absurd rfl he
    | succ n =>
      rw [hdoneRun b₁ n] at hrun
      cases hrun
      exact ⟨1, _, task, task, hdoneRun b₂ 0, htasks, htasks, rfl, rfl, rfl, rfl, rfl⟩
  | false =>
    obtain ⟨k, m, o, u, hk, rfl, hu, hud, hwork⟩ := finishes_of_run (hsolo b₁) hdone hrun he
    obtain ⟨n', t', u', hrun', hu', hud', hwork'⟩ := run_of_finishes (hsolo b₂) hdone hk
    have hsame : work t' u' = work t u := hwork'.trans hwork.symm
    have hran : u'.ran = u.ran := congrArg (·.ran) hsame
    refine ⟨n', t', u, u', hrun', hu.tasks, hu'.tasks, congrArg (·.mem) hsame,
      congrArg (·.regs) hsame, hud'.trans hud.symm, hran, ?_⟩
    simp [Scheduler.instructions, hu.tasks, hu'.tasks, hran]

/-- Code that counts, sleeps, counts again and then runs into a word that is no instruction. -/
def nappingCode : List UInt32 :=
  [Word.ofRegsByte Opcode.addq.code Reg.ra Reg.ra 1, Opcode.sleep.code.toUInt32,
    Word.ofRegsByte Opcode.addq.code Reg.ra Reg.ra 1, 0]

def napping : Scheduler where
  mem :=
    { base := 0
      data :=
        { size := 64
          pages := #[(nappingCode.flatMap Memory.wordBytes).toArray]
          fits := by simp [pageSize] } }
  program := { origin := 0, lines := #[{ number := 7, pc := 0, words := [], codes := nappingCode }] }
  tasks := #[.fresh 0 0 64]

/-- One instruction at a time or all in one slice but for the sleep, the task faults after three
instructions at the same address. -/
theorem run_independent_of_budget_napping :
    ∃ t n' t' u u', Scheduler.run 4 { napping with budget := 1 } =
        (t, some (.runtime 0 12 7 (.unassigned 0 12))) ∧
      Scheduler.run n' { napping with budget := -1 } =
        (t', some (.runtime 0 12 7 (.unassigned 0 12))) ∧
      t.tasks = #[u] ∧ t'.tasks = #[u'] ∧ u'.done = u.done ∧ u'.ran = u.ran ∧
      t.instructions = 3 ∧ t'.instructions = 3 := by
  have herror : (Scheduler.run 4 { napping with budget := 1 }).2 =
      some (.runtime 0 12 7 (.unassigned 0 12)) := by decide +kernel
  have hcount : (Scheduler.run 4 { napping with budget := 1 }).1.instructions = 3 := by
    decide +kernel
  generalize hrun : Scheduler.run 4 { napping with budget := 1 } = r at herror hcount
  obtain ⟨t, e⟩ := r
  cases herror
  obtain ⟨n', t', u, u', hrun', htasks, htasks', -, -, hdone, hran, hsame⟩ :=
    run_independent_of_budget 1 (-1) rfl rfl rfl hrun (by decide)
  exact ⟨t, n', t', u, u', rfl, hrun', htasks, htasks', hdone, hran, hcount, hsame.trans hcount⟩

end TaskMachine.TimeSlices
