import TaskMachine.Proofs.Processor.Effects
import TaskMachine.Proofs.Processor.Slicing
import TaskMachine.Scheduler.Tick

/-!
# What a tick does to a scheduler

A tick runs one task after the other, and while a task runs its host may ask for
further ticks. All of it comes down to instructions of single tasks and changes
of single tasks. `Steady` names the relations that these keep; a steady relation
holds between the scheduler before and after any tick, nested ticks included. So
a tick leaves the program, the extent of the memory and all stacks where they
are. A task that nobody watches runs on a machine of its own, which makes no
difference to what it does. A history is a list of calls; what it leaves is told
together with a record of what happened on the way.
-/

namespace TaskMachine.Ticks

open Stateful Slicing Effects Scheduler

section

variable {s : Scheduler} {i j : Nat}

/-! ## One task among the others -/

theorem getElem?_modifyTask (s : Scheduler) (i j : Nat) (f : Task → Task) :
    (s.modifyTask i f).tasks[j]? = if i = j then s.tasks[j]?.map f else s.tasks[j]? := by
  simp [modifyTask, Array.getElem?_modify]

@[simp]
theorem size_modifyTask (s : Scheduler) (i : Nat) (f : Task → Task) :
    (s.modifyTask i f).tasks.size = s.tasks.size := by
  simp [modifyTask]

theorem modifyTask_modifyTask (s : Scheduler) (i : Nat) (f g : Task → Task) :
    (s.modifyTask i f).modifyTask i g = s.modifyTask i (g ∘ f) := by
  have h : ((s.tasks.modify i f).modify i g) = s.tasks.modify i (g ∘ f) := by
    ext j
    · simp
    · simp only [Array.getElem_modify]
      split <;> rfl
  simp only [modifyTask, h]

theorem modifyTask_id (s : Scheduler) (i : Nat) {f : Task → Task}
    (hf : ∀ task, s.tasks[i]? = some task → f task = task) : s.modifyTask i f = s := by
  have h : s.tasks.modify i f = s.tasks := by
    ext j hj hj'
    · simp
    · rw [Array.getElem_modify]
      split
      · rename_i hij
        subst hij
        exact hf _ (Array.getElem?_eq_getElem hj')
      · rfl
  simp only [modifyTask, h]

theorem cpuOf_of_task {task : Task} (h : s.tasks[i]? = some task) : s.cpuOf i = task.cpu := by
  simp only [cpuOf, h]

theorem cpuOf_modifyCpu (hi : i < s.tasks.size) (f : Cpu → Cpu) :
    (s.modifyCpu i f).cpuOf i = f (s.cpuOf i) := by
  have htask := Array.getElem?_eq_getElem hi
  have hafter := getElem?_modifyTask s i i fun task => { task with cpu := f task.cpu }
  rw [if_pos rfl, htask] at hafter
  rw [cpuOf_of_task htask]
  exact cpuOf_of_task hafter

theorem cpuOf_modifyCpu_of_ne (hij : i ≠ j) (s : Scheduler) (f : Cpu → Cpu) :
    (s.modifyCpu i f).cpuOf j = s.cpuOf j := by
  have hafter := getElem?_modifyTask s i j fun task => { task with cpu := f task.cpu }
  rw [if_neg hij] at hafter
  simp only [cpuOf, modifyCpu, hafter]

/-- What changes of a task beside its processor is not seen there. -/
theorem cpuOf_modifyTask (s : Scheduler) (i j : Nat) {f : Task → Task}
    (hf : ∀ task, (f task).cpu = task.cpu) : (s.modifyTask i f).cpuOf j = s.cpuOf j := by
  unfold cpuOf
  rw [getElem?_modifyTask]
  by_cases hij : i = j
  · rw [if_pos hij]
    cases s.tasks[j]? with
    | none => rfl
    | some task => exact hf task
  · rw [if_neg hij]

/-! ## The machine of a task -/

theorem cpuOf_withMachine (hi : i < s.tasks.size) (m : Machine) :
    (s.withMachine i m).cpuOf i = m.toCpu :=
  cpuOf_modifyCpu hi fun _ => m.toCpu

theorem machine_withMachine (hi : i < s.tasks.size) (m : Machine) :
    (s.withMachine i m).machine i = m := by
  simp only [machine, cpuOf_withMachine hi]
  rfl

theorem withMachine_withMachine (s : Scheduler) (i : Nat) (m n : Machine) :
    (s.withMachine i m).withMachine i n = s.withMachine i n := by
  have h := modifyTask_modifyTask s i (fun task => { task with cpu := m.toCpu })
    fun task => { task with cpu := n.toCpu }
  simp only [withMachine, modifyCpu, modifyTask, Scheduler.mk.injEq] at h ⊢
  exact ⟨trivial, trivial, h.2.2.1, trivial, trivial, trivial⟩

theorem detached_withMachine (s : Scheduler) (i : Nat) (m : Machine) :
    (s.detached i).withMachine i m = s.withMachine i m :=
  withMachine_withMachine s i ⟨{}, Memory.zeroed 0 0, {}⟩ m

theorem withMachine_machine (s : Scheduler) (i : Nat) : s.withMachine i (s.machine i) = s := by
  have h : s.modifyCpu i (fun _ => s.cpuOf i) = s :=
    modifyTask_id s i fun task htask => by rw [cpuOf_of_task htask]
  simp only [withMachine, machine, h]

theorem modifyCpu_withMachine (s : Scheduler) (i : Nat) (m : Machine) (f : Cpu → Cpu) :
    (s.withMachine i m).modifyCpu i f = s.withMachine i { m with toCpu := f m.toCpu } := by
  have h := modifyTask_modifyTask s i (fun task => { task with cpu := m.toCpu })
    fun task => { task with cpu := f task.cpu }
  simp only [withMachine, modifyCpu, modifyTask, Scheduler.mk.injEq] at h ⊢
  exact ⟨trivial, trivial, h.2.2.1, trivial, trivial, trivial⟩

/-- The scheduler's memory and the processor of a task follow the machine of the task. -/
theorem stepTask_eq (i : Nat) (s : Scheduler) :
    stepTask i s =
      onState (s.withMachine i) (Machine.step (some s.program.pool) (s.machine i)) := by
  have hprogram : (s.detached i).program = s.program := rfl
  simp only [stepTask, detached_withMachine, hprogram]
  cases Machine.step (some s.program.pool) (s.machine i) with
  | ok event m => rfl
  | error e m => rfl

/-! ## A task that nobody watches -/

/-- A loop on states that stand for others follows the loop on those. -/
theorem cycle_embed {σ τ : Type} {stopping : σ → Bool} {arrive : σ → σ}
    {step : EStateM RunError σ (Option Event)} {stopping' : τ → Bool} {arrive' : τ → τ}
    {step' : EStateM RunError τ (Option Event)} (g : τ → σ)
    (hstop : ∀ t, stopping (g t) = stopping' t) (harrive : ∀ t, arrive (g t) = g (arrive' t))
    (hstep : ∀ t, step (g t) = onState g (step' t)) (n : Nat) (t : τ) :
    cycle stopping arrive step n (g t) =
      (g (cycle stopping' arrive' step' n t).1, (cycle stopping' arrive' step' n t).2) := by
  induction n generalizing t with
  | zero => rfl
  | succ n ih =>
    simp only [cycle]
    rw [hstop, harrive, hstep]
    split
    · rfl
    · cases step' (arrive' t) with
      | ok event u =>
        cases event with
        | none => exact ih u
        | some e => rfl
      | error e u => rfl

theorem arrive_of_unwatched (nested : Scheduler → Scheduler × TickResult)
    (h : (s.tasks[i]?).bind (·.watch) = none) : s.arrive nested i = s := by
  simp only [arrive, h]

theorem watch_withMachine (s : Scheduler) (i : Nat) (m : Machine) :
    ((s.withMachine i m).tasks[i]?).bind (·.watch) = (s.tasks[i]?).bind (·.watch) := by
  have h := getElem?_modifyTask s i i fun task => { task with cpu := m.toCpu }
  rw [if_pos rfl] at h
  change ((s.modifyTask i fun task => { task with cpu := m.toCpu }).tasks[i]?).bind _ = _
  rw [h]
  cases s.tasks[i]? with
  | none => rfl
  | some task => rfl

/-- The run of a task on its own is the run under a host that does nothing. -/
theorem runTask_eq_runWatched (nested : Scheduler → Scheduler × TickResult)
    (hi : i < s.tasks.size) : s.runTask nested i = s.runWatched nested i := by
  unfold runTask
  split
  · rfl
  · rename_i hwatch
    have hwatch : (s.tasks[i]?).bind (·.watch) = none := by simpa using hwatch
    dsimp only
    cases hrun : (s.cpuOf i).running with
    | true =>
      have hrefused : (s.machine i).run (some s.program.pool) s.slice =
          (s.machine i, ⟨.fault, some .reentrant⟩) := if_pos hrun
      simp only [runWatched, hrun, if_true]
      change ((s.detached i).withMachine i ((s.machine i).run (some s.program.pool) s.slice).1,
        ((s.machine i).run (some s.program.pool) s.slice).2) = _
      rw [hrefused, detached_withMachine, withMachine_machine]
    | false =>
      have hmachine := run_of_idle (some s.program.pool) s.slice (s.machine i) hrun
      have hembed : cycle (fun s => (s.cpuOf i).stopping) (arrive nested i) (stepTask i) s.slice
          (s.withMachine i (begun (s.machine i))) =
          (s.withMachine i (loop (some s.program.pool) s.slice (begun (s.machine i))).1,
            (loop (some s.program.pool) s.slice (begun (s.machine i))).2) := by
        refine cycle_embed (s.withMachine i) (fun m => ?_) (fun m => ?_) (fun m => ?_) s.slice _
        · rw [cpuOf_withMachine hi]
        · exact arrive_of_unwatched nested ((watch_withMachine s i m).trans hwatch)
        · rw [stepTask_eq, machine_withMachine hi, funext (withMachine_withMachine s i m)]
          rfl
      have hstarted : s.modifyCpu i Cpu.started = s.withMachine i (begun (s.machine i)) := by
        have h := modifyCpu_withMachine s i (s.machine i) Cpu.started
        rwa [withMachine_machine] at h
      simp only [runWatched, hrun, Bool.false_eq_true, if_false]
      rw [hstarted, hembed, modifyCpu_withMachine]
      change ((s.detached i).withMachine i ((s.machine i).run (some s.program.pool) s.slice).1,
        ((s.machine i).run (some s.program.pool) s.slice).2) = _
      rw [detached_withMachine]
      exact congrArg (fun r : Machine × Outcome => (s.withMachine i r.1, r.2)) hmachine

end

/-! ## What a tick keeps -/

/-- How many ticks the host of a task is still going to ask for. -/
def asked (task : Task) : Nat := (task.watch.map (·.pending)).getD 0

/-- The task is where it was, and its host is not going to ask for more ticks than before. -/
structure Stays (task task' : Task) : Prop where
  stack : task'.stack = task.stack
  asked : asked task' ≤ asked task

/-- The relations that every part of a tick keeps. -/
structure Steady (R : Scheduler → Scheduler → Prop) : Prop where
  refl : ∀ s, R s s
  trans : ∀ {s t u}, R s t → R t u → R s u
  size : ∀ {s t}, R s t → t.tasks.size = s.tasks.size
  note : ∀ s line, R s (s.note line)
  task : ∀ s i {f}, (∀ task, s.tasks[i]? = some task → Stays task (f task)) →
    R s (s.modifyTask i f)
  step : ∀ s i, R s (endState (stepTask i s))

/-- The fetch just counted is the only one that is no longer to come. -/
theorem pending_advanced (watch : Watch) :
    watch.advanced.pending + watch.reenterAt.count (watch.fetches + 1) = watch.pending := by
  simp only [Watch.pending, Watch.advanced, ← List.countP_eq_length_filter]
  induction watch.reenterAt with
  | nil => rfl
  | cons k ks ih =>
    simp only [List.countP_cons, List.count_cons, beq_iff_eq, decide_eq_true_eq]
    grind

/-- The scheduler when the host of a task has counted one more fetch and has asked the task to
stop, if it does. -/
def observed (i : Nat) (watch : Watch) (s : Scheduler) : Scheduler :=
  s.modifyTask i fun task =>
    { task with watch := some watch, cpu := if watch.stopsNow then task.cpu.stop else task.cpu }

theorem arrive_eq {nested : Scheduler → Scheduler × TickResult} {s : Scheduler} {i : Nat}
    {watch : Watch} (h : (s.tasks[i]?).bind (·.watch) = some watch) :
    s.arrive nested i =
      if watch.advanced.reentersNow then
        (nested (observed i watch.advanced s)).1.modifyTask i fun task =>
          { task with reentries := task.reentries ++ [(nested (observed i watch.advanced s)).2] }
      else observed i watch.advanced s := by
  simp only [arrive, h]
  rfl

/-- What the host sees of a task is a change of that task. -/
theorem stays_observed {s : Scheduler} {i : Nat} {watch : Watch} {task : Task}
    (h : (s.tasks[i]?).bind (·.watch) = some watch) (htask : s.tasks[i]? = some task) :
    Stays task { task with
      watch := some watch.advanced
      cpu := if watch.advanced.stopsNow then task.cpu.stop else task.cpu } := by
  rw [htask] at h
  have hwatch : task.watch = some watch := h
  refine ⟨rfl, ?_⟩
  have hpending := pending_advanced watch
  simp only [asked, hwatch, Option.map_some, Option.getD_some]
  omega

namespace Steady

variable {R : Scheduler → Scheduler → Prop} (hR : Steady R)
  {nested : Scheduler → Scheduler × TickResult} (hnested : ∀ s, R s (nested s).1)

include hR

theorem cpu (s : Scheduler) (i : Nat) (f : Cpu → Cpu) : R s (s.modifyCpu i f) :=
  hR.task s i fun _ _ => ⟨rfl, Nat.le_refl _⟩

theorem account (s : Scheduler) (i : Nat) (event : Event) : R s (s.account i event) := by
  refine hR.trans ?_ (hR.note _ _)
  exact hR.task s i fun _ _ => ⟨rfl, Nat.le_refl _⟩

theorem retire (s : Scheduler) (i : Nat) : R s (s.retire i) :=
  hR.task s i fun _ _ => ⟨rfl, Nat.le_refl _⟩

include hnested

theorem arrive (i : Nat) (s : Scheduler) : R s (s.arrive nested i) := by
  cases hwatch : (s.tasks[i]?).bind (·.watch) with
  | none =>
    rw [arrive_of_unwatched nested hwatch]
    exact hR.refl s
  | some watch =>
    have hobserved : R s (observed i watch.advanced s) :=
      hR.task s i fun task htask => stays_observed hwatch htask
    rw [arrive_eq hwatch]
    split
    · refine hR.trans hobserved (hR.trans (hnested _) (hR.task _ i ?_))
      exact fun _ _ => ⟨rfl, Nat.le_refl _⟩
    · exact hobserved

theorem runWatched (i : Nat) (s : Scheduler) : R s (s.runWatched nested i).1 := by
  unfold Scheduler.runWatched
  split
  · exact hR.refl s
  · have hcycle : R s (cycle (fun s => (s.cpuOf i).stopping) (Scheduler.arrive nested i)
        (stepTask i) s.slice (s.modifyCpu i Cpu.started)).1 := by
      refine cycle_invariant (P := R s) (fun t ht => ?_) s.slice _ (hR.cpu s i Cpu.started)
      exact hR.trans ht (hR.trans (hR.arrive hnested i t) (hR.step _ i))
    exact hR.trans hcycle (hR.cpu _ i Cpu.finished)

theorem tickTasks (is : List Nat) (live : Nat) (s : Scheduler)
    (his : ∀ i ∈ is, i < s.tasks.size) : R s (Scheduler.tickTasks nested is live s).1 := by
  -- The tasks that are left are there when their turn comes, as no part of a tick drops one.
  induction is generalizing live s with
  | nil => exact hR.refl s
  | cons i rest ih =>
    have hrest : ∀ j ∈ rest, j < s.tasks.size := fun j hj => his j (List.mem_cons_of_mem i hj)
    simp only [Scheduler.tickTasks]
    split
    · exact ih live s hrest
    · rw [runTask_eq_runWatched nested (his i List.mem_cons_self)]
      have hrun := hR.runWatched hnested i s
      generalize s.runWatched nested i = r at hrun
      have haccount := hR.trans hrun (hR.account r.1 i r.2.event)
      have hretire := hR.trans haccount (hR.retire _ i)
      split
      · exact hretire
      · exact haccount
      · refine hR.trans hretire (ih live _ fun j hj => ?_)
        rw [hR.size hretire]
        exact hrest j hj
      · refine hR.trans haccount (ih _ _ fun j hj => ?_)
        rw [hR.size haccount]
        exact hrest j hj

omit hnested

theorem tickWithin (depth : Nat) (s : Scheduler) : R s (s.tickWithin depth).1 := by
  induction depth generalizing s with
  | zero =>
    exact hR.tickTasks (fun s => hR.refl s) _ 0 s fun i hi => List.mem_range.mp hi
  | succ depth ih => exact hR.tickTasks ih _ 0 s fun i hi => List.mem_range.mp hi

theorem tick (s : Scheduler) : R s s.tick.1 := hR.tickWithin s.pendingTicks s

theorem run (n : Nat) (s : Scheduler) : R s (Scheduler.run n s).1 := by
  induction n generalizing s with
  | zero => exact hR.refl s
  | succ n ih =>
    simp only [Scheduler.run]
    split
    · exact hR.tick s
    · exact hR.trans (hR.tick s) (ih _)

end Steady

/-- The program, the extent of the memory and the stacks are where they were. -/
structure SameLayout (s t : Scheduler) : Prop where
  program : t.program = s.program
  stackSize : t.stackSize = s.stackSize
  base : t.mem.base = s.mem.base
  size : t.mem.data.size = s.mem.data.size
  tops : t.tasks.map (·.stack) = s.tasks.map (·.stack)

theorem tops_modifyTask (s : Scheduler) (i : Nat) {f : Task → Task}
    (hf : ∀ task, s.tasks[i]? = some task → (f task).stack = task.stack) :
    (s.modifyTask i f).tasks.map (·.stack) = s.tasks.map (·.stack) := by
  refine Array.ext (by simp) fun j hj hj' => ?_
  simp only [modifyTask, Array.getElem_map, Array.getElem_modify]
  split
  · rename_i hij
    subst hij
    exact hf _ (Array.getElem?_eq_getElem (by simpa using hj'))
  · rfl

theorem steady_sameLayout : Steady SameLayout where
  refl _ := ⟨rfl, rfl, rfl, rfl, rfl⟩
  trans h k := ⟨k.program.trans h.program, k.stackSize.trans h.stackSize, k.base.trans h.base,
    k.size.trans h.size, k.tops.trans h.tops⟩
  size h := by simpa using congrArg Array.size h.tops
  note _ _ := ⟨rfl, rfl, rfl, rfl, rfl⟩
  task s i _ hf :=
    ⟨rfl, rfl, rfl, rfl, tops_modifyTask s i fun task htask => (hf task htask).stack⟩
  step s i := by
    have hextent := sameExtent_step (some s.program.pool) (s.machine i)
    have htops (m : Machine) : (s.withMachine i m).tasks.map (·.stack) = s.tasks.map (·.stack) :=
      tops_modifyTask s i (f := fun task => { task with cpu := m.toCpu }) fun _ _ => rfl
    rw [stepTask_eq]
    cases h : Machine.step (some s.program.pool) (s.machine i) with
    | ok event m =>
      rw [h] at hextent
      exact ⟨rfl, rfl, hextent.base, hextent.size, htops m⟩
    | error e m =>
      rw [h] at hextent
      exact ⟨rfl, rfl, hextent.base, hextent.size, htops m⟩

/-! ## Histories -/

/-- What a host can do with a scheduler. -/
inductive Call where
  | load (p : Program)
  | spawn (entry : UInt32)
  | tick
  | run (ticks : Nat)
  | runInterrupted
  | resize (stackSize : UInt32)
  | rebudget (budget : Int)
  | watch (task : Nat) (host : Watch)

/-- The scheduler after a call; a spawn that is refused changes nothing. -/
def Call.perform : Call → Scheduler → Scheduler
  | .load p, s => (s.load p).1
  | .spawn entry, s =>
    match s.spawn entry with
    | .ok t => t
    | .error _ => s
  | .tick, s => s.tick.1
  | .run n, s => (Scheduler.run n s).1
  | .runInterrupted, s => s.runInterrupted.1
  | .resize stackSize, s => { s with stackSize }
  | .rebudget budget, s => { s with budget }
  | .watch i host, s => s.watchTask i host

/-- The scheduler after a history, with a record to which every call adds what `note` says. -/
def after {γ : Type} (note : Call → Scheduler → γ → γ) :
    List Call → Scheduler → γ → Scheduler × γ
  | [], s, record => (s, record)
  | call :: rest, s, record => after note rest (call.perform s) (note call s record)

/-- What every call of a history keeps holds after the history. -/
theorem after_invariant {γ : Type} {note : Call → Scheduler → γ → γ} {P : Scheduler → γ → Prop}
    {calls : List Call}
    (hcall : ∀ call ∈ calls, ∀ s record, P s record → P (call.perform s) (note call s record))
    {s : Scheduler} {record : γ} (hs : P s record) :
    P (after note calls s record).1 (after note calls s record).2 := by
  induction calls generalizing s record with
  | nil => exact hs
  | cons call rest ih =>
    refine ih (fun call hmem => hcall call (List.mem_cons_of_mem _ hmem)) ?_
    exact hcall call List.mem_cons_self s record hs

theorem spawn_eq_ok {s t : Scheduler} {entry : UInt32} (h : s.spawn entry = .ok t) :
    ∃ top log, s.nextStack? = some top ∧
      t = { s with tasks := s.tasks.push (.fresh s.tasks.size entry top), log } := by
  unfold Scheduler.spawn at h
  cases htop : s.nextStack? with
  | none =>
    rw [htop] at h
    cases h
  | some top =>
    rw [htop] at h
    cases h
    exact ⟨top, _, rfl, rfl⟩

end TaskMachine.Ticks
