import Mathlib.Algebra.BigOperators.Fin
import TaskMachine.Proofs.Processor.Faults
import TaskMachine.Proofs.Scheduler.Happenings

/-!
# How many instructions a scheduler reports

A task's account is charged with the count of its processor after every attempt
to run it. An attempt on a task that runs already finds there the count of the
run in progress, which is charged again when that run ends. So the instructions
that a scheduler reports are those that were completed, each once, and on top of
them for every refused attempt those that its task had completed by then.
-/

namespace TaskMachine.Accounting

open Stateful Bookkeeping Slicing Ticks Happenings Scheduler

/-! ## Charges -/

/-- The instructions that are charged to a task. -/
def charge (i : Nat) (record : Record) : Nat :=
  (record.map fun h => if h.task = i then h.weight else 0).sum

/-- The instructions that were completed. -/
def completions (record : Record) : Nat :=
  record.countP fun h => match h with
    | .completed _ => true
    | .refused _ _ => false

/-- The instructions that were charged to a task while its run went on. -/
def repetitions (record : Record) : Nat :=
  (record.map fun h => match h with
    | .completed _ => 0
    | .refused _ counted => counted).sum

@[simp]
theorem charge_nil (i : Nat) : charge i [] = 0 := rfl

@[simp]
theorem charge_append (i : Nat) (r r' : Record) : charge i (r ++ r') = charge i r + charge i r' := by
  simp [charge]

theorem charge_cons (i : Nat) (h : Happening) (r : Record) :
    charge i (h :: r) = (if h.task = i then h.weight else 0) + charge i r := by
  simp [charge]

theorem charge_completed (i : Nat) : charge i [.completed i] = 1 := by
  simp [charge, Happening.task, Happening.weight]

theorem charge_refused (i counted : Nat) : charge i [.refused i counted] = counted := by
  simp [charge, Happening.task, Happening.weight]

theorem charge_eq_zero {i : Nat} {record : Record} (h : ∀ e ∈ record, e.task ≠ i) :
    charge i record = 0 := by
  induction record with
  | nil => rfl
  | cons e r ih =>
    rw [charge_cons, if_neg (h e List.mem_cons_self),
      ih fun e he => h e (List.mem_cons_of_mem _ he)]

/-- All that is charged is charged to some task. -/
theorem sum_charge {n : Nat} {record : Record} (h : ∀ e ∈ record, e.task < n) :
    ∑ i ∈ Finset.range n, charge i record = (record.map (·.weight)).sum := by
  induction record with
  | nil => simp
  | cons e r ih =>
    have he : e.task ∈ Finset.range n := Finset.mem_range.mpr (h e List.mem_cons_self)
    simp only [charge_cons, Finset.sum_add_distrib, List.map_cons, List.sum_cons]
    rw [Finset.sum_ite_eq, if_pos he, ih fun e he => h e (List.mem_cons_of_mem _ he)]

theorem sum_weight (record : Record) :
    (record.map (·.weight)).sum = completions record + repetitions record := by
  induction record with
  | nil => rfl
  | cons e r ih =>
    cases e with
    | completed i =>
      simp only [completions, repetitions, List.map_cons, List.sum_cons, List.countP_cons,
        Happening.weight, if_true] at ih ⊢
      omega
    | refused i counted =>
      simp only [completions, repetitions, List.map_cons, List.sum_cons, List.countP_cons,
        Happening.weight, Bool.false_eq_true, if_false] at ih ⊢
      omega

/-! ## Credits -/

/-- What a task has on its account or is going to have there when its run ends. -/
def credited (task : Task) : Nat := task.ran + if task.cpu.running then task.cpu.ran else 0

def credit (s : Scheduler) (i : Nat) : Nat := ((s.tasks[i]?).map credited).getD 0

def active (s : Scheduler) (i : Nat) : Bool := ((s.tasks[i]?).map (·.cpu.running)).getD false

theorem cpuOf_running (s : Scheduler) (i : Nat) : (s.cpuOf i).running = active s i := by
  unfold cpuOf active
  cases s.tasks[i]? with
  | none => rfl
  | some task => rfl

/-- The record tells what was added to the accounts on the way from one scheduler to the other,
and the same tasks are running. -/
structure Accounted (record : Record) (s t : Scheduler) : Prop where
  size : t.tasks.size = s.tasks.size
  active : ∀ j, active t j = active s j
  credit : ∀ j, credit t j = credit s j + charge j record
  known : ∀ e ∈ record, e.task < s.tasks.size

namespace Accounted

variable {s t u : Scheduler} {r r' : Record} {i : Nat}

theorem refl (s : Scheduler) : Accounted [] s s where
  size := rfl
  active _ := rfl
  credit _ := rfl
  known := nofun

theorem trans (h : Accounted r s t) (k : Accounted r' t u) : Accounted (r ++ r') s u where
  size := k.size.trans h.size
  active j := (k.active j).trans (h.active j)
  credit j := by rw [k.credit, h.credit, charge_append, Nat.add_assoc]
  known e he := by
    rcases List.mem_append.mp he with he | he
    · exact h.known e he
    · exact h.size ▸ k.known e he

theorem then_quiet (h : Accounted r s t) (k : Accounted [] t u) : Accounted r s u := by
  have htrans := h.trans k
  rwa [List.append_nil] at htrans

/-- A change of one task, with what it adds to the account of that task. -/
theorem modifyTask {f : Task → Task} (hi : i < s.tasks.size) (hr : ∀ e ∈ r, e.task = i)
    (hactive : ∀ task, s.tasks[i]? = some task → (f task).cpu.running = task.cpu.running)
    (hcredit : ∀ task, s.tasks[i]? = some task → credited (f task) = credited task + charge i r) :
    Accounted r s (s.modifyTask i f) where
  size := size_modifyTask s i f
  active j := by
    unfold Accounting.active
    rw [getElem?_modifyTask]
    split
    · rename_i hij
      subst hij
      have htask := Array.getElem?_eq_getElem hi
      rw [htask]
      exact hactive _ htask
    · rfl
  credit j := by
    unfold Accounting.credit
    rw [getElem?_modifyTask]
    split
    · rename_i hij
      subst hij
      have htask := Array.getElem?_eq_getElem hi
      rw [htask]
      exact hcredit _ htask
    · rename_i hij
      rw [charge_eq_zero fun e he hj => hij ((hr e he).symm.trans hj)]
      rfl
  known e he := hr e he ▸ hi

/-- A change that leaves the account and the processor's count and flag alone. -/
theorem quiet {f : Task → Task} (hi : i < s.tasks.size)
    (hran : ∀ task, (f task).ran = task.ran) (hcount : ∀ task, (f task).cpu.ran = task.cpu.ran)
    (hactive : ∀ task, (f task).cpu.running = task.cpu.running) :
    Accounted [] s (s.modifyTask i f) := by
  refine modifyTask hi nofun (fun task _ => hactive task) fun task _ => ?_
  simp only [credited, hran, hcount, hactive, charge_nil, Nat.add_zero]

theorem of_tasks (h : Accounted r s t) (htasks : u.tasks = t.tasks) : Accounted r s u where
  size := by rw [htasks, h.size]
  active j := by rw [← h.active j, Accounting.active, Accounting.active, htasks]
  credit j := by rw [← h.credit j, Accounting.credit, Accounting.credit, htasks]
  known := h.known

end Accounted

/-! ## Instructions -/

section

variable {s : Scheduler} {i : Nat}

/-- The machine of a running task has gone on and has counted what the record says. -/
theorem accounted_withMachine {r : Record} {m : Machine} (hi : i < s.tasks.size)
    (hr : ∀ e ∈ r, e.task = i) (hactive : active s i = true) (hrunning : m.running = true)
    (hran : m.ran = (s.cpuOf i).ran + charge i r) : Accounted r s (s.withMachine i m) := by
  have hchange : Accounted r s (s.modifyTask i fun task => { task with cpu := m.toCpu }) := by
    refine .modifyTask hi hr (fun task htask => ?_) fun task htask => ?_
    · rw [← cpuOf_of_task htask, cpuOf_running, hactive]
      exact hrunning
    · have hbefore : task.cpu.running = true := by
        rw [← cpuOf_of_task htask, cpuOf_running, hactive]
      rw [cpuOf_of_task htask] at hran
      simp only [credited, hbefore, hrunning, hran, if_true, Nat.add_assoc]
  exact hchange.of_tasks rfl

/-- A step of a running task counts one instruction if it succeeds. -/
theorem accounted_step (hi : i < s.tasks.size) (hactive : active s i = true) :
    Accounted (if isOk (stepTask i s) then [.completed i] else []) s
      (endState (stepTask i s)) := by
  have hrunning : (endState (Machine.step (some s.program.pool) (s.machine i))).running = true := by
    rw [(flags_step _ _).1]
    exact (cpuOf_running s i).trans hactive
  rw [stepTask_eq]
  cases hstep : Machine.step (some s.program.pool) (s.machine i) with
  | ok event m =>
    rw [hstep] at hrunning
    refine accounted_withMachine hi (fun e he => ?_) hactive hrunning ?_
    · rw [List.mem_singleton.mp he]
      rfl
    · exact (ran_step hstep).trans (congrArg _ (charge_completed i).symm)
  | error e m =>
    rw [hstep] at hrunning
    exact accounted_withMachine hi nofun hactive hrunning (Faults.step_eq_error hstep).2.2.2

end

/-! ## Runs -/

section

variable {nested : Scheduler → Scheduler × TickResult} {within : Scheduler → Record}
  (hnested : ∀ s, Accounted (within s) s (nested s).1) {i : Nat}

include hnested

theorem accounted_arrive {s : Scheduler} (hi : i < s.tasks.size) :
    Accounted (inArrival within i s) s (s.arrive nested i) := by
  unfold inArrival
  cases hwatch : (s.tasks[i]?).bind (·.watch) with
  | none =>
    rw [arrive_of_unwatched nested hwatch]
    exact .refl s
  | some watch =>
    have hobserved : Accounted [] s (observed i watch.advanced s) := by
      refine .quiet hi (fun _ => rfl) (fun task => ?_) (fun task => ?_)
      · dsimp only
        split <;> rfl
      · dsimp only
        split <;> rfl
    rw [arrive_eq hwatch]
    dsimp only
    split
    · have htick := hobserved.trans (hnested (observed i watch.advanced s))
      refine htick.then_quiet ?_
      exact .quiet (htick.size ▸ hi) (fun _ => rfl) (fun _ => rfl) (fun _ => rfl)
    · exact hobserved

theorem accounted_cycle (n : Nat) {s : Scheduler} (hi : i < s.tasks.size)
    (hactive : active s i = true) :
    Accounted (inCycle nested within i n s) s
      (cycle (fun s => (s.cpuOf i).stopping) (arrive nested i) (stepTask i) n s).1 := by
  -- Whatever the host does during a fetch, the task stays marked as running.
  induction n generalizing s with
  | zero => exact .refl s
  | succ n ih =>
    have harrive := accounted_arrive hnested hi
    have hi' : i < (s.arrive nested i).tasks.size := harrive.size ▸ hi
    have hactive' : active (s.arrive nested i) i = true := (harrive.active i).trans hactive
    have hstep := accounted_step hi' hactive'
    simp only [cycle, inCycle]
    split
    · exact .refl s
    · refine harrive.trans ?_
      cases h : stepTask i (s.arrive nested i) with
      | ok event t =>
        rw [h] at hstep
        have ht : Accounted [.completed i] (s.arrive nested i) t := hstep
        cases event with
        | none => exact ht.trans (ih (ht.size ▸ hi') ((ht.active i).trans hactive'))
        | some event => exact ht
      | error e t =>
        rw [h] at hstep
        exact hstep

end

section

variable {s : Scheduler} {i : Nat}

theorem active_modifyCpu (hi : i < s.tasks.size) (f : Cpu → Cpu) (j : Nat) :
    active (s.modifyCpu i f) j = if i = j then (f (s.cpuOf i)).running else active s j := by
  rw [← cpuOf_running, ← cpuOf_running]
  split
  · rename_i hij
    rw [← hij, cpuOf_modifyCpu hi]
  · rename_i hij
    rw [cpuOf_modifyCpu_of_ne hij]

/-- The processor of a task that starts to run counts from zero. -/
theorem credit_started (h : active s i = false) (j : Nat) :
    credit (s.modifyCpu i Cpu.started) j = credit s j := by
  unfold credit modifyCpu
  rw [getElem?_modifyTask]
  split
  · rename_i hij
    subst hij
    unfold active at h
    cases htask : s.tasks[i]? with
    | none => rfl
    | some task =>
      rw [htask] at h
      have hidle : task.cpu.running = false := h
      simp [credited, Cpu.started, hidle]
  · rfl

theorem size_account (s : Scheduler) (i : Nat) (event : Event) :
    (s.account i event).tasks.size = s.tasks.size :=
  size_modifyTask s i _

theorem active_account (s : Scheduler) (i : Nat) (event : Event) (j : Nat) :
    active (s.account i event) j = active s j := by
  rw [← cpuOf_running, ← cpuOf_running]
  exact congrArg Cpu.running (cpuOf_modifyTask s i j fun _ => rfl)

/-- An attempt to run a task that runs already charges it with the count of the run in progress. -/
theorem accounted_refused (hi : i < s.tasks.size) (event : Event) :
    Accounted [.refused i (s.cpuOf i).ran] s (s.account i event) := by
  have hchange : Accounted [.refused i (s.cpuOf i).ran] s
      (s.modifyTask i fun task => { task with ran := task.ran + (s.cpuOf i).ran }) := by
    refine .modifyTask hi (fun e he => ?_) (fun _ _ => rfl) fun task _ => ?_
    · rw [List.mem_singleton.mp he]
      rfl
    · rw [charge_refused]
      simp only [credited]
      omega
  exact hchange.of_tasks rfl

/-- When a run has ended its count goes to the account of the task. -/
theorem credit_settled (hi : i < s.tasks.size) (h : active s i = true) (event : Event) (j : Nat) :
    credit ((s.modifyCpu i Cpu.finished).account i event) j = credit s j := by
  have hcpu := cpuOf_modifyCpu hi Cpu.finished
  rw [← cpuOf_running] at h
  unfold credit account
  rw [hcpu]
  change (Option.map credited (((s.modifyTask i _).modifyTask i _).tasks[j]?)).getD 0 = _
  rw [modifyTask_modifyTask, getElem?_modifyTask]
  split
  · rename_i hij
    subst hij
    have htask := Array.getElem?_eq_getElem hi
    rw [cpuOf_of_task htask] at h ⊢
    rw [htask]
    simp [credited, Cpu.finished, h]
  · rfl

end

section

variable {nested : Scheduler → Scheduler × TickResult} {within : Scheduler → Record}
  (hnested : ∀ s, Accounted (within s) s (nested s).1) {i : Nat}

include hnested

/-- A run of a task that is idle, its account settled. -/
theorem accounted_run_idle {s : Scheduler} (hi : i < s.tasks.size) (hidle : active s i = false)
    (event : Event) :
    Accounted (inRun nested within i s) s ((s.runWatched nested i).1.account i event) := by
  have hsize : (s.modifyCpu i Cpu.started).tasks.size = s.tasks.size := size_modifyTask s i _
  have hactive : active (s.modifyCpu i Cpu.started) i = true := by
    rw [active_modifyCpu hi, if_pos rfl]
    rfl
  have hcycle := accounted_cycle hnested s.slice (hsize ▸ hi) hactive
  have hrunning : (s.cpuOf i).running = false := by rw [cpuOf_running, hidle]
  simp only [inRun, runWatched, hrunning, Bool.false_eq_true, if_false]
  generalize cycle (fun s => (s.cpuOf i).stopping) (arrive nested i) (stepTask i) s.slice
    (s.modifyCpu i Cpu.started) = r at hcycle
  have hcount : r.1.tasks.size = s.tasks.size := hcycle.size.trans hsize
  have hend : active r.1 i = true := (hcycle.active i).trans hactive
  refine ⟨?_, fun j => ?_, fun j => ?_, fun e he => hsize ▸ hcycle.known e he⟩
  · rw [size_account, modifyCpu, size_modifyTask, hcount]
  · rw [active_account, active_modifyCpu (hcount ▸ hi)]
    by_cases hij : i = j
    · rw [if_pos hij, ← hij, hidle]
      rfl
    · rw [if_neg hij, hcycle.active, active_modifyCpu hi, if_neg hij]
  · rw [credit_settled (hcount ▸ hi) hend, hcycle.credit, credit_started hidle]

theorem accounted_run {s : Scheduler} (hi : i < s.tasks.size) (event : Event) :
    Accounted (inRun nested within i s) s ((s.runTask nested i).1.account i event) := by
  rw [runTask_eq_runWatched nested hi]
  cases h : active s i with
  | false => exact accounted_run_idle hnested hi h event
  | true =>
    have hrunning : (s.cpuOf i).running = true := by rw [cpuOf_running, h]
    simp only [inRun, runWatched, hrunning, if_true]
    exact accounted_refused hi event

/-! ## Ticks -/

theorem accounted_tickTasks (is : List Nat) (live : Nat) {s : Scheduler}
    (his : ∀ i ∈ is, i < s.tasks.size) :
    Accounted (inTasks nested within is s) s (tickTasks nested is live s).1 := by
  induction is generalizing live s with
  | nil => exact .refl s
  | cons i rest ih =>
    have hi := his i List.mem_cons_self
    have hrest : ∀ j ∈ rest, j < s.tasks.size := fun j hj => his j (List.mem_cons_of_mem i hj)
    simp only [tickTasks, inTasks]
    split
    · exact ih live hrest
    · have hrun := accounted_run hnested hi (s.runTask nested i).2.event
      have hretire : Accounted (inRun nested within i s) s
          (((s.runTask nested i).1.account i (s.runTask nested i).2.event).retire i) :=
        hrun.then_quiet (.quiet (hrun.size ▸ hi) (fun _ => rfl) (fun _ => rfl) fun _ => rfl)
      have hlater {t : Scheduler} (ht : Accounted (inRun nested within i s) s t) (live : Nat) :
          Accounted (inRun nested within i s ++ inTasks nested within rest t) s
            (tickTasks nested rest live t).1 :=
        ht.trans (ih live fun j hj => ht.size ▸ hrest j hj)
      generalize s.runTask nested i = r at hrun hretire
      obtain ⟨t, event, error⟩ := r
      cases error with
      | some cause => exact hretire.trans (.refl _)
      | none =>
        cases event with
        | stop => exact hrun.trans (.refl _)
        | kill => exact hlater hretire live
        | budget => exact hlater hrun (live + 1)
        | sleep => exact hlater hrun (live + 1)
        | fault => exact hlater hrun (live + 1)

end

theorem accounted_tickWithin (depth : Nat) (s : Scheduler) :
    Accounted (inTickWithin depth s) s (s.tickWithin depth).1 := by
  induction depth generalizing s with
  | zero => exact accounted_tickTasks .refl _ 0 fun i hi => List.mem_range.mp hi
  | succ depth ih => exact accounted_tickTasks ih _ 0 fun i hi => List.mem_range.mp hi

theorem accounted_tick (s : Scheduler) : Accounted (inTick s) s s.tick.1 :=
  accounted_tickWithin s.pendingTicks s

theorem accounted_ticks (n : Nat) (s : Scheduler) : Accounted (inTicks n s) s (run n s).1 := by
  induction n generalizing s with
  | zero => exact .refl s
  | succ n ih =>
    simp only [run, inTicks]
    split
    · exact (accounted_tick s).trans (.refl _)
    · exact (accounted_tick s).trans (ih _)

/-! ## Histories -/

/-- No task is running, and every account holds what was charged to it. -/
structure Balanced (s : Scheduler) (record : Record) : Prop where
  idle : ∀ i, active s i = false
  charged : ∀ i, credit s i = charge i record
  known : ∀ e ∈ record, e.task < s.tasks.size

theorem balanced_empty {s : Scheduler} (h : s.tasks = #[]) : Balanced s [] where
  idle i := by simp [active, h]
  charged i := by simp [credit, h]
  known := nofun

namespace Balanced

variable {s t : Scheduler} {record r : Record}

theorem accounted (h : Balanced s record) (ht : Accounted r s t) : Balanced t (record ++ r) where
  idle i := (ht.active i).trans (h.idle i)
  charged i := by rw [ht.credit, h.charged, charge_append]
  known e he := by
    rw [ht.size]
    rcases List.mem_append.mp he with he | he
    · exact h.known e he
    · exact ht.known e he

/-- Tasks with the same accounts, all of them idle. -/
theorem of_idle (h : Balanced s record) (hsize : t.tasks.size = s.tasks.size)
    (hidle : ∀ i, active t i = false) (hcredit : ∀ i, credit t i = credit s i) :
    Balanced t record where
  idle := hidle
  charged i := (hcredit i).trans (h.charged i)
  known e he := hsize ▸ h.known e he

theorem of_tasks (h : Balanced s record) (htasks : t.tasks = s.tasks) : Balanced t record := by
  refine h.of_idle (by rw [htasks]) (fun i => ?_) fun i => ?_
  · rw [active, htasks]
    exact h.idle i
  · rw [credit, credit, htasks]

/-- A new task has not run, and nothing has happened to it. -/
theorem push (h : Balanced s record) (id : Nat) (entry top : UInt32) (log : Log) :
    Balanced { s with tasks := s.tasks.push (.fresh id entry top), log } record := by
  refine ⟨fun i => ?_, fun i => ?_, fun e he => ?_⟩
  · rw [active, Array.getElem?_push]
    split
    · rfl
    · exact h.idle i
  · rw [credit, Array.getElem?_push]
    split
    · rename_i hlast
      rw [charge_eq_zero fun e he => Nat.ne_of_lt (hlast ▸ h.known e he)]
      rfl
    · exact h.charged i
  · have hold := h.known e he
    rw [Array.size_push]
    omega

theorem watch (h : Balanced s record) (i : Nat) (host : Watch) :
    Balanced (s.watchTask i host) record := by
  refine h.of_idle (size_modifyTask s i _) (fun j => ?_) fun j => ?_
  · rw [active, watchTask, getElem?_modifyTask]
    split
    · cases s.tasks[j]? <;> rfl
    · exact h.idle j
  · have hidle := h.idle j
    unfold active at hidle
    rw [credit, credit, watchTask, getElem?_modifyTask]
    split
    · cases htask : s.tasks[j]? with
      | none => rfl
      | some task =>
        rw [htask] at hidle
        have hidle : task.cpu.running = false := hidle
        simp [credited, Task.watched, Task.freshCpu, Cpu.reset, hidle]
    · rfl

theorem interruptible (h : Balanced s record) :
    Balanced { s with tasks := s.tasks.map Scheduler.interruptible } record := by
  refine h.of_idle (by simp) (fun i => ?_) fun i => ?_
  · rw [← h.idle i, active, active, Array.getElem?_map, Option.map_map]
    rfl
  · rw [credit, credit, Array.getElem?_map, Option.map_map]
    rfl

theorem perform (h : Balanced s record) (call : Call) :
    Balanced (call.perform s) (happened call s record) := by
  cases call with
  | load p =>
    refine balanced_empty ?_
    simp only [Call.perform, Scheduler.load]
    split <;> rfl
  | spawn entry =>
    simp only [Call.perform, happened]
    cases hspawn : s.spawn entry with
    | error e => exact h
    | ok t =>
      obtain ⟨top, log, -, rfl⟩ := spawn_eq_ok hspawn
      exact h.push s.tasks.size entry top log
  | tick => exact h.accounted (accounted_tick s)
  | run n => exact h.accounted (accounted_ticks n s)
  | runInterrupted => exact h.interruptible.accounted (accounted_ticks _ _)
  | resize stackSize => exact h.of_tasks rfl
  | rebudget budget => exact h.of_tasks rfl
  | watch i host => exact h.watch i host

theorem ran_eq (h : Balanced s record) {i : Nat} {task : Task} (htask : s.tasks[i]? = some task) :
    task.ran = charge i record := by
  have hidle := h.idle i
  have hcharged := h.charged i
  rw [active, htask] at hidle
  rw [credit, htask] at hcharged
  have hidle : task.cpu.running = false := hidle
  simpa [credited, hidle] using hcharged

theorem instructions_eq (h : Balanced s record) :
    s.instructions = (record.map (·.weight)).sum := by
  have hlist : s.instructions = (s.tasks.toList.map (·.ran)).sum := by
    rw [instructions, ← Array.foldl_toList, List.sum_eq_foldl, List.foldl_map]
  have hknown : ∀ e ∈ record, e.task < s.tasks.toList.length := h.known
  rw [hlist, ← Fin.sum_univ_fun_getElem, ← sum_charge hknown, Finset.sum_range]
  refine Finset.sum_congr rfl fun i _ => h.ran_eq ?_
  rw [← Array.getElem?_toList, List.getElem?_eq_getElem i.isLt]

end Balanced

theorem repetitions_eq_zero_iff (record : Record) :
    repetitions record = 0 ↔ ∀ i counted, .refused i counted ∈ record → counted = 0 := by
  rw [repetitions, List.sum_eq_zero_iff_forall_eq_nat]
  constructor
  · intro h i counted hmem
    exact h counted (List.mem_map_of_mem hmem)
  · intro h n hn
    obtain ⟨e, he, rfl⟩ := List.mem_map.mp hn
    cases e with
    | completed i => rfl
    | refused i counted => exact h i counted he

/-- From a scheduler without tasks on, as a load leaves it, every history puts on the account of
each task what is charged to it. The scheduler reports the completed instructions, each once,
together with those that a task had completed when an attempt to run it again was refused. So the
report is exact as long as no such attempt comes after the first instruction of a run. -/
theorem instructions_exact_unless_refused (s : Scheduler) (hs : s.tasks = #[])
    (history : List Call) :
    let r := after happened history s []
    (∀ i task, r.1.tasks[i]? = some task → task.ran = charge i r.2) ∧
    r.1.instructions = completions r.2 + repetitions r.2 ∧
    (r.1.instructions = completions r.2 ↔ ∀ i counted, .refused i counted ∈ r.2 → counted = 0) := by
  intro r
  have hbalanced : Balanced r.1 r.2 :=
    after_invariant (fun call _ s record hs => hs.perform call) (balanced_empty hs)
  have htotal : r.1.instructions = completions r.2 + repetitions r.2 :=
    hbalanced.instructions_eq.trans (sum_weight r.2)
  refine ⟨fun i task htask => hbalanced.ran_eq htask, htotal, ?_⟩
  rw [← repetitions_eq_zero_iff, htotal]
  omega

/-- A scheduler with a program of one addition and the end of the task. -/
def brief : Scheduler where
  mem := ⟨0x1000, 0x1000, #[([0x0110101f, 0x46].flatMap Memory.wordBytes).toArray], by decide⟩
  program := {
    origin := 0x1000
    lines := #[
      { number := 1, pc := 0, words := ["addq", "s0", "s0", "1"], codes := [0x0110101f] },
      { number := 2, pc := 4, words := ["killtask"], codes := [0x46] }] }

/-- The task of the program, and a tick in which the host ticks during the given fetches of it. -/
def tickedAt (fetches : List Nat) : Scheduler × Record :=
  after happened [.spawn 0x1000, .watch 0 { reenterAt := fetches }, .tick] brief []

/-- A host that ticks during the first fetch of a task does no harm. -/
theorem instructions_exact_unless_refused_first :
    (tickedAt [1]).2 = [.refused 0 0, .completed 0, .completed 0] ∧
    (tickedAt [1]).1.instructions = completions (tickedAt [1]).2 := by
  have hrecord : (tickedAt [1]).2 = [.refused 0 0, .completed 0, .completed 0] := by decide +kernel
  refine ⟨hrecord, ?_⟩
  obtain ⟨-, -, hexact⟩ := instructions_exact_unless_refused brief rfl
    [.spawn 0x1000, .watch 0 { reenterAt := [1] }, .tick]
  refine hexact.mpr fun i counted hmem => ?_
  change .refused i counted ∈ (tickedAt [1]).2 at hmem
  rw [hrecord] at hmem
  simp only [List.mem_cons, Happening.refused.injEq, reduceCtorEq, List.not_mem_nil,
    or_false] at hmem
  exact hmem.2

/-- A host that ticks during the second fetch of a task has the first instruction of the task
counted twice. -/
theorem instructions_repeated :
    (tickedAt [2]).2 = [.completed 0, .refused 0 1, .completed 0] ∧
    completions (tickedAt [2]).2 = 2 ∧ (tickedAt [2]).1.instructions = 3 := by
  decide +kernel

end TaskMachine.Accounting
