import TaskMachine.Scheduler.Task

/-!
# Ticks

A tick gives every live task a slice of instructions, in the order the tasks
were spawned. A task that sleeps gives back the rest of its slice, one that
kills itself or faults is retired, and a fault or a stop ends the tick. A host
that watches a task may ask for a tick while the task runs: the nested tick
finds the task running and faults there.
-/

namespace TaskMachine

open Numeral

namespace Scheduler

/-- The slice of a scheduler without a positive budget. -/
def usualSlice : Nat := 1000

/-- The number of instructions in a slice. -/
def slice (s : Scheduler) : Nat := if s.budget ≤ 0 then usualSlice else s.budget.toNat

/-- The processor of a task at the shared memory. -/
def machine (s : Scheduler) (i : Nat) : Machine :=
  { toCpu := s.cpuOf i, mem := s.mem, log := s.log }

/-- The scheduler while the machine of a task holds its memory, its log and that processor. -/
def detached (s : Scheduler) (i : Nat) : Scheduler :=
  { s.modifyCpu i fun _ => {} with mem := Memory.zeroed 0 0, log := {} }

/-- The scheduler with the state that the machine of a task has reached. -/
def withMachine (s : Scheduler) (i : Nat) (m : Machine) : Scheduler :=
  { s.modifyCpu i fun _ => m.toCpu with mem := m.mem, log := m.log }

/-- One instruction of a task. -/
def stepTask (i : Nat) : EStateM RunError Scheduler (Option Event) := fun s =>
  let m := s.machine i
  let s := s.detached i
  match Machine.step (some s.program.pool) m with
  | .ok event m => .ok event (s.withMachine i m)
  | .error e m => .error e (s.withMachine i m)

/-- What the host does during a fetch of a task: it may ask the task to stop, and then may ask
for a tick. -/
def arrive (nested : Scheduler → Scheduler × TickResult) (i : Nat) (s : Scheduler) : Scheduler :=
  match (s.tasks[i]?).bind (·.watch) with
  | none => s
  | some watch =>
    let watch := watch.advanced
    let s := s.modifyTask i fun task =>
      { task with
        watch := some watch
        cpu := if watch.stopsNow then task.cpu.stop else task.cpu }
    if watch.reentersNow then
      let (s, result) := nested s
      s.modifyTask i fun task => { task with reentries := task.reentries ++ [result] }
    else s

/-- Runs a task for a slice under the eye of its host. -/
def runWatched (nested : Scheduler → Scheduler × TickResult) (i : Nat) (s : Scheduler) :
    Scheduler × Outcome :=
  if (s.cpuOf i).running then (s, ⟨.fault, some .reentrant⟩)
  else
    let (s, outcome) :=
      cycle (fun s => (s.cpuOf i).stopping) (arrive nested i) (stepTask i) s.slice
        (s.modifyCpu i Cpu.started)
    (s.modifyCpu i Cpu.finished, outcome)

/-- Runs a task for a slice. One that nobody watches has the memory to itself. -/
def runTask (nested : Scheduler → Scheduler × TickResult) (i : Nat) (s : Scheduler) :
    Scheduler × Outcome :=
  if ((s.tasks[i]?).bind (·.watch)).isSome then s.runWatched nested i
  else
    let m := s.machine i
    let s := s.detached i
    let (m, outcome) := m.run (some s.program.pool) s.slice
    (s.withMachine i m, outcome)

/-- Adds the instructions of a task's last run to its account. -/
def account (s : Scheduler) (i : Nat) (event : Event) : Scheduler :=
  let cpu := s.cpuOf i
  (s.modifyTask i fun task => { task with ran := task.ran + cpu.ran }).note fun _ =>
    "task " ++ decimalNat i ++ ": " ++ event.name ++ " after " ++ decimalNat cpu.ran ++
      " at pc=0x" ++ hexWord cpu.pc

/-- Retires a task. -/
def retire (s : Scheduler) (i : Nat) : Scheduler :=
  s.modifyTask i fun task => { task with done := true }

/-- The error of a task whose run ended with a fault. -/
def runtimeError (s : Scheduler) (i : Nat) (cause : RunError) : ScheduleError :=
  let pc := cause.pc?.getD (s.cpuOf i).pc
  .runtime i pc (s.program.lineNumber pc) cause

/-- Gives slices to the tasks with the given indices; `live` tasks before them go on. -/
def tickTasks (nested : Scheduler → Scheduler × TickResult) :
    List Nat → Nat → Scheduler → Scheduler × TickResult
  | [], live, s => (s, ⟨live = 0, none⟩)
  | i :: rest, live, s =>
    if (s.tasks[i]?).any (·.done) then tickTasks nested rest live s
    else
      let (s, outcome) := s.runTask nested i
      let s := s.account i outcome.event
      match outcome.error, outcome.event with
      | some cause, _ => (s.retire i, ⟨false, some (s.runtimeError i cause)⟩)
      | none, .stop => (s, ⟨false, none⟩)
      | none, .kill => tickTasks nested rest live (s.retire i)
      | none, _ => tickTasks nested rest (live + 1) s

/-- A tick in which ticks may nest to the given depth. -/
def tickWithin : Nat → Scheduler → Scheduler × TickResult
  | 0, s => tickTasks (fun s => (s, ⟨false, none⟩)) (List.range s.tasks.size) 0 s
  | depth + 1, s => tickTasks (tickWithin depth) (List.range s.tasks.size) 0 s

/-- How many ticks the host is still going to ask for; each is asked for once, so ticks do not
nest deeper. -/
def pendingTicks (s : Scheduler) : Nat :=
  s.tasks.foldl (fun n task => n + (task.watch.map (·.pending)).getD 0) 0

/-- Gives every live task one slice. -/
def tick (s : Scheduler) : Scheduler × TickResult := s.tickWithin s.pendingTicks

/-- Ticks until no task is left or a task faults. The host calls the run off before it would
need more ticks than given. -/
def run : Nat → Scheduler → Scheduler × Option ScheduleError
  | 0, s => (s, some .canceled)
  | n + 1, s =>
    let (s, result) := s.tick
    if result.done ∨ result.error ≠ none then (s, result.error) else run n s

/-- More ticks than any run takes. -/
def unlimited : Nat := 0x4000000000000000

/-- Puts a task on a new processor whose fetches the host watches. -/
def watchTask (s : Scheduler) (i : Nat) (watch : Watch) : Scheduler :=
  s.modifyTask i fun task => task.watched watch

/-- The scheduler with the results of nested ticks forgotten. -/
def forgetReentries (s : Scheduler) : Scheduler :=
  { s with tasks := s.tasks.map fun task => { task with reentries := [] } }

/-- The fetches at which a host that wants its run to end asks a task to stop, again and again. -/
def interruptions : List Nat := (List.range 50).map fun n => 1000 * (n + 1)

/-- The task with a host that keeps asking it to stop. -/
def interruptible (task : Task) : Task := { task with watch := some { stopAt := interruptions } }

/-- A run that the host calls off from outside while tasks go round in circles. -/
def runInterrupted (s : Scheduler) : Scheduler × Option ScheduleError :=
  run interruptions.length { s with tasks := s.tasks.map interruptible }

end Scheduler

end TaskMachine
