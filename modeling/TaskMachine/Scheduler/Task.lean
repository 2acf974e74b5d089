import TaskMachine.Processor.Run
import TaskMachine.Scheduler.Layout

/-!
# Tasks

A task is a processor with a stack window of its own. All tasks of a scheduler
share its memory and the program loaded there. The stack of a new task lies
right below the one of the task before it, and must end above the program.
-/

namespace TaskMachine

open Numeral

/-- Why the scheduler gave up. -/
inductive ScheduleError where
  /-- The stack of a new task would not fit above the program. -/
  | stackSpace
  /-- A task faulted at `pc`, which the source has on `line`. -/
  | runtime (task : Nat) (pc : UInt32) (line : Nat) (cause : RunError)
  /-- The host called the run off. -/
  | canceled
  deriving DecidableEq, Repr

/-- The text of a scheduler's error. -/
def ScheduleError.message : ScheduleError → String
  | .stackSpace => "no memory left for task stack"
  | .runtime task pc line cause =>
    "task " ++ grouped task ++ " pc=0x" ++ hexWord pc ++ " line " ++ grouped line ++ " " ++
      cause.message
  | .canceled => "context canceled"

/-- What came of a tick: whether no task is left to run, or the fault that ended it. -/
structure TickResult where
  done : Bool
  error : Option ScheduleError := none
  deriving DecidableEq, Repr

/-- A task, how much it has run, and what the host does at its fetches. -/
structure Task where
  id : Nat
  entry : UInt32
  stack : UInt32
  cpu : Cpu
  done : Bool := false
  ran : Nat := 0
  watch : Option Watch := none
  reentries : List TickResult := []
  deriving DecidableEq, Repr

namespace Task

/-- A processor at the start of a task. -/
def freshCpu (entry stack : UInt32) : Cpu := ({} : Cpu).reset entry stack

/-- A task that has not run yet. -/
def fresh (id : Nat) (entry stack : UInt32) : Task :=
  { id, entry, stack, cpu := freshCpu entry stack }

/-- The task on a new processor whose fetches the host watches. -/
def watched (task : Task) (watch : Watch) : Task :=
  { task with cpu := freshCpu task.entry task.stack, watch := some watch, reentries := [] }

end Task

/-- A memory with a program in it and the tasks that run there. -/
structure Scheduler where
  mem : Memory
  program : Program
  tasks : Array Task := #[]
  stackSize : UInt32 := 0x400
  budget : Int := 1000
  log : Log := {}
  deriving DecidableEq, Repr

namespace Scheduler

/-- A scheduler for a layout, with no program and no tasks. -/
def ofLayout (l : Layout) : Scheduler :=
  { mem := Memory.zeroed l.origin l.memorySize
    program := { origin := l.origin }
    stackSize := l.stackSize }

/-- The layout a source is assembled for. -/
def layout (s : Scheduler) : Layout :=
  { origin := s.mem.base
    memorySize := UInt32.ofNat s.mem.data.size
    stackSize := s.stackSize }

/-- Notes a line in the log. -/
def note (s : Scheduler) (line : Unit → String) : Scheduler := { s with log := s.log.note line }

/-- Assembles a source for the scheduler's memory; the scheduler only logs it. -/
def assemble [Interpreter] (s : Scheduler) (text : String) :
    Scheduler × Except AsmError Program :=
  let (a, result) := (s.layout.assembler s.log.enabled).parse text
  ({ s with log := { s.log with lines := s.log.lines ++ a.assembly.log.lines } }, result)

/-- Puts a program into a cleared memory and drops all tasks. A program that does not fit is
not taken as the loaded one. -/
def load (s : Scheduler) (program : Program) : Scheduler × Option AddressError :=
  match s.mem.cleared.load program.origin program.image with
  | (mem, none) => ({ s with mem, program, tasks := #[] }, none)
  | (mem, some e) => ({ s with mem, tasks := #[] }, some e)

/-- Where the stack of the next task begins, if it fits. All numbers are addresses, so that a
stack size past the memory shows as a window that wraps around. -/
def nextStack? (s : Scheduler) : Option UInt32 :=
  let top := s.mem.endAddr - UInt32.ofNat s.tasks.size * s.stackSize
  let bottom := top - s.stackSize
  let limit := s.program.origin + s.program.size
  if s.mem.endAddr < top ∨ top < bottom ∨ bottom < limit then none else some top

/-- Adds a task that starts at an address. -/
def spawn (s : Scheduler) (entry : UInt32) : Except ScheduleError Scheduler :=
  match s.nextStack? with
  | none => .error .stackSpace
  | some top =>
    let id := s.tasks.size
    .ok <| { s with tasks := s.tasks.push (.fresh id entry top) }.note fun _ =>
      "task " ++ decimalNat id ++ ": spawn pc=0x" ++ hexWord entry ++ " sp=0x" ++ hexWord top

/-- Adds several tasks that start at an address, up to the first one that does not fit. -/
def spawnMany (entry : UInt32) : Nat → Scheduler → Scheduler × Option ScheduleError
  | 0, s => (s, none)
  | n + 1, s =>
    match s.spawn entry with
    | .ok s => spawnMany entry n s
    | .error e => (s, some e)

/-- The instructions that all tasks have executed. -/
def instructions (s : Scheduler) : Nat := s.tasks.foldl (fun n task => n + task.ran) 0

/-- Changes a task. -/
def modifyTask (s : Scheduler) (i : Nat) (f : Task → Task) : Scheduler :=
  { s with tasks := s.tasks.modify i f }

/-- Changes the processor of a task. -/
def modifyCpu (s : Scheduler) (i : Nat) (f : Cpu → Cpu) : Scheduler :=
  s.modifyTask i fun task => { task with cpu := f task.cpu }

/-- The processor of a task. -/
def cpuOf (s : Scheduler) (i : Nat) : Cpu :=
  match s.tasks[i]? with
  | some task => task.cpu
  | none => {}

end Scheduler

end TaskMachine
