import TaskMachine.Processor.Action

/-!
# Running a machine

`step` fetches, decodes and executes one instruction. `cycle` is the loop of a
run: it checks for a stop request at its top, lets the host act while a word is
being fetched, and steps, until the budget is spent, the task suspends itself
or an instruction faults. `Machine.run` is that loop without a host, and
`Watched.run` the loop under a host that acts at numbered fetches.
-/

namespace TaskMachine

open Numeral

/-- Why a run gave control back. -/
inductive Event where
  | budget
  | stop
  | sleep
  | kill
  | fault
  deriving DecidableEq, Repr

namespace Event

/-- The names of the events, by number. -/
def names : List String := ["budget", "stop", "sleep", "kill", "fault"]

/-- The number of an event. -/
def number : Event → Nat
  | .budget => 0
  | .stop => 1
  | .sleep => 2
  | .kill => 3
  | .fault => 4

/-- The name of an event number. -/
def nameOf (n : Int) : String := kindName "Event" names n

/-- The name of an event. -/
def name (e : Event) : String := nameOf e.number

end Event

/-- What ends a run with a fault. -/
inductive RunError where
  /-- The processor was running already. -/
  | reentrant
  /-- The word fetched from `pc` has an unassigned opcode. -/
  | unassigned (code : UInt8) (pc : UInt32)
  /-- Fetching or executing the word at `pc` faulted; a word that could not be fetched is zero. -/
  | instruction (pc word : UInt32) (fault : Fault)
  deriving DecidableEq, Repr

namespace RunError

/-- The text of a run error. -/
def message : RunError → String
  | .reentrant => "run while already running"
  | .unassigned code pc =>
    "unimplemented opcode 0x" ++ hexPadded 2 code.toNat ++ " at pc=0x" ++ hexWord pc
  | .instruction pc word fault =>
    "pc=0x" ++ hexWord pc ++ " " ++ disassemble word ++ ": " ++ fault.message

/-- The address of the word that faulted, where there is one. -/
def pc? : RunError → Option UInt32
  | .reentrant => none
  | .unassigned _ pc => some pc
  | .instruction pc _ _ => some pc

end RunError

/-- How a run ended. -/
structure Outcome where
  event : Event
  error : Option RunError := none
  deriving DecidableEq, Repr

/-- The event with which an action suspends its task. -/
def Action.suspension : Action → Option Event
  | .kill => some .kill
  | .sleep => some .sleep
  | _ => none

namespace Machine

/-- The log line of an instruction. -/
def stepNote (pc word : UInt32) : String :=
  hexWord pc ++ ": " ++ hexWord word ++ " " ++ disassemble word

/-- The machine as an instruction begins: the counter is past its word, and what it is about to
do has been noted. -/
def enter (m : Machine) (pc word : UInt32) (action : Action) : Machine :=
  let log := m.log.note fun _ => stepNote pc word
  let m := { m with regs := m.regs.put Reg.pc (pc + 4) }
  match action.note? word m.regs with
  | some line => { m with log := log.note line }
  | none => { m with log := log }

/-- One instruction: gives the event with which it suspends the task, if it does. A word that
cannot be fetched or decoded leaves the machine untouched. -/
def step (pool : Option Pool) : EStateM RunError Machine (Option Event) := fun m =>
  let pc := m.pc
  if m.mem.accessible pc 4 then
    let word := m.mem.get32 pc
    match Opcode.ofCode? (Word.code word) with
    | none => .error (.unassigned (Word.code word) pc) m
    | some op =>
      match op.action.perform pool word (m.enter pc word op.action) with
      | .ok _ m => .ok op.action.suspension { m with ran := m.ran + 1 }
      | .error fault m => .error (.instruction pc word fault) m
  else .error (.instruction pc 0 (.address ⟨pc, 4⟩)) m

end Machine

/-- The loop of a run over states `σ`: at most `n` instructions. `arrive` is what happens while a
word is being fetched, after the check for a stop. -/
def cycle {σ : Type} (stopping : σ → Bool) (arrive : σ → σ)
    (step : EStateM RunError σ (Option Event)) : Nat → σ → σ × Outcome
  | 0, s => (s, ⟨.budget, none⟩)
  | n + 1, s =>
    if stopping s then (s, ⟨.stop, none⟩)
    else
      match step (arrive s) with
      | .ok none s => cycle stopping arrive step n s
      | .ok (some event) s => (s, ⟨event, none⟩)
      | .error e s => (s, ⟨.fault, some e⟩)

namespace Cpu

/-- The processor at the start of a run: stop requests from before are forgotten. -/
def started (cpu : Cpu) : Cpu := { cpu with running := true, stopping := false, ran := 0 }

/-- The processor at the end of a run. -/
def finished (cpu : Cpu) : Cpu := { cpu with running := false }

end Cpu

namespace Machine

/-- Executes at most `budget` instructions. A running processor is refused and left alone. -/
def run (pool : Option Pool) (budget : Int) (m : Machine) : Machine × Outcome :=
  if m.running then (m, ⟨.fault, some .reentrant⟩)
  else
    let (m, outcome) :=
      cycle (·.stopping) id (step pool) budget.toNat { m with toCpu := m.toCpu.started }
    ({ m with toCpu := m.toCpu.finished }, outcome)

end Machine

/-- The fetches at which the host acts, counted from one, and the count so far. -/
structure Watch where
  fetches : Nat := 0
  stopAt : List Nat := []
  reenterAt : List Nat := []
  deriving DecidableEq, Repr

namespace Watch

/-- The watch after one more fetch. -/
def advanced (watch : Watch) : Watch := { watch with fetches := watch.fetches + 1 }

/-- Whether the host asks for a stop during the fetch just counted. -/
def stopsNow (watch : Watch) : Bool := watch.stopAt.contains watch.fetches

/-- Whether the host enters again during the fetch just counted. -/
def reentersNow (watch : Watch) : Bool := watch.reenterAt.contains watch.fetches

/-- How many of the fetches at which the host enters again are still to come. -/
def pending (watch : Watch) : Nat :=
  (watch.reenterAt.filter (watch.fetches < ·)).length

end Watch

/-- The outcome of a nested run, and whether the processor was running after it. -/
structure Reentry where
  outcome : Outcome
  running : Bool
  deriving DecidableEq, Repr

/-- A machine whose fetches a host watches, with the results of the host's nested runs. -/
structure Watched where
  machine : Machine
  watch : Watch := {}
  reentries : List Reentry := []
  deriving DecidableEq, Repr

namespace Watched

/-- What the host does during a fetch: it may ask for a stop, and then may try to run the
processor again. -/
def arrive (pool : Option Pool) (s : Watched) : Watched :=
  let watch := s.watch.advanced
  let machine :=
    if watch.stopsNow then { s.machine with toCpu := s.machine.toCpu.stop } else s.machine
  if watch.reentersNow then
    let (machine, outcome) := machine.run pool 1
    { machine, watch, reentries := s.reentries ++ [⟨outcome, machine.running⟩] }
  else { s with machine, watch }

/-- One instruction of the watched machine. -/
def step (pool : Option Pool) : EStateM RunError Watched (Option Event) := fun s =>
  match Machine.step pool s.machine with
  | .ok event machine => .ok event { s with machine }
  | .error e machine => .error e { s with machine }

/-- Executes at most `budget` instructions under the host's eye. -/
def run (pool : Option Pool) (budget : Int) (s : Watched) : Watched × Outcome :=
  if s.machine.running then (s, ⟨.fault, some .reentrant⟩)
  else
    let started := { s with machine := { s.machine with toCpu := s.machine.toCpu.started } }
    let (s, outcome) :=
      cycle (·.machine.stopping) (arrive pool) (step pool) budget.toNat started
    ({ s with machine := { s.machine with toCpu := s.machine.toCpu.finished } }, outcome)

end Watched

end TaskMachine
