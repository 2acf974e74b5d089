import TaskMachine.Cli.Files
import TaskMachine.Cli.Invocation
import TaskMachine.Expr.Script
import TaskMachine.Scheduler.Tick

/-!
# Carrying out an invocation

`asm` lists the words of a program with their source lines, then its constants.
`run` loads the program, spawns its tasks and runs them to the end; then it
shows the registers of every task, also if a task faulted. A `Job` is an
invocation that has come as far as it can without running tasks. Expressions are
evaluated by `Expr.starlark`.
-/

namespace TaskMachine.Cli

open Numeral

/-- Why an invocation failed. -/
inductive Failure where
  | usage (e : UsageError)
  | unopened (path : String) (e : OpenError)
  | assembly (e : AsmError)
  | loading (e : AddressError)
  | schedule (e : ScheduleError)
  /-- The tasks ran for longer than they were given. -/
  | timedOut
  deriving DecidableEq, Repr

/-- The text of a failure. -/
def Failure.message : Failure → String
  | .usage e => e.message
  | .unopened path e => "open " ++ path ++ ": " ++ e.message
  | .assembly e => e.message
  | .loading e => e.message
  | .schedule e => e.message
  | .timedOut => "context deadline exceeded"

/-- What an invocation prints, logs and fails with. -/
structure Report where
  output : String := ""
  log : Array String := #[]
  failure : Option Failure := none
  deriving DecidableEq, Repr

namespace Report

/-- The exit status. -/
def status (r : Report) : Nat := if r.failure.isSome then 1 else 0

/-- The first line of the failure's text. -/
def message? (r : Report) : Option String :=
  r.failure.map fun e => String.ofList (Text.before '\n' e.message.toList)

end Report

/-- The listing of an assembled line. Its text stands beside its first word. -/
def listedLine (origin : UInt32) (line : Line) : List String :=
  let text (w : UInt32) : String :=
    if line.words.head? = some wordDirective then line.text else disassemble w
  let rest := " ; " ++ decimalNat line.number ++ "\n"
  let row (beside : String) (word : UInt32 × UInt32) : String :=
    hexWord word.1 ++ ": " ++ hexWord word.2 ++ "  " ++ padRight 28 beside ++ rest
  match addressed (origin + line.pc) line.codes with
  | [] => []
  | first :: more => row (text first.2) first :: more.map (row "")

/-- The listing of a program. -/
def listing (p : Program) : String :=
  String.join (p.lines.toList.flatMap (listedLine p.origin)) ++
    String.join (p.pool.items.toList.zipIdx.map fun (item, n) =>
      "pool " ++ decimalNat n ++ ": " ++ item.render ++ "\n")

/-- The tasks of a scheduler with their registers, and the instructions executed. -/
def summary (s : Scheduler) : String :=
  String.join (s.tasks.toList.map fun task =>
    "task " ++ decimalNat task.id ++ ": done=" ++ (if task.done then "true" else "false") ++
      " ran=" ++ decimalNat task.ran ++ "\n" ++ task.cpu.dump) ++
    "instructions: " ++ decimalNat s.instructions ++ "\n"

/-- The layout that the options ask for. -/
def Options.layout (o : Options) : Layout :=
  { ({} : Layout).withMemory o.memory with stackSize := o.stack }

/-- A finished report, or tasks that are ready to run for a time. -/
inductive Job where
  | finished (report : Report)
  | ready (s : Scheduler) (timeout : Int)
  deriving DecidableEq, Repr

/-- A scheduler gives up before its tasks run. -/
def Job.failed (s : Scheduler) (e : Failure) : Job :=
  .finished { log := s.log.lines, failure := some e }

/-- Loads a program and spawns its tasks. -/
def spawned (o : Options) (s : Scheduler) (program : Program) : Job :=
  match s.load program with
  | (s, some e) => .failed s (.loading e)
  | (s, none) =>
    match (if o.entry = "" then some program.origin else program.entry? o.entry) with
    | none => .failed s (.assembly (.labelMissing o.entry))
    | some entry =>
      match Scheduler.spawnMany entry o.tasks.toNat s with
      | (s, some e) => .failed s (.schedule e)
      | (s, none) => .ready s o.timeout

/-- The text that a request for help gets. -/
def usage : String :=
  "usage: pip2 [-v] [--memory BYTES] asm FILE\n" ++
  "       pip2 [-v] [--memory BYTES] run FILE [--budget N] [--tasks N] [--timeout D]\n" ++
  "                 [--stack BYTES] [--entry LABEL]\n"

/-- Assembles a source and lists the program. -/
def assembled (o : Options) (text : String) : Job :=
  match (o.layout.assembler o.verbose).parse text with
  | (a, .ok program) => .finished { output := listing program, log := a.assembly.log.lines }
  | (a, .error e) => .finished { log := a.assembly.log.lines, failure := some (.assembly e) }

/-- Assembles a source and gets its tasks ready. -/
def prepared (o : Options) (text : String) : Job :=
  let s := { Scheduler.ofLayout o.layout with
    budget := o.budget
    log := { enabled := o.verbose } }
  match s.assemble text with
  | (s, .ok program) => spawned o s program
  | (s, .error e) => .failed s (.assembly e)

/-- Carries out an invocation up to the running of tasks, given a way to read files. -/
def Invocation.start (read : String → Except OpenError String) : Invocation → Job
  | .help => .finished { output := usage }
  | .noTopic names => .finished { log := #["unknown help topic: " ++ " ".intercalate names] }
  | .asm o path =>
    match read path with
    | .ok text => assembled o text
    | .error e => .finished { failure := some (.unopened path e) }
  | .run o path =>
    match read path with
    | .ok text => prepared o text
    | .error e => .finished { failure := some (.unopened path e) }

/-- The report on tasks that have run. -/
def ranReport (s : Scheduler) (failure : Option Failure) : Report :=
  { output := summary s, log := s.log.lines, failure }

/-- Runs the tasks of a job for as long as they take. -/
def Job.finish : Job → Report
  | .finished report => report
  | .ready s _ =>
    let (s, e) := s.run Scheduler.unlimited
    ranReport s (e.map .schedule)

/-- Carries out a command line over some files. -/
def report (files : Files) (args : List String) : Report :=
  match Invocation.parse args with
  | .error e => { failure := some (.usage e) }
  | .ok invocation => (invocation.start files.read).finish

end TaskMachine.Cli
