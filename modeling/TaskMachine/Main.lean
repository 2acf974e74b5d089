import TaskMachine.Cli.Report

/-!
# The program

Reads the file that the command line names, runs its tasks against the clock if
they are given a time, and prints the report.
-/

namespace TaskMachine.Cli

/-- The system's code for reading from a directory. -/
def directoryCode : UInt32 := 21

/-- The system's code for a name or path that is too long. -/
def tooLongCode : UInt32 := 36

/-- What can be read at a path. Nothing can be in a directory. -/
def readSource (path : String) : IO (Except OpenError String) := do
  try
    return .ok (← IO.FS.readFile path)
  catch e =>
    match e with
    | .inappropriateType _ code _ =>
      return if code = directoryCode then .ok "" else .error .notDirectory
    | .invalidArgument _ code _ =>
      return .error (if code = tooLongCode then .tooLong else .invalid)
    | _ => return .error .missing

/-- Ticks until the tasks are done, a task faults, or the clock passes the deadline. -/
partial def runUntil (deadline : Nat) (s : Scheduler) : IO Report := do
  if deadline ≤ (← IO.monoNanosNow) then return ranReport s (some .timedOut)
  let (s, result) := s.tick
  if result.done ∨ result.error ≠ none then return ranReport s (result.error.map .schedule)
  runUntil deadline s

/-- Finishes a job, within its time if it has one. -/
def finishJob : Job → IO Report
  | .ready s timeout => do
    if 0 < timeout then runUntil ((← IO.monoNanosNow) + timeout.toNat) s
    else return (Job.ready s timeout).finish
  | job => return job.finish

/-- Carries out a command line. -/
def carryOut (args : List String) : IO Report :=
  match Invocation.parse args with
  | .error e => return { failure := some (.usage e) }
  | .ok invocation => do
    let source ←
      match invocation.path? with
      | some path => readSource path
      | none => pure (.ok "")
    finishJob (invocation.start fun _ => source)

end TaskMachine.Cli

/-- Carries out the command line and prints the report. -/
def main (args : List String) : IO UInt32 := do
  let report ← TaskMachine.Cli.carryOut args
  for line in report.log do
    IO.eprintln line
  IO.print report.output
  if let some message := report.message? then
    IO.eprintln ("Error: " ++ message)
  return UInt32.ofNat report.status
