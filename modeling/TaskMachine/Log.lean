/-!
# The log

Lines noted along the way, kept only when logging is on. A log never changes
what the noting computation does.
-/

namespace TaskMachine

/-- Whether lines are kept, and the lines so far. -/
structure Log where
  enabled : Bool := false
  lines : Array String := #[]
  deriving DecidableEq, Repr

namespace Log

/-- The log with one more line, if it is on. -/
def note (log : Log) (line : Unit → String) : Log :=
  if log.enabled then { log with lines := log.lines.push (line ()) } else log

/-- The log with its lines taken out. -/
def drained (log : Log) : Log := { log with lines := #[] }

end Log

end TaskMachine
