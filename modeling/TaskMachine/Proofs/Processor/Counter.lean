import TaskMachine.Proofs.Processor.Effects

/-!
# Where the program counter stands after an instruction

The parts of an instruction leave the program counter alone, except for those
that pass the info word. An instruction that neither transfers control nor
writes the counter as a destination therefore ends past its own words: one, or
two if it has an info word, whether it read that word or skipped it.
-/

namespace TaskMachine.Counter

open Stateful Constants Exec Effects

variable {α β : Type}

/-- The actions that transfer control when their condition holds. -/
def conditional : Action → Bool
  | .branchInfo _ | .branchByte _ _ | .branchRegs _ => true
  | _ => false

end TaskMachine.Counter
