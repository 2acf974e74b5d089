import TaskMachine.Isa.Disassembly

/-!
# The mark of an info word in instruction text

The text of an instruction word shows `#` for an operand that follows in an info
word. No mnemonic, register name or number has that character, so it is there
exactly for the forms that have an info word.
-/

namespace TaskMachine.InfoMark

open Numeral

/-- The forms whose instructions are followed by an info word. -/
def hasInfo : Form → Bool
  | .regs2Info | .compareInfo | .compareRegs | .regInfo => true
  | _ => false

end TaskMachine.InfoMark
