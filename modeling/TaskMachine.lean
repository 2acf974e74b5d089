import TaskMachine.Numeral.Power
import TaskMachine.Numeral.Digits
import TaskMachine.Numeral.Radix
import TaskMachine.Numeral.Literal
import TaskMachine.Numeral.Binary
import TaskMachine.Numeral.Shortest
import TaskMachine.Numeral.Rounded
import TaskMachine.Numeral.Real
import TaskMachine.Numeral.Fixed
import TaskMachine.Text.Ranges
import TaskMachine.Text.Blank
import TaskMachine.Text.Letter
import TaskMachine.Text.Printable
import TaskMachine.Text.Lines
import TaskMachine.Text.Utf8
import TaskMachine.Text.Quoted
import TaskMachine.Text.Needle
import TaskMachine.Isa.Register
import TaskMachine.Isa.Opcode
import TaskMachine.Isa.Form
import TaskMachine.Isa.Word
import TaskMachine.Isa.Info
import TaskMachine.Isa.Disassembly
import TaskMachine.Store.Bytes
import TaskMachine.Store.Memory
import TaskMachine.Store.Pool
import TaskMachine.Log
import TaskMachine.Table
import TaskMachine.Processor.Machine
import TaskMachine.Processor.Operation
import TaskMachine.Processor.Action
import TaskMachine.Processor.Run
import TaskMachine.Expr.Interpreter
import TaskMachine.Expr.Token
import TaskMachine.Expr.Tree
import TaskMachine.Expr.Statement
import TaskMachine.Expr.Rope
import TaskMachine.Expr.Rope.Walk
import TaskMachine.Expr.Rope.Zip
import TaskMachine.Expr.Value
import TaskMachine.Expr.Dictionary
import TaskMachine.Expr.Heap
import TaskMachine.Expr.Comparison
import TaskMachine.Expr.Display
import TaskMachine.Expr.Format
import TaskMachine.Expr.Operation
import TaskMachine.Expr.Builtin
import TaskMachine.Expr.Eval
import TaskMachine.Expr.Script
import TaskMachine.Assembler.Error
import TaskMachine.Assembler.Program
import TaskMachine.Assembler.State
import TaskMachine.Assembler.Operand
import TaskMachine.Assembler.Instruction
import TaskMachine.Assembler.Replacement
import TaskMachine.Assembler.Line
import TaskMachine.Assembler.Source
import TaskMachine.Scheduler.Layout
import TaskMachine.Scheduler.Task
import TaskMachine.Scheduler.Tick
import TaskMachine.Cli.Duration
import TaskMachine.Cli.Flag
import TaskMachine.Cli.Invocation
import TaskMachine.Cli.Files
import TaskMachine.Cli.Report
import TaskMachine.Main
import TaskMachine.Proofs.Stateful
import TaskMachine.Proofs.Processor.Bookkeeping
import TaskMachine.Proofs.Processor.Effects
import TaskMachine.Proofs.Processor.Slicing
import TaskMachine.Proofs.Isa.Fields
import TaskMachine.Proofs.Isa.InfoWord
import TaskMachine.Proofs.Store.Constants
import TaskMachine.Proofs.Store.Words
import TaskMachine.Proofs.Processor.Counter
import TaskMachine.Proofs.Processor.Stack
import TaskMachine.Proofs.Assembler.Lines
import TaskMachine.Proofs.Assembler.Reading
import TaskMachine.Proofs.Assembler.Linkage
import TaskMachine.Proofs.Assembler.Immediate
import TaskMachine.Proofs.Assembler.Linking
import TaskMachine.Proofs.Assembler.Length
import TaskMachine.Proofs.Assembler.Placement
import TaskMachine.Proofs.Scheduler.Loading
import TaskMachine.Proofs.Processor.Interleaving
import TaskMachine.Proofs.Scheduler.TimeSlices
import TaskMachine.Proofs.Processor.Atomicity
import TaskMachine.Proofs.Assembler.PlainText
import TaskMachine.Proofs.Numeral.Spelling
import TaskMachine.Proofs.Assembler.Reassembly
import TaskMachine.Proofs.Assembler.Expansions
import TaskMachine.Proofs.Assembler.LocalMarks
import TaskMachine.Proofs.Processor.Parts
import TaskMachine.Proofs.Scheduler.Ticks
import TaskMachine.Proofs.Scheduler.FailedLoad
import TaskMachine.Proofs.Scheduler.StackWindows
import TaskMachine.Proofs.Scheduler.Accounting
import TaskMachine.Proofs.Assembler.History
import TaskMachine.Proofs.Processor.Footprints
import TaskMachine.Proofs.Processor.Independence
import TaskMachine.Proofs.Scheduler.Admission
import TaskMachine.Proofs.Assembler.LineTable
import TaskMachine.Proofs.Scheduler.Attribution
import TaskMachine.Proofs.Assembler.Truncation
import TaskMachine.Proofs.Processor.Branches
import TaskMachine.Proofs.Assembler.NarrowFields
import TaskMachine.Proofs.Processor.ImmediateForms
import TaskMachine.Proofs.Text.Quoting
import TaskMachine.Proofs.Assembler.Rewriting
import TaskMachine.Proofs.Assembler.TextConstants
import TaskMachine.Proofs.Isa.Layouts
import TaskMachine.Proofs.Processor.NarrowParts
import TaskMachine.Proofs.Store.Accesses
import TaskMachine.Proofs.Expr.Scanning
import TaskMachine.Proofs.Expr.Names
import TaskMachine.Proofs.Assembler.Renumbering
import TaskMachine.Proofs.Assembler.Shifting
import TaskMachine.Proofs.Assembler.Stretches
import TaskMachine.Proofs.Assembler.CodeLines
import TaskMachine.Proofs.Assembler.Pasting
import TaskMachine.Proofs.Assembler.Scoping
import TaskMachine.Proofs.Numeral.Literals
import TaskMachine.Proofs.Assembler.ReadBack
import TaskMachine.Proofs.Store.Interning
