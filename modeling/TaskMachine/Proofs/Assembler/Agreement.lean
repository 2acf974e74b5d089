import TaskMachine.Proofs.Assembler.Lines
import TaskMachine.Proofs.Processor.Counter

/-!
# The assembler and the machine agree on opcodes

The assembler goes by the form of an opcode, the machine by its action. The two
classify the opcodes in the same way: an info word is emitted where one is read
or skipped, a value where one is used, and a target where a distance is taken.
An instruction whose words lie in memory is then stepped as what it was
assembled to be.
-/

namespace TaskMachine.Agreement

open Constants Effects Counter Lines
open InfoMark (hasInfo)

theorem ofCode?_code (op : Opcode) : Opcode.ofCode? op.code = some op := by cases op <;> rfl

theorem mnemonic_of_ofMnemonic? {name : String} {op : Opcode}
    (h : Opcode.ofMnemonic? name = some op) : op.mnemonic = name := by
  have hfound := List.find?_some h
  exact eq_of_beq hfound

theorem takesInfo_action (op : Opcode) : takesInfo op.action = hasInfo op.form := by
  cases op <;> rfl

/-- The opcodes written with a value are those whose action works with one. -/
theorem withInfo?_of_valueOperand? (v w : UInt32) (m : Machine) {op : Opcode}
    {operands : List String} {word : String} (h : valueOperand? op.form operands = some word) :
    ∃ result, withInfo? v w m op.action = some result := by
  have hform : op.form = .regs2Info ∨ op.form = .compareInfo ∨ op.form = .regInfo := by
    unfold valueOperand? at h
    split at h
    · exact .inl ‹_›
    · exact .inr (.inl ‹_›)
    · exact .inr (.inr ‹_›)
    · cases h
  clear h
  cases op <;> first | exact ⟨_, rfl⟩ | rcases hform with h | h | h <;> cases h

/-- What an opcode does that is written with a target. -/
inductive Targets : LinkKind → Opcode → Prop
  | half {op : Opcode} (c : Condition) (h : op.action = .branchInfo c) : Targets .half op
  | byte {op : Opcode} (c : Condition) (s : Bool) (h : op.action = .branchByte c s) :
    Targets .byte op
  | info {op : Opcode} (c : Condition) (h : op.action = .branchRegs c) : Targets .info op
  | jump : Targets .word .jpl
  | call : Targets .word .calll
  | absolute : Targets .absolute .ldi

theorem targets_of_link (op : Opcode) (h : linkOf op.form ≠ .none) :
    Targets (linkOf op.form) op := by
  cases op <;> first
    | exact absurd rfl h
    | exact .half _ rfl
    | exact .byte _ _ rfl
    | exact .info _ rfl
    | exact .jump
    | exact .call
    | exact .absolute

/-- The opcodes that a label can be written after. -/
theorem Targets.opcode {kind : LinkKind} {op : Opcode} (h : Targets kind op) :
    op = .ldi ∨ op = .jpl ∨ op = .calll ∨ conditional op.action = true := by
  cases h with
  | half c haction => exact .inr (.inr (.inr (by rw [haction]; rfl)))
  | byte c signed haction => exact .inr (.inr (.inr (by rw [haction]; rfl)))
  | info c haction => exact .inr (.inr (.inr (by rw [haction]; rfl)))
  | jump => exact .inr (.inl rfl)
  | call => exact .inr (.inr (.inl rfl))
  | absolute => exact .inl rfl

/-! ## Words in memory -/

/-- Memory has the words at the addresses. -/
def Holds (mem : Memory) (entries : List (UInt32 × UInt32)) : Prop :=
  ∀ entry ∈ entries, mem.read32 entry.1 = .ok entry.2

theorem holds_of_all {mem : Memory} {entries : List (UInt32 × UInt32)}
    (h : (entries.all fun entry => decide (mem.read32 entry.1 = .ok entry.2)) = true) :
    Holds mem entries :=
  fun entry hentry => of_decide_eq_true (List.all_eq_true.mp h entry hentry)

/-- The words lie in memory one after the other from an address on. -/
def Placed (codes : List UInt32) (mem : Memory) (addr : UInt32) : Prop :=
  Holds mem (addressed addr codes)

theorem Placed.head {w : UInt32} {rest : List UInt32} {mem : Memory} {addr : UInt32}
    (h : Placed (w :: rest) mem addr) : mem.read32 addr = .ok w :=
  h (addr, w) List.mem_cons_self

theorem Placed.tail {w : UInt32} {rest : List UInt32} {mem : Memory} {addr : UInt32}
    (h : Placed (w :: rest) mem addr) : Placed rest mem (addr + 4) :=
  fun entry hentry => h entry (List.mem_cons_of_mem _ hentry)

/-- The info word of an instruction, zero for one that has none. -/
def infoOf (codes : List UInt32) : UInt32 := codes.getD 1 0

theorem Placed.info {op : Opcode} {codes : List UInt32} (hcodes : Encodes op codes)
    {mem : Memory} {addr : UInt32} (h : Placed codes mem addr)
    (htakes : takesInfo op.action = true) : mem.read32 (addr + 4) = .ok (infoOf codes) := by
  obtain ⟨w, rest, rfl, -, hrest⟩ := hcodes
  rw [← takesInfo_action, htakes] at hrest
  obtain ⟨info, rfl⟩ := List.length_eq_one_iff.mp hrest
  exact h.tail.head

/-- The info word lies where the program counter stands once the instruction has been entered. -/
theorem Placed.enter_info {op : Opcode} {w : UInt32} {rest : List UInt32} {m : Machine}
    (hcodes : Encodes op (w :: rest)) (h : Placed (w :: rest) m.mem m.pc)
    (htakes : takesInfo op.action = true) :
    (m.enter m.pc w op.action).mem.read32 (m.enter m.pc w op.action).pc =
      .ok (infoOf (w :: rest)) := by
  rw [enter_mem, pc_enter]
  exact h.info hcodes htakes

/-- An encoded instruction is stepped as its opcode's action on its first word. -/
theorem step_of_encodes {pool : Option Pool} {op : Opcode} {w : UInt32} {rest : List UInt32}
    {m : Machine} (hcodes : Encodes op (w :: rest)) (hplaced : Placed (w :: rest) m.mem m.pc) :
    Machine.step pool m =
      match op.action.perform pool w (m.enter m.pc w op.action) with
      | .ok _ m' => .ok op.action.suspension { m' with ran := m'.ran + 1 }
      | .error fault m' => .error (.instruction m.pc w fault) m' := by
  obtain ⟨w', rest', hcons, hcode, -⟩ := hcodes
  cases hcons
  exact step_of_word hplaced.head (by rw [hcode, ofCode?_code])

/-- A machine that is about to carry out an instruction of two words, or of the first of them, with
two numbers in its registers. -/
def facing (word info x y : UInt32) : Machine where
  regs := ((Registers.zeroed.put Reg.pc 0x100).put (.ofInt 5) x).put (.ofInt 6) y
  mem := ⟨0x100, 8, #[(Memory.wordBytes word ++ Memory.wordBytes info).toArray],
    show 8 ≤ 1 * pageSize by decide⟩

end TaskMachine.Agreement
