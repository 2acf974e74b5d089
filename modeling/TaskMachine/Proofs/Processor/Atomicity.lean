import TaskMachine.Proofs.Processor.Faults

/-!
# What a faulting instruction leaves in memory

An instruction that faults has written nothing, unless it saves registers: these
are written one by one, and those that come before the first unmapped address
stay written. A fault therefore leaves memory as it was exactly when the words
left behind were there already, and so always when there are none.
-/

namespace TaskMachine.Atomicity

open Stateful Effects Words Stack Faults

/-- The words that the instruction at the program counter leaves in memory if it faults. -/
def leftBy (m : Machine) : List (UInt32 × UInt32) :=
  match m.mem.read32 m.pc with
  | .ok word =>
    match Opcode.ofCode? (Word.code word) with
    | some op => leftBehind word (past m) op.action
    | none => []
  | .error _ => []

/-- Entering an instruction shows in the counter only. -/
theorem leftBehind_enter (w : UInt32) (m : Machine) (a : Action) :
    leftBehind w (m.enter m.pc w a) a = leftBehind w (past m) a := by
  have hsaved : saved w (m.enter m.pc w a) = saved w (past m) := by
    rw [saved, saved, enter_regs, past_regs]
  cases a with
  | push => rw [leftBehind, leftBehind, hsaved, enter_mem]; rfl
  | _ => rfl

theorem mem_of_fault {pool : Option Pool} {m m' : Machine} {e : RunError}
    (h : m.step pool = .error e m') : m'.mem = writeAll m.mem (leftBy m) := by
  unfold leftBy
  cases hacc : m.mem.accessible m.pc 4 with
  | false =>
    simp only [Machine.step, hacc] at h
    cases h
    have hread : m.mem.read32 m.pc = .error ⟨m.pc, 4⟩ := if_neg (Bool.eq_false_iff.mp hacc)
    rw [hread]
    rfl
  | true =>
    have hread := read32_of_accessible hacc
    rw [hread]
    cases hop : Opcode.ofCode? (Word.code (m.mem.get32 m.pc)) with
    | none =>
      simp only [Machine.step, hacc, hop] at h
      cases h
      simp only [hop]
      rfl
    | some op =>
      rw [step_of_word hread hop] at h
      split at h
      · cases h
      · rename_i fault t hperform
        cases h
        obtain ⟨-, hmem⟩ := perform_eq_error hperform
        rw [hmem, leftBehind_enter, enter_mem]
        simp only [hop]

/-- Only the opcode that saves registers leaves anything behind. -/
theorem leftBy_eq_nil {m : Machine}
    (h : ∀ word, m.mem.read32 m.pc = .ok word → Opcode.ofCode? (Word.code word) ≠ some .store) :
    leftBy m = [] := by
  unfold leftBy
  split
  · rename_i word hread
    split
    · rename_i op hop
      have hstore : op ≠ .store := fun he => h word hread (he ▸ hop)
      cases op <;> first | rfl | exact absurd rfl hstore
    · rfl
  · rfl

theorem leftBy_of_store {m : Machine} {word : UInt32} (hread : m.mem.read32 m.pc = .ok word)
    (hop : Opcode.ofCode? (Word.code word) = some .store) :
    leftBy m = (saved word (past m)).reverse.takeWhile fun d => m.mem.accessible d.1 4 := by
  unfold leftBy
  rw [hread]
  simp only [hop]
  rfl

/-- Whatever is left behind is a first part of what a push of some word would save. -/
theorem leftBy_cases (m : Machine) : leftBy m = [] ∨
    ∃ word, leftBy m = (saved word (past m)).reverse.takeWhile fun d => m.mem.accessible d.1 4 := by
  unfold leftBy
  split
  · rename_i word hread
    split
    · rename_i op hop
      cases op.action with
      | push => exact .inr ⟨word, rfl⟩
      | _ => exact .inl rfl
    · exact .inl rfl
  · exact .inl rfl

theorem accessible_leftBy {m : Machine} {d : UInt32 × UInt32} (hd : d ∈ leftBy m) :
    m.mem.accessible d.1 4 = true := by
  obtain hnil | ⟨word, hleft⟩ := leftBy_cases m
  · rw [hnil] at hd
    cases hd
  · rw [hleft] at hd
    exact List.all_eq_true.mp List.all_takeWhile d hd

theorem apart_leftBy (m : Machine) : (leftBy m).Pairwise fun d e => Apart d.1 e.1 := by
  obtain hnil | ⟨word, hleft⟩ := leftBy_cases m
  · rw [hnil]
    exact .nil
  · rw [hleft]
    exact (apart_saved word (past m)).sublist (List.takeWhile_sublist _)

/-- A fault leaves memory as it was exactly when the words left behind were there already. Only the
instruction that saves registers leaves any: the words that it comes to before the first one that is
not mapped. After every other fault memory is the same. -/
theorem memory_after_fault {pool : Option Pool} {m m' : Machine} {e : RunError}
    (h : m.step pool = .error e m') :
    ((∀ i, m'.mem.byteAt i = m.mem.byteAt i) ↔ ∀ d ∈ leftBy m, m.mem.read32 d.1 = .ok d.2) ∧
    m'.mem = writeAll m.mem (leftBy m) ∧
    (∀ word, m.mem.read32 m.pc = .ok word → Opcode.ofCode? (Word.code word) = some .store →
      leftBy m = (saved word (past m)).reverse.takeWhile fun d => m.mem.accessible d.1 4) ∧
    ((∀ word, m.mem.read32 m.pc = .ok word → Opcode.ofCode? (Word.code word) ≠ some .store) →
      m'.mem = m.mem) := by
  have hmem := mem_of_fault h
  refine ⟨?_, hmem, fun word hread hop => leftBy_of_store hread hop, fun hother => ?_⟩
  · rw [hmem]
    exact writeAll_unchanged_iff (fun d hd => accessible_leftBy hd) (apart_leftBy m)
  · rw [hmem, leftBy_eq_nil hother]
    rfl

/-- About to save two registers where only the first of their two words is mapped. -/
def overflowing (value : UInt32) : Machine where
  regs := ((Registers.zeroed.put Reg.sp 0x1004).put Reg.pc 0x1004).put (.ofInt 4) value
  mem := ⟨0x1000, 8, #[(Memory.wordBytes 0 ++ Memory.wordBytes
    (Word.ofRegsByte Opcode.store.code (.ofInt 4) (.ofInt 5) 0)).toArray], by decide⟩

/-- The word of the first register is left in memory although the instruction faults. -/
theorem fault_writes_memory :
    ∃ e m', (overflowing 7).step none = .error e m' ∧ m'.mem.read32 0x1000 = .ok 7 ∧
      (overflowing 7).mem.read32 0x1000 = .ok 0 := by
  have hfault : isOk ((overflowing 7).step none) = false := by decide +kernel
  obtain ⟨e, m', hstep⟩ := eq_error_of_not_isOk hfault
  have hleft : leftBy (overflowing 7) = [(0x1000, 7)] := by decide +kernel
  refine ⟨e, m', hstep, ?_, by decide +kernel⟩
  rw [mem_of_fault hstep]
  exact read32_writeAll (fun d hd => accessible_leftBy hd) (apart_leftBy _) (0x1000, 7)
    (by rw [hleft]; exact List.mem_singleton_self _)

/-- A register that is zero is saved where zeros were, so that its word does not show. -/
theorem memory_after_fault_zero :
    ∃ e m', (overflowing 0).step none = .error e m' ∧ leftBy (overflowing 0) = [(0x1000, 0)] ∧
      ∀ i, m'.mem.byteAt i = (overflowing 0).mem.byteAt i := by
  have hfault : isOk ((overflowing 0).step none) = false := by decide +kernel
  obtain ⟨e, m', hstep⟩ := eq_error_of_not_isOk hfault
  have hleft : leftBy (overflowing 0) = [(0x1000, 0)] := by decide +kernel
  refine ⟨e, m', hstep, hleft, (memory_after_fault hstep).1.mpr fun d hd => ?_⟩
  rw [hleft] at hd
  cases List.mem_singleton.mp hd
  decide +kernel

end TaskMachine.Atomicity
