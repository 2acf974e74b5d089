import TaskMachine.Proofs.Assembler.Agreement
import TaskMachine.Proofs.Store.Words

/-!
# Saved registers come back

A push writes the registers of its range below the stack pointer, the first one
highest, and a pop of the same range reads them upward again from where the push
left the stack pointer. The stack may wrap around the address space, the range
may be empty, and it may hold the stack pointer or the program counter. `saved`
lists the words that a push writes; as long as these words and the stack pointer
are found unchanged, the pop gives every register of the range its old value back.
-/

namespace TaskMachine.Stack

open Stateful Effects Exec Words Agreement
open Word (regA regB laneC)

theorem mem_range {first last r : Reg} : r ∈ Reg.range first last ↔ first ≤ r ∧ r ≤ last := by
  simp [Reg.range]

theorem length_range_le (first last : Reg) : (Reg.range first last).length ≤ 64 := by
  calc (Reg.range first last).length ≤ (List.finRange 64).length := List.length_filter_le _ _
    _ = 64 := List.length_finRange

/-- The words that a push writes, from the lowest address up: the last register of the range is
saved lowest. -/
def saved (w : UInt32) (m : Machine) : List (UInt32 × UInt32) :=
  let rs := Reg.range (regA w) (regB w)
  addressed (m.regs.get Reg.sp - UInt32.ofNat (4 * rs.length)) (rs.reverse.map m.regs.get)

/-! ## Saving -/

theorem sub_four_sub (sp : UInt32) (n : Nat) :
    sp - 4 - UInt32.ofNat (4 * n) = sp - UInt32.ofNat (4 * (n + 1)) := by
  rw [ofNat_four_mul_succ]
  grind

/-- Pushing goes downward, so that in the order of addresses the words come last to first. -/
theorem pushAll_eq_ok {rs : List Reg} {sp top : UInt32} {m m' : Machine}
    (h : pushAll rs sp m = .ok top m') :
    top = sp - UInt32.ofNat (4 * rs.length) ∧
    (∀ e ∈ addressed top (rs.reverse.map m.regs.get), m.mem.accessible e.1 4 = true) ∧
    m' = { m with mem := writeAll m.mem (addressed top (rs.reverse.map m.regs.get)).reverse } := by
  induction rs generalizing sp m with
  | nil =>
    obtain ⟨rfl, rfl⟩ := pure_eq_ok.mp h
    exact ⟨(UInt32.sub_zero _).symm, nofun, rfl⟩
  | cons r rs ih =>
    obtain ⟨v, t, hreg, h⟩ := bind_eq_ok.mp h
    cases hreg
    obtain ⟨_, t, hstore, h⟩ := bind_eq_ok.mp h
    obtain ⟨hacc, rfl⟩ := storeBytes_eq_ok.mp hstore
    obtain ⟨htop, hrest, hm'⟩ := ih h
    have hlast : top + UInt32.ofNat (4 * rs.length) = sp - 4 := by
      rw [htop, UInt32.sub_add_cancel]
    have hall : addressed top ((r :: rs).reverse.map m.regs.get) =
        addressed top (rs.reverse.map m.regs.get) ++ [(sp - 4, m.regs.get r)] := by
      rw [List.reverse_cons, List.map_append, addressed_append, List.length_map,
        List.length_reverse, hlast]
      rfl
    refine ⟨by rw [htop, sub_four_sub, List.length_cons], fun e he => ?_, ?_⟩
    · rw [hall] at he
      rcases List.mem_append.mp he with he | he
      · rw [← accessible_putBytes m.mem (sp - 4) (Memory.wordBytes (m.regs.get r))]
        exact hrest e he
      · cases List.mem_singleton.mp he
        exact hacc
    · rw [hall, List.reverse_append, hm']
      rfl

/-- What a push that succeeds has done. -/
theorem push_eq_ok {pool : Option Pool} {w : UInt32} {m m' : Machine} {u : Unit}
    (h : Action.push.perform pool w m = .ok u m') :
    (∀ e ∈ saved w m, m.mem.accessible e.1 4 = true) ∧
    m'.mem = writeAll m.mem (saved w m).reverse ∧
    m'.regs.get Reg.sp = m.regs.get Reg.sp -
      UInt32.ofNat (4 * (Reg.range (regA w) (regB w)).length) - (laneC w).toUInt32 * 4 := by
  obtain ⟨sp, t, hsp, h⟩ := bind_eq_ok.mp h
  cases hsp
  obtain ⟨top, t, hpush, hset⟩ := bind_eq_ok.mp h
  obtain ⟨rfl, hacc, rfl⟩ := pushAll_eq_ok hpush
  cases hset
  exact ⟨hacc, rfl, get_put_self _ _ _⟩

theorem apart_saved (w : UInt32) (m : Machine) :
    (saved w m).reverse.Pairwise fun d e => Apart d.1 e.1 := by
  have hlen := length_range_le (regA w) (regB w)
  rw [List.pairwise_reverse]
  refine (apart_addressed _ ?_).imp Apart.symm
  rw [List.length_map, List.length_reverse]
  unfold UInt32.size
  omega

/-! ## Restoring -/

/-- Popping reads the words that lie upward from the stack pointer, one for each register. -/
theorem popAll_of_placed {rs : List Reg} {value : Reg → UInt32} {sp : UInt32} {m : Machine}
    (h : Placed (rs.map value) m.mem sp) :
    popAll rs sp m =
      .ok (rs.map fun r => (r, value r), sp + UInt32.ofNat (4 * rs.length)) m := by
  induction rs generalizing sp with
  | nil =>
    refine pure_eq_ok.mpr ⟨?_, rfl⟩
    rw [List.length_nil, Nat.mul_zero]
    exact congrArg (Prod.mk []) (UInt32.add_zero sp)
  | cons r rs ih =>
    unfold popAll
    rw [bind_of_ok (load32_eq_ok.mpr ⟨h.head, rfl⟩), bind_of_ok (ih h.tail), UInt32.add_assoc,
      ← ofNat_four_mul_succ]
    rfl

/-- Registers that are set one after the other hold their values, and the others stay. -/
theorem setAll_values (rs : List Reg) (value : Reg → UInt32) (m : Machine) :
    ∃ regs, setAll (rs.map fun r => (r, value r)) m = .ok () { m with regs := regs } ∧
      (∀ r ∈ rs, regs.get r = value r) ∧ ∀ r ∉ rs, regs.get r = m.regs.get r := by
  induction rs generalizing m with
  | nil => exact ⟨m.regs, rfl, fun r hr => absurd hr List.not_mem_nil, fun r _ => rfl⟩
  | cons q rs ih =>
    obtain ⟨regs, hset, hin, hout⟩ := ih (withReg m q (value q))
    refine ⟨regs, hset, fun r hr => ?_, fun r hr => ?_⟩
    · by_cases hrs : r ∈ rs
      · exact hin r hrs
      · have hq : r = q := (List.mem_cons.mp hr).resolve_right hrs
        subst hq
        rw [hout r hrs]
        exact get_put_self m.regs r (value r)
    · rw [List.mem_cons, not_or] at hr
      rw [hout r hr.2]
      exact get_put_of_ne m.regs (value q) (Ne.symm hr.1)

/-- A pop that finds the saved words above its extra words takes the registers from there. -/
theorem pop_of_placed (pool : Option Pool) {w : UInt32} {m : Machine} {value : Reg → UInt32}
    (h : Placed ((Reg.range (regA w) (regB w)).reverse.map value) m.mem
      (m.regs.get Reg.sp + (laneC w).toUInt32 * 4)) :
    ∃ regs, Action.pop.perform pool w m = .ok () { m with regs := regs } ∧
      regs.get Reg.sp = m.regs.get Reg.sp + (laneC w).toUInt32 * 4 +
        UInt32.ofNat (4 * (Reg.range (regA w) (regB w)).length) ∧
      ∀ r ≠ Reg.sp, (regA w ≤ r ∧ r ≤ regB w → regs.get r = value r) ∧
        (¬ (regA w ≤ r ∧ r ≤ regB w) → regs.get r = m.regs.get r) := by
  obtain ⟨regs, hset, hin, hout⟩ := setAll_values (Reg.range (regA w) (regB w)).reverse value m
  have hpop := popAll_of_placed h
  rw [List.length_reverse] at hpop
  refine ⟨regs.put Reg.sp _, ?_, get_put_self _ _ _, fun r hr => ?_⟩
  · change (popAll _ _ >>= _) m = _
    rw [bind_of_ok hpop]
    change (setAll _ >>= _) m = _
    rw [bind_of_ok hset]
    rfl
  · rw [get_put_of_ne _ _ (Ne.symm hr), ← mem_range, ← List.mem_reverse]
    exact ⟨hin r, hout r⟩

/-- A store of registers writes the words that it saves and nothing else. From any later state with
the stack pointer it left and with these words unchanged, a restore of the same range succeeds and
gives the registers of the range and the stack pointer the values they had; it changes no other
register and no memory. -/
theorem restore_undoes_store {pool : Option Pool} {w : UInt32} {m m₁ : Machine}
    (hstore : Opcode.store.action.perform pool w m = .ok () m₁) :
    (∀ e ∈ saved w m, m₁.mem.read32 e.1 = .ok e.2) ∧
    (∀ i, (∀ e ∈ saved w m, ¬ Covers m.mem e.1 i) → m₁.mem.byteAt i = m.mem.byteAt i) ∧
    ∀ (pool' : Option Pool) (w' : UInt32) (m₂ : Machine),
      regA w' = regA w → regB w' = regB w → laneC w' = laneC w →
      m₂.regs.get Reg.sp = m₁.regs.get Reg.sp →
      (∀ e ∈ saved w m, m₂.mem.read32 e.1 = m₁.mem.read32 e.1) →
        ∃ regs, Opcode.restore.action.perform pool' w' m₂ = .ok () { m₂ with regs := regs } ∧
          (∀ r, regA w ≤ r ∧ r ≤ regB w → regs.get r = m.regs.get r) ∧
          regs.get Reg.sp = m.regs.get Reg.sp ∧
          ∀ r, ¬ (regA w ≤ r ∧ r ≤ regB w) → r ≠ Reg.sp → regs.get r = m₂.regs.get r := by
  obtain ⟨hacc, hmem, hsp⟩ := push_eq_ok hstore
  have hacc' : ∀ e ∈ (saved w m).reverse, m.mem.accessible e.1 4 = true :=
    fun e he => hacc e (List.mem_reverse.mp he)
  have hread : ∀ e ∈ saved w m, m₁.mem.read32 e.1 = .ok e.2 := by
    intro e he
    rw [hmem]
    exact read32_writeAll hacc' (apart_saved w m) e (List.mem_reverse.mpr he)
  refine ⟨hread, fun i hi => ?_, fun pool' w' m₂ hA hB hC hsp₂ hmem₂ => ?_⟩
  · rw [hmem]
    exact byteAt_writeAll hacc' fun e he => hi e (List.mem_reverse.mp he)
  · -- Both instructions agree on where the saved words begin.
    have hframe : m₂.regs.get Reg.sp + (laneC w').toUInt32 * 4 =
        m.regs.get Reg.sp - UInt32.ofNat (4 * (Reg.range (regA w) (regB w)).length) := by
      rw [hsp₂, hsp, hC, UInt32.sub_add_cancel]
    have hplaced : Placed ((Reg.range (regA w') (regB w')).reverse.map m.regs.get) m₂.mem
        (m₂.regs.get Reg.sp + (laneC w').toUInt32 * 4) := by
      rw [hframe, hA, hB]
      intro e he
      rw [hmem₂ e he, hread e he]
    obtain ⟨regs, hperform, htop, hregs⟩ := pop_of_placed pool' hplaced
    rw [hframe, hA, hB, UInt32.sub_add_cancel] at htop
    rw [hA, hB] at hregs
    refine ⟨regs, hperform, fun r hr => ?_, htop, fun r hr hne => ?_⟩
    · by_cases he : r = Reg.sp
      · rw [he, htop]
      · exact (hregs r he).1 hr
    · exact (hregs r hne).2 hr

/-- The stack pointer, the return address and the register after them, with two extra words. -/
def frameWord (op : Opcode) : UInt32 := Word.ofRegsByte op.code Reg.sp (.ofInt 3) 2

def frameMachine : Machine where
  regs := (Registers.zeroed.put Reg.sp 0x120).put Reg.ra 7
  mem := .zeroed 0x100 0x20

/-- A return address that was overwritten in between comes back, and so does the stack pointer,
which is itself among the saved registers. -/
theorem restore_undoes_store_frame :
    ∃ m₁ regs, Opcode.store.action.perform none (frameWord .store) frameMachine = .ok () m₁ ∧
      Opcode.restore.action.perform none (frameWord .restore) (withReg m₁ Reg.ra 0) =
        .ok () { m₁ with regs := regs } ∧
      regs.get Reg.ra = 7 ∧ regs.get Reg.sp = 0x120 := by
  have hok : isOk (Opcode.store.action.perform none (frameWord .store) frameMachine) = true := by
    decide +kernel
  obtain ⟨_, m₁, hstore⟩ := eq_ok_of_isOk hok
  obtain ⟨-, -, hrestore⟩ := restore_undoes_store hstore
  have hsp : (withReg m₁ Reg.ra 0).regs.get Reg.sp = m₁.regs.get Reg.sp :=
    get_put_of_ne m₁.regs 0 (by decide)
  obtain ⟨regs, hperform, hrange, htop, -⟩ := hrestore none (frameWord .restore)
    (withReg m₁ Reg.ra 0) (by decide +kernel) (by decide +kernel) (by decide +kernel) hsp
    fun _ _ => rfl
  refine ⟨m₁, regs, hstore, hperform, ?_, ?_⟩
  · rw [hrange Reg.ra (by decide +kernel)]
    decide +kernel
  · rw [htop]
    decide +kernel

end TaskMachine.Stack
