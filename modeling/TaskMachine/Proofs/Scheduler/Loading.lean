import TaskMachine.Expr.Script
import TaskMachine.Proofs.Assembler.Agreement
import TaskMachine.Proofs.Assembler.Placement
import TaskMachine.Scheduler.Task

/-!
# A loaded program is in memory where its lines say

The assembler gives every line an offset, and the memory places the words of the
image by their position only. Both agree, because the lines of a program are
without gaps: after a load every word is at the address that its line has, and
nothing else is left in memory.
-/

namespace TaskMachine.Loading

open Words Agreement Placement

/-- What a load that succeeds leaves in memory. -/
theorem load_eq_none {s t : Scheduler} {p : Program} (h : s.load p = (t, none)) :
    (∀ e ∈ addressed p.origin p.image, s.mem.cleared.accessible e.1 4 = true) ∧
    t.mem = writeAll s.mem.cleared (addressed p.origin p.image) := by
  unfold Scheduler.load at h
  split at h
  · rename_i mem hmem
    cases h
    exact Words.load_eq_none hmem
  · cases h

/-- A scheduler assembles as the assembler for its layout does. -/
theorem assemble_eq_parse [Interpreter] (s : Scheduler) (text : String) :
    (s.assemble text).2 = ((s.layout.assembler s.log.enabled).parse text).2 := rfl

theorem byteAt_cleared (m : Memory) (i : Nat) : m.cleared.byteAt i = 0 :=
  Bytes.get_zeros m.data.size i

/-- Memory after a load: the words of the image at their addresses, and zeros. -/
theorem image_in_memory {p : Program} (hfollow : Follow 0 p.lines.toList)
    (hsmall : 4 * p.image.length < 2 ^ 32) {s t : Scheduler} (hload : s.load p = (t, none)) :
    Holds t.mem p.codes ∧
      ∀ i, (∀ e ∈ p.codes, ¬ Covers t.mem e.1 i) → t.mem.byteAt i = 0 := by
  obtain ⟨hacc, hmem⟩ := load_eq_none hload
  rw [codes_eq_addressed hfollow]
  constructor
  · intro e he
    rw [hmem]
    exact read32_writeAll hacc (apart_addressed p.origin (Nat.le_of_lt hsmall)) e he
  · intro i hi
    have hbase : t.mem.base = s.mem.cleared.base := by rw [hmem, base_writeAll]
    have hout : ∀ e ∈ addressed p.origin p.image, ¬ Covers s.mem.cleared e.1 i := by
      intro e he
      have hnot := hi e he
      unfold Covers Memory.offset at hnot ⊢
      rw [hbase] at hnot
      exact hnot
    rw [hmem, byteAt_writeAll hacc hout, byteAt_cleared]

/-- The lines of every accepted source whose image fits the address space are without gaps, at the
addresses that the image has, with every label at a line or at the end; and a program that a
scheduler has assembled and that loads is found at these addresses in a memory of zeros. -/
theorem image_laid_out [Interpreter] :
    (∀ (a : Assembler) (text : String) (p : Program), (a.parse text).2 = .ok p →
      4 * p.image.length < 2 ^ 32 → Contiguous p) ∧
    ∀ (s s' t : Scheduler) (text : String) (p : Program), (s.assemble text).2 = .ok p →
      4 * p.image.length < 2 ^ 32 → s'.load p = (t, none) →
        Holds t.mem p.codes ∧
          ∀ i, (∀ e ∈ p.codes, ¬ Covers t.mem e.1 i) → t.mem.byteAt i = 0 := by
  constructor
  · intro a text p hparse hsmall
    exact contiguous_of_parse hparse hsmall
  · intro s s' t text p hassemble hsmall hload
    rw [assemble_eq_parse] at hassemble
    obtain ⟨hfollow, -⟩ := laid_of_parse hassemble
    exact image_in_memory hfollow hsmall hload

/-- A macro within a macro, a label behind them and one at the end. -/
def nestedSource : String :=
  ".macro one v\n.word v\n.endm\n.macro two\none 7\n.endm\ntwo\nlast: ldi s0 last\nend:"

def nestedProgram : Program where
  origin := 0x1000
  lines := #[
    { number := 2, pc := 0, words := [".word", "7"], codes := [7] },
    { number := 8, pc := 4, words := ["ldi", "s0", "last"], codes := [0x105a, 0x80001004],
      target := some "last", link := .absolute }]
  labels := ⟨[("end", 12), ("last", 4)]⟩

/-- The word of the inner macro comes first, the label behind it is the offset of the load that
follows, and in memory the bytes behind the image are zero. -/
theorem image_laid_out_nested :
    ((Scheduler.ofLayout {}).assemble nestedSource).2 = .ok nestedProgram ∧
    Contiguous nestedProgram ∧
    ∃ t, (Scheduler.ofLayout {}).load nestedProgram = (t, none) ∧
      t.mem.read32 0x1004 = .ok 0x105a ∧ t.mem.byteAt 12 = 0 := by
  have hassemble : ((Scheduler.ofLayout {}).assemble nestedSource).2 = .ok nestedProgram := by
    decide +kernel
  have hsmall : 4 * nestedProgram.image.length < 2 ^ 32 := by decide +kernel
  have hnone : ((Scheduler.ofLayout {}).load nestedProgram).2 = none := by decide +kernel
  have hbase : ((Scheduler.ofLayout {}).load nestedProgram).1.mem.base = 0x1000 := by
    decide +kernel
  have hend : nestedProgram.codes.all (fun e => decide (e.1.toNat - 0x1000 + 4 ≤ 12)) = true := by
    decide +kernel
  have hcontiguous : Contiguous nestedProgram :=
    image_laid_out.1 _ nestedSource nestedProgram (assemble_eq_parse _ _ ▸ hassemble) hsmall
  generalize hload : (Scheduler.ofLayout {}).load nestedProgram = loaded at hnone hbase
  obtain ⟨t, e⟩ := loaded
  cases hnone
  obtain ⟨hholds, hzero⟩ := image_laid_out.2 (Scheduler.ofLayout {}) (Scheduler.ofLayout {}) t
    nestedSource nestedProgram hassemble hsmall hload
  refine ⟨hassemble, hcontiguous, t, rfl, ?_, ?_⟩
  · exact hholds (0x1004, 0x105a) (by decide +kernel)
  · refine hzero 12 fun e he => ?_
    have hlast := of_decide_eq_true (List.all_eq_true.mp hend e he)
    unfold Covers Memory.offset
    rw [hbase]
    change ¬ (_ ∧ 12 < e.1.toNat - 0x1000 + 4)
    omega

end TaskMachine.Loading
