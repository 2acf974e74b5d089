import TaskMachine.Expr.Script
import TaskMachine.Proofs.Assembler.Agreement
import TaskMachine.Proofs.Assembler.Linkage

/-!
# Wide immediates survive assembly and execution

A value that is packed into an info word is the value that the machine finds
there, whether it stands in the word or in the pool, and whatever was added to
the pool in between. So an instruction of an assembled program that is written
with a number works with exactly that number.
-/

namespace TaskMachine.Immediate

open Constants Effects Lines Agreement Linkage

/-- The info word that was packed for a value gives it back under every later pool. -/
theorem fetchInfo_packed {before after : Pool} {v : UInt32}
    (hpool : Extends (packed before v).1 after)
    (hsize : (packed before v).1.items.size < 2 ^ 31) {m : Machine}
    (hread : m.mem.read32 m.pc = .ok (packed before v).2) :
    Exec.fetchInfo (some after) m = .ok v (past m) :=
  fetchInfo_of_value hread (value?_extends hpool (value?_packed (.refl _) (.of_size hsize v)))

/-- Linking leaves the info word alone in a line that waits for no more than a distance in its
first word. -/
theorem resolve_info {line out : Line} {s t : Assembly} {w info : UInt32}
    (h : Asm.resolve line s = .ok out t) (hcodes : line.codes = [w, info])
    (hkept : line.target = none ∨ line.link = .half) : ∃ w', out.codes = [w', info] := by
  obtain ⟨-, rfl, -⟩ | ⟨label, offset, htarget, -, hpatch⟩ := resolve_eq_ok h
  · exact ⟨w, hcodes⟩
  · rcases hkept with hnone | hhalf
    · cases hnone.symm.trans htarget
    · obtain ⟨-, log, ⟨u, hu, -, -⟩ | ⟨-, rfl, -⟩⟩ := patch_eq_ok hpatch
      · rw [hhalf] at hu
        cases hu
      · exact ⟨_, by rw [withDistance, hcodes]; rfl⟩

/-- The words of an instruction that was written with a number: the second stands for it. -/
theorem codes_of_number {p : Program} {op : Opcode} {operands : List String} {out : Line}
    (h : Provenance p op operands out) {word : String} {v : UInt32}
    (hword : valueOperand? op.form operands = some word) (hnumber : numberOf? word = some v)
    (hheld : Holdable p.pool v) :
    ∃ w info, out.codes = [w, info] ∧ Word.code w = op.code ∧
      value? (some p.pool) info = some v := by
  obtain ⟨w, hcodes, hpacked, hkept⟩ := h.isAssembled.packs rfl hword hnumber
  obtain ⟨w', hcodes'⟩ := resolve_info h.isResolved hcodes hkept
  obtain ⟨w'', rest, hencoded, hcode, -⟩ := h.encodes
  have hhead : w' = w'' := (List.cons.inj (hcodes'.symm.trans hencoded)).1
  exact ⟨w', _, hcodes', hhead ▸ hcode, value?_packed (hpacked.trans h.assembledPool) hheld⟩

/-- The value that an info word was packed for is the value that the machine fetches, under every
pool that grew from there; and an instruction of a program that is written with a number does what
it does with that number, under the pool of the program. How far that pool grew behind the number
makes no difference, since an item is put in once and keeps its index. -/
theorem immediates_survive [Interpreter] :
    (∀ (s : Assembly) (v : UInt32), ∃ info t, Asm.infoWord v s = .ok info t ∧
      (t.pool.items.size < 2 ^ 31 → ∀ (later : List PoolItem) (m : Machine),
        m.mem.read32 m.pc = .ok info →
          Exec.fetchInfo (some (internAll t.pool later)) m = .ok v (past m))) ∧
    ∀ (a : Assembler) (text : String) (p : Program), (a.parse text).2 = .ok p →
      ∀ line ∈ p.lines,
        ∀ (head : String) (operands : List String) (op : Opcode) (word : String) (v : UInt32),
          line.words = head :: operands → Opcode.ofMnemonic? head = some op →
          valueOperand? op.form operands = some word → numberOf? word = some v →
          Holdable p.pool v →
            ∃ w info, line.codes = [w, info] ∧ Word.code w = op.code ∧
              ∀ m : Machine, m.mem.read32 m.pc = .ok info →
                withInfo? v w m op.action = some (op.action.perform (some p.pool) w m) := by
  constructor
  · intro s v
    refine ⟨_, _, infoWord_apply v s, fun hsize later m hread => ?_⟩
    exact fetchInfo_packed (extends_internAll _ later) hsize hread
  · intro a text p hparse line hline head operands op word v hwords hop hword hnumber hheld
    obtain ⟨head', operands', hwords', hline⟩ := provenance_of_parse hparse hline
    cases hwords.symm.trans hwords'
    obtain ⟨rfl, -⟩ | ⟨-, op', hop', ⟨made⟩⟩ := hline
    · cases hop
    cases hop.symm.trans hop'
    obtain ⟨w, info, hcodes, hcode, hvalue⟩ := codes_of_number made hword hnumber hheld
    refine ⟨w, info, hcodes, hcode, fun m hread => ?_⟩
    obtain ⟨result, hresult⟩ := withInfo?_of_valueOperand? v w m hword
    rw [perform_of_value w hread hvalue hresult]
    exact hresult

/-- One more than the largest number that fits an info word: it is fetched from the pool, also
after a text has been added there, and an addition of it adds it. -/
theorem immediates_survive_pooled :
    (∃ info t, Asm.infoWord 0x40000000 {} = .ok info t ∧
      Exec.fetchInfo (some (internAll t.pool [.text []])) { mem := .zeroed 0 4 } =
        .ok 0x40000000 (past { mem := .zeroed 0 4 })) ∧
    ∃ p w, (({} : Assembler).parse "addi s0 s1 0x40000000").2 = .ok p ∧
      withInfo? 0x40000000 w { mem := .zeroed 0 4 } Opcode.addi.action =
        some (Opcode.addi.action.perform (some p.pool) w { mem := .zeroed 0 4 }) := by
  constructor
  · obtain ⟨info, t, hinfo, hfetch⟩ := immediates_survive.1 {} 0x40000000
    refine ⟨info, t, hinfo, ?_⟩
    rw [infoWord_apply] at hinfo
    cases hinfo
    exact hfetch (by decide +kernel) [.text []] { mem := .zeroed 0 4 } (by decide +kernel)
  · have hparse : (({} : Assembler).parse "addi s0 s1 0x40000000").2 = .ok
        { origin := 0
          lines := #[{ number := 1, pc := 0, words := ["addi", "s0", "s1", "0x40000000"]
                       codes := [0x0014104a, 0] }]
          pool := ⟨#[.integer 0x40000000]⟩ } := by
      decide +kernel
    obtain ⟨w, info, hcodes, -, hperform⟩ := immediates_survive.2 {} _ _ hparse _
      (Array.mem_singleton_self _) "addi" ["s0", "s1", "0x40000000"] .addi "0x40000000" 0x40000000
      rfl (by decide +kernel) rfl (by decide +kernel) (.of_size (by decide) _)
    cases hcodes
    exact ⟨_, _, hparse, hperform { mem := .zeroed 0 4 } (by decide +kernel)⟩

end TaskMachine.Immediate
