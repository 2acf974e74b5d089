import TaskMachine.Proofs.Assembler.Linkage
import TaskMachine.Proofs.Store.Words
import TaskMachine.Proofs.Tables

/-!
# Where the lines of a program lie

Lines are appended one by one, labels are bound before the line they stand at is
emitted, and macros append the lines of their bodies in the same way. Whatever
the source, the lines lie one after the other from offset zero without a gap,
and every label is the offset of a line or of the end. Linking changes the words
of a line but not how many there are, so that the image of the program is its
words at consecutive addresses from the origin on.
-/

namespace TaskMachine.Placement

open Stateful Lines Reading Linkage Words Asm

/-- The words of some lines, one line after the other. -/
def wordsIn (lines : List Line) : List UInt32 := lines.flatMap (·.codes)

/-- The offset behind some lines, the first of which stands at `pc`. -/
def offsetAfter (pc : UInt32) (lines : List Line) : UInt32 :=
  pc + UInt32.ofNat (4 * (wordsIn lines).length)

/-- The lines lie one after the other from `pc` on, and none of them is empty. -/
def Follow : UInt32 → List Line → Prop
  | _, [] => True
  | pc, line :: rest => line.pc = pc ∧ line.codes ≠ [] ∧ Follow (pc + line.size) rest

@[simp]
theorem wordsIn_cons (line : Line) (rest : List Line) :
    wordsIn (line :: rest) = line.codes ++ wordsIn rest := List.flatMap_cons

@[simp]
theorem wordsIn_append (xs ys : List Line) : wordsIn (xs ++ ys) = wordsIn xs ++ wordsIn ys :=
  List.flatMap_append

theorem offsetAfter_nil (pc : UInt32) : offsetAfter pc [] = pc := UInt32.add_zero pc

theorem offsetAfter_cons (pc : UInt32) (line : Line) (rest : List Line) :
    offsetAfter pc (line :: rest) = offsetAfter (pc + line.size) rest := by
  rw [offsetAfter, offsetAfter, wordsIn_cons, List.length_append, Nat.mul_add, UInt32.ofNat_add,
    ← UInt32.add_assoc, Line.size, Nat.mul_comm 4 line.codes.length]

theorem offsetAfter_append (pc : UInt32) (xs ys : List Line) :
    offsetAfter pc (xs ++ ys) = offsetAfter (offsetAfter pc xs) ys := by
  induction xs generalizing pc with
  | nil => rw [List.nil_append, offsetAfter_nil]
  | cons x xs ih => rw [List.cons_append, offsetAfter_cons, offsetAfter_cons, ih]

theorem follow_append {pc : UInt32} {xs ys : List Line} :
    Follow pc (xs ++ ys) ↔ Follow pc xs ∧ Follow (offsetAfter pc xs) ys := by
  induction xs generalizing pc with
  | nil =>
    rw [List.nil_append, offsetAfter_nil]
    exact ⟨fun h => ⟨trivial, h⟩, fun h => h.2⟩
  | cons x xs ih =>
    rw [List.cons_append, Follow, Follow, ih, offsetAfter_cons, and_assoc, and_assoc]

/-- The offset of the next word is the one behind all lines. -/
theorem endOffset_of_follow {lines : Array Line} (h : Follow 0 lines.toList) :
    endOffset lines = offsetAfter 0 lines.toList := by
  unfold endOffset
  rw [← Array.getLast?_toList]
  rcases List.eq_nil_or_concat lines.toList with hnil | ⟨init, last, hlast⟩
  · rw [hnil]
    rfl
  · rw [hlast, List.concat_eq_append] at h ⊢
    obtain ⟨-, hpc, -, -⟩ := follow_append.mp h
    rw [List.getLast?_concat]
    change last.pc + last.size = _
    rw [hpc, offsetAfter_append, offsetAfter_cons, offsetAfter_nil]

/-! ## Reading -/

/-- Lines without gaps, and labels that mark a line or the end. -/
structure Laid (s : Assembly) : Prop where
  lines : Follow 0 s.lines.toList
  labels : ∀ e ∈ s.labels.entries, (∃ line ∈ s.lines, e.2 = line.pc) ∨ e.2 = endOffset s.lines

theorem Laid.of_same {s t : Assembly} (h : Laid s) (hlines : t.lines = s.lines)
    (hlabels : t.labels = s.labels) : Laid t := by
  obtain ⟨hfollow, hoffsets⟩ := h
  rw [← hlines] at hfollow hoffsets
  rw [← hlabels] at hoffsets
  exact ⟨hfollow, hoffsets⟩

theorem Laid.label {s : Assembly} (h : Laid s) (label : String) :
    Laid { s with labels := s.labels.insert label (endOffset s.lines) } where
  lines := h.lines
  labels := by
    intro e he
    rcases Tables.mem_place he with rfl | he
    · exact .inr rfl
    · exact h.labels e he

/-- The new line stands where the lines ended, so labels that marked the end now mark it. -/
theorem Laid.emit {s t : Assembly} {number : Nat} {head : String} {operands : List String}
    {line : Line} (h : Laid s)
    (hline : lineOf { number, pc := endOffset s.lines, words := head :: operands } head operands s =
      .ok line t) :
    Laid { t with lines := t.lines.push line } := by
  have hquiet := lineOf_quiet _ _ _ s line t hline
  have hpc : line.pc = endOffset s.lines := (lineOf_samePlace hline).pc
  constructor
  · change Follow 0 (t.lines.push line).toList
    rw [Array.toList_push, hquiet.lines]
    refine follow_append.mpr ⟨h.lines, ?_, lineOf_codes_ne_nil hline, trivial⟩
    rw [hpc, endOffset_of_follow h.lines]
  · intro e he
    left
    rcases h.labels e (hquiet.labels ▸ he) with ⟨old, hold, hoffset⟩ | hoffset
    · exact ⟨old, Array.mem_push_of_mem line (hquiet.lines ▸ hold), hoffset⟩
    · exact ⟨line, Array.mem_push_self, hoffset.trans hpc.symm⟩

theorem stable_laid : Stable fun s t => Laid s → Laid t where
  refl _ h := h
  trans hst htu h := htu (hst h)
  log _ _ h := h.of_same rfl rfl
  equates _ _ h := h.of_same rfl rfl
  macros _ _ h := h.of_same rfl rfl
  pool _ _ h := h.of_same rfl rfl
  label _ label _ h := h.label label
  emit hline h := h.emit hline

/-! ## Linking -/

/-- The two lines stand at one offset and have equally many words. -/
def SameExtent (line out : Line) : Prop :=
  out.pc = line.pc ∧ out.codes.length = line.codes.length

theorem sameExtent_of_resolved {s : Assembly} {pool : Pool} {line out : Line}
    (h : Resolved s pool line out) : SameExtent line out := by
  obtain ⟨t, u, -, -, -, hresolve, -⟩ := h
  exact ⟨(resolve_samePlace hresolve).1.pc, resolve_length hresolve⟩

theorem Follow.of_sameExtent {pc : UInt32} {lines outs : List Line}
    (h : List.Forall₂ SameExtent lines outs) (hfollow : Follow pc lines) : Follow pc outs := by
  induction h generalizing pc with
  | nil => trivial
  | @cons line out lines outs hext hrest ih =>
    obtain ⟨hpc, hcodes, hfollow⟩ := hfollow
    have hsize : out.size = line.size := by rw [Line.size, Line.size, hext.2]
    refine ⟨hext.1.trans hpc, ?_, hsize ▸ ih hfollow⟩
    rw [← List.length_pos_iff, hext.2, List.length_pos_iff]
    exact hcodes

theorem length_wordsIn_of_sameExtent {lines outs : List Line}
    (h : List.Forall₂ SameExtent lines outs) :
    (wordsIn outs).length = (wordsIn lines).length := by
  induction h with
  | nil => rfl
  | cons hext hrest ih =>
    rw [wordsIn_cons, wordsIn_cons, List.length_append, List.length_append, hext.2, ih]

/-- The lines of a program lie one after the other, and its labels mark a line or the end. -/
theorem laid_of_parse [Interpreter] {a : Assembler} {text : String} {p : Program}
    (h : (a.parse text).2 = .ok p) :
    Follow 0 p.lines.toList ∧
      ∀ e ∈ p.labels.entries, (∃ line ∈ p.lines, e.2 = line.pc) ∨ e.2 = p.size := by
  obtain ⟨s, t, hread, hresolve, rfl⟩ := parse_eq_ok h
  have hlaid : Laid s := stable_laid.takeLines 1 "" none _ a.start () s hread ⟨trivial, nofun⟩
  obtain ⟨hlabels, -, -, outs, houts, hresolved⟩ :=
    resolveAll_eq_ok (List.nil_append s.lines.toList).symm hresolve
  have hext := hresolved.imp fun _ _ hres => sameExtent_of_resolved hres
  rw [List.nil_append] at houts
  have hfollow : Follow 0 t.lines.toList := houts ▸ hlaid.lines.of_sameExtent hext
  have hend : endOffset t.lines = endOffset s.lines := by
    rw [endOffset_of_follow hfollow, endOffset_of_follow hlaid.lines, offsetAfter, offsetAfter,
      houts, length_wordsIn_of_sameExtent hext]
  refine ⟨hfollow, fun e he => ?_⟩
  rcases hlaid.labels e (hlabels ▸ he) with ⟨line, hline, hoffset⟩ | hoffset
  · obtain ⟨out, hout, hsame⟩ := exists_right_of_mem hext (Array.mem_toList_iff.mpr hline)
    have hmem : out ∈ t.lines := by
      rw [← Array.mem_toList_iff, houts]
      exact hout
    exact .inl ⟨out, hmem, hoffset.trans hsame.1.symm⟩
  · exact .inr (hoffset.trans hend.symm)

/-! ## The image -/

/-- The lines of the program are without gaps from offset zero on, the image is their words at
consecutive addresses, and labels mark a line or the end. -/
structure Contiguous (p : Program) : Prop where
  first : ∀ line, p.lines[0]? = some line → line.pc = 0
  nonempty : ∀ line ∈ p.lines, 0 < line.codes.length
  next : ∀ i line after, p.lines[i]? = some line → p.lines[i + 1]? = some after →
    after.pc.toNat = line.pc.toNat + 4 * line.codes.length
  size : p.size.toNat = 4 * p.image.length
  codes : ∀ k, p.codes[k]? = p.image[k]?.map fun w => (p.origin + UInt32.ofNat (4 * k), w)
  labels : ∀ e ∈ p.labels.entries, (∃ line ∈ p.lines, e.2 = line.pc) ∨ e.2 = p.size

theorem image_eq (p : Program) : p.image = wordsIn p.lines.toList := by
  unfold Program.image Program.codes wordsIn
  rw [List.map_flatMap]
  exact congrArg (p.lines.toList.flatMap ·) (funext fun line => map_snd_addressed _ line.codes)

theorem size_of_parse [Interpreter] {a : Assembler} {text : String} {p : Program}
    (h : (a.parse text).2 = .ok p) : p.size = UInt32.ofNat (4 * p.image.length) := by
  rw [Program.size, endOffset_of_follow (laid_of_parse h).1, offsetAfter, UInt32.zero_add, image_eq]

/-- Lines that follow each other address their words as one sequence does. -/
theorem flatMap_addressed (origin : UInt32) {pc : UInt32} {lines : List Line}
    (h : Follow pc lines) :
    (lines.flatMap fun line => addressed (origin + line.pc) line.codes) =
      addressed (origin + pc) (wordsIn lines) := by
  induction lines generalizing pc with
  | nil => rfl
  | cons line rest ih =>
    obtain ⟨rfl, -, hrest⟩ := h
    rw [List.flatMap_cons, ih hrest, wordsIn_cons, addressed_append, Line.size,
      Nat.mul_comm line.codes.length 4, UInt32.add_assoc]

theorem codes_eq_addressed {p : Program} (h : Follow 0 p.lines.toList) :
    p.codes = addressed p.origin p.image := by
  rw [image_eq, Program.codes, flatMap_addressed p.origin h, UInt32.add_zero]

/-- In an image that fits the address space no offset wraps around. -/
theorem toNat_offsetAfter {lines : List Line} (h : 4 * (wordsIn lines).length < 2 ^ 32) :
    (offsetAfter 0 lines).toNat = 4 * (wordsIn lines).length := by
  rw [offsetAfter, UInt32.zero_add]
  exact UInt32.toNat_ofNat_of_lt' h

theorem pc_of_follow {pre post : List Line} {line : Line} (h : Follow 0 (pre ++ line :: post))
    (hsmall : 4 * (wordsIn (pre ++ line :: post)).length < 2 ^ 32) :
    line.pc.toNat = 4 * (wordsIn pre).length := by
  obtain ⟨-, hpc, -, -⟩ := follow_append.mp h
  rw [hpc]
  refine toNat_offsetAfter (Nat.lt_of_le_of_lt ?_ hsmall)
  rw [wordsIn_append, List.length_append]
  omega

theorem codes_ne_nil_of_follow {pc : UInt32} {lines : List Line} (h : Follow pc lines)
    {line : Line} (hline : line ∈ lines) : line.codes ≠ [] := by
  obtain ⟨pre, post, rfl⟩ := List.append_of_mem hline
  obtain ⟨-, -, hcodes, -⟩ := follow_append.mp h
  exact hcodes

theorem contiguous_of_parse [Interpreter] {a : Assembler} {text : String} {p : Program}
    (h : (a.parse text).2 = .ok p) (hsmall : 4 * p.image.length < 2 ^ 32) : Contiguous p := by
  obtain ⟨hfollow, hlabels⟩ := laid_of_parse h
  rw [image_eq] at hsmall
  refine ⟨?_, ?_, ?_, ?_, ?_, hlabels⟩
  · intro line hline
    rw [← Array.getElem?_toList] at hline
    obtain ⟨rest, hlines⟩ : ∃ rest, p.lines.toList = line :: rest := by
      cases hcons : p.lines.toList with
      | nil => rw [hcons] at hline; cases hline
      | cons first rest => rw [hcons] at hline; cases hline; exact ⟨rest, rfl⟩
    rw [hlines] at hfollow
    exact hfollow.1
  · intro line hline
    exact List.length_pos_iff.mpr
      (codes_ne_nil_of_follow hfollow (Array.mem_toList_iff.mpr hline))
  · intro i line after hline hafter
    rw [← Array.getElem?_toList] at hline hafter
    -- The two lines stand next to each other behind the first `i` lines.
    have hsplit : p.lines.toList = p.lines.toList.take i ++ line ::
        after :: p.lines.toList.drop (i + 2) := by
      obtain ⟨hi, rfl⟩ := List.getElem?_eq_some_iff.mp hline
      obtain ⟨hi', rfl⟩ := List.getElem?_eq_some_iff.mp hafter
      rw [← List.drop_eq_getElem_cons hi', ← List.drop_eq_getElem_cons hi, List.take_append_drop]
    have hlast : p.lines.toList = (p.lines.toList.take i ++ [line]) ++
        after :: p.lines.toList.drop (i + 2) := by
      rw [List.append_assoc]
      exact hsplit
    have hpc := pc_of_follow (hsplit ▸ hfollow) (hsplit ▸ hsmall)
    have hpc' := pc_of_follow (hlast ▸ hfollow) (hlast ▸ hsmall)
    have hwords : wordsIn [line] = line.codes := List.append_nil line.codes
    rw [hpc', hpc, wordsIn_append, hwords, List.length_append, Nat.mul_add]
  · rw [Program.size, endOffset_of_follow hfollow, toNat_offsetAfter hsmall, image_eq]
  · intro k
    rw [codes_eq_addressed hfollow, getElem?_addressed]

end TaskMachine.Placement
