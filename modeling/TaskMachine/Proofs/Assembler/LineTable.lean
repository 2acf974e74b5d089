import TaskMachine.Proofs.Assembler.Placement

/-!
# The line of an address

A line is looked up by comparing the address with the first and the last address
of every line. In an image that ends inside the address space no such address wraps
around, and the lines are without gaps and do not overlap. So an address of the
image, aligned or not, has one line, which is the one that emits the word there, and
any other address has none.
-/

namespace TaskMachine.LineTable

open Words Placement

/-- One of the words that the line adds to the codes of the program covers the address. -/
def Emits (p : Program) (line : Line) (pc : UInt32) : Prop :=
  ∃ e ∈ addressed (p.origin + line.pc) line.codes, e.1.toNat ≤ pc.toNat ∧ pc.toNat < e.1.toNat + 4

/-! ## Lines without gaps -/

/-- Every position within the words of some lines belongs to one of them. -/
theorem exists_line_at {lines : List Line} {d : Nat} (h : d < 4 * (wordsIn lines).length) :
    ∃ pre line post, lines = pre ++ line :: post ∧ 4 * (wordsIn pre).length ≤ d ∧
      d < 4 * (wordsIn pre).length + 4 * line.codes.length := by
  induction lines generalizing d with
  | nil => exact absurd h (Nat.not_lt_zero d)
  | cons line rest ih =>
    by_cases hfirst : d < 4 * line.codes.length
    · exact ⟨[], line, rest, rfl, Nat.zero_le d, by rw [wordsIn, List.flatMap_nil]; simpa using hfirst⟩
    · rw [wordsIn_cons, List.length_append] at h
      obtain ⟨pre, found, post, hrest, hlow, hhigh⟩ :=
        ih (d := d - 4 * line.codes.length) (by omega)
      refine ⟨line :: pre, found, post, by rw [hrest]; rfl, ?_, ?_⟩
      · rw [wordsIn_cons, List.length_append]
        omega
      · rw [wordsIn_cons, List.length_append]
        omega

/-- A line before another one ends before that begins. -/
theorem end_le_of_before {lines pre pre' post post' : List Line} {line line' : Line}
    (h : lines = pre ++ line :: post) (h' : lines = pre' ++ line' :: post')
    (hbefore : pre.length < pre'.length) :
    (wordsIn pre).length + line.codes.length ≤ (wordsIn pre').length := by
  have hprefix : pre ++ [line] <+: pre' := by
    have hfirst : pre ++ [line] <+: lines := by
      refine ⟨post, ?_⟩
      rw [h, List.append_assoc]
      rfl
    have hsecond : pre' <+: lines := ⟨line' :: post', h'.symm⟩
    refine List.prefix_of_prefix_length_le hfirst hsecond ?_
    rw [List.length_append]
    exact hbefore
  obtain ⟨rest, rfl⟩ := hprefix
  rw [wordsIn_append, wordsIn_append, List.length_append, List.length_append, wordsIn_cons,
    List.length_append]
  omega

/-! ## Lookups -/

section

variable {p : Program} (hfollow : Follow 0 p.lines.toList)
  (hend : p.origin.toNat + 4 * p.image.length < 2 ^ 32)
  {pre post : List Line} {line : Line} (hlines : p.lines.toList = pre ++ line :: post)

include hlines in
theorem length_image : p.image.length =
    (wordsIn pre).length + line.codes.length + (wordsIn post).length := by
  rw [image_eq, hlines, wordsIn_append, wordsIn_cons, List.length_append, List.length_append,
    Nat.add_assoc]

include hfollow hend hlines

theorem toNat_start : (p.origin + line.pc).toNat = p.origin.toNat + 4 * (wordsIn pre).length := by
  have hlength := length_image hlines
  have hpc : line.pc.toNat = 4 * (wordsIn pre).length := by
    refine pc_of_follow (hlines ▸ hfollow) ?_
    rw [← hlines, ← image_eq]
    omega
  rw [UInt32.toNat_add, hpc]
  exact Nat.mod_eq_of_lt (by omega)

theorem covers_iff {pc : UInt32} : p.covers pc line = true ↔
    p.origin.toNat + 4 * (wordsIn pre).length ≤ pc.toNat ∧
      pc.toNat < p.origin.toNat + 4 * (wordsIn pre).length + 4 * line.codes.length := by
  have hlength := length_image hlines
  have hstart := toNat_start hfollow hend hlines
  have hstop : (p.origin + line.pc + line.size).toNat =
      p.origin.toNat + 4 * (wordsIn pre).length + 4 * line.codes.length := by
    have hsize : line.size.toNat = 4 * line.codes.length := by
      rw [Line.size, UInt32.toNat_ofNat_of_lt' (by change _ < 2 ^ 32; omega), Nat.mul_comm]
    rw [UInt32.toNat_add, hstart, hsize]
    exact Nat.mod_eq_of_lt (by omega)
  simp only [Program.covers, Bool.and_eq_true, decide_eq_true_eq, UInt32.le_iff_toNat_le,
    UInt32.lt_iff_toNat_lt, hstart, hstop]

/-- The lookup compares with the whole line, which comes to one of its words. -/
theorem emits_iff_covers {pc : UInt32} : Emits p line pc ↔ p.covers pc line = true := by
  have hlength := length_image hlines
  have hstart := toNat_start hfollow hend hlines
  have hword (k : Nat) (hk : k < line.codes.length) :
      (p.origin + line.pc + UInt32.ofNat (4 * k)).toNat =
        p.origin.toNat + 4 * (wordsIn pre).length + 4 * k := by
    rw [UInt32.toNat_add, hstart, UInt32.toNat_ofNat_of_lt' (by change _ < 2 ^ 32; omega)]
    exact Nat.mod_eq_of_lt (by omega)
  rw [covers_iff hfollow hend hlines]
  constructor
  · rintro ⟨e, he, hlow, hhigh⟩
    obtain ⟨k, hk, haddr⟩ := mem_addressed he
    rw [haddr, hword k hk] at hlow hhigh
    omega
  · rintro ⟨hlow, hhigh⟩
    obtain ⟨k, hk⟩ : ∃ k, k = (pc.toNat - (p.origin.toNat + 4 * (wordsIn pre).length)) / 4 := ⟨_, rfl⟩
    have hindex : k < line.codes.length := by omega
    have hget : (addressed (p.origin + line.pc) line.codes)[k]? =
        some (p.origin + line.pc + UInt32.ofNat (4 * k), line.codes[k]) := by
      rw [getElem?_addressed, List.getElem?_eq_getElem hindex, Option.map_some]
    refine ⟨_, List.mem_of_getElem? hget, ?_, ?_⟩
    · rw [hword k hindex]
      omega
    · rw [hword k hindex]
      omega

end

/-- The line that is listed at a place, with the lines before it. -/
theorem split_at {lines : Array Line} {k : Nat} {line : Line} (h : lines[k]? = some line) :
    ∃ pre post, lines.toList = pre ++ line :: post ∧ pre.length = k := by
  rw [← Array.getElem?_toList] at h
  obtain ⟨hk, rfl⟩ := List.getElem?_eq_some_iff.mp h
  refine ⟨lines.toList.take k, lines.toList.drop (k + 1), ?_, ?_⟩
  · rw [← List.drop_eq_getElem_cons hk, List.take_append_drop]
  · rw [List.length_take]
    omega

/-- The number is that of the one line that emits a word at the address, or zero for an address
outside of the image. -/
structure Attributed (p : Program) (pc : UInt32) (number : Nat) : Prop where
  inside : p.origin.toNat ≤ pc.toNat → pc.toNat < p.origin.toNat + p.size.toNat →
    ∃ (k : Nat) (line : Line), p.lines[k]? = some line ∧ Emits p line pc ∧ number = line.number ∧
      ∀ (k' : Nat) (line' : Line), p.lines[k']? = some line' → Emits p line' pc → k' = k
  outside : pc.toNat < p.origin.toNat ∨ p.origin.toNat + p.size.toNat ≤ pc.toNat → number = 0

section

variable {p : Program} (hfollow : Follow 0 p.lines.toList)
  (hend : p.origin.toNat + 4 * p.image.length < 2 ^ 32) {pc : UInt32}

include hfollow hend

/-- Two lines that emit a word at one address are the same line. -/
theorem index_unique {k k' : Nat} {line line' : Line} (hline : p.lines[k]? = some line)
    (hline' : p.lines[k']? = some line') (hemits : Emits p line pc) (hemits' : Emits p line' pc) :
    k' = k := by
  obtain ⟨pre, post, hlines, rfl⟩ := split_at hline
  obtain ⟨pre', post', hlines', rfl⟩ := split_at hline'
  have hrange := (covers_iff hfollow hend hlines).mp
    ((emits_iff_covers hfollow hend hlines).mp hemits)
  have hrange' := (covers_iff hfollow hend hlines').mp
    ((emits_iff_covers hfollow hend hlines').mp hemits')
  rcases Nat.lt_trichotomy pre'.length pre.length with hlt | heq | hgt
  · have hbefore := end_le_of_before hlines' hlines hlt
    omega
  · exact heq
  · have hbefore := end_le_of_before hlines hlines' hgt
    omega

theorem lineNumber_of_mem (hlow : p.origin.toNat ≤ pc.toNat)
    (hhigh : pc.toNat < p.origin.toNat + 4 * p.image.length) :
    ∃ (k : Nat) (line : Line), p.lines[k]? = some line ∧ Emits p line pc ∧
      p.lineNumber pc = line.number := by
  cases hfind : p.lines.find? (p.covers pc) with
  | none =>
    rw [image_eq] at hhigh
    have hin : pc.toNat - p.origin.toNat < 4 * (wordsIn p.lines.toList).length := by omega
    obtain ⟨pre, line, post, hlines, hpre, hpost⟩ := exists_line_at hin
    have hmem : line ∈ p.lines := by
      rw [← Array.mem_toList_iff, hlines]
      exact List.mem_append_right _ List.mem_cons_self
    have hcovers : p.covers pc line = true :=
      (covers_iff hfollow hend hlines).mpr ⟨by omega, by omega⟩
    exact absurd hcovers (Array.find?_eq_none.mp hfind line hmem)
  | some line =>
    rw [← Array.find?_toList] at hfind
    obtain ⟨hcovers, pre, post, hlines, -⟩ := List.find?_eq_some_iff_append.mp hfind
    rw [Array.find?_toList] at hfind
    refine ⟨pre.length, line, ?_, (emits_iff_covers hfollow hend hlines).mpr hcovers, ?_⟩
    · rw [← Array.getElem?_toList, hlines, List.getElem?_append_right (Nat.le_refl _), Nat.sub_self]
      rfl
    · simp only [Program.lineNumber, Program.lineAt?, hfind, Option.map_some]

theorem lineNumber_of_not_mem
    (hout : pc.toNat < p.origin.toNat ∨ p.origin.toNat + 4 * p.image.length ≤ pc.toNat) :
    p.lineNumber pc = 0 := by
  have hnone : p.lines.find? (p.covers pc) = none := by
    rw [Array.find?_eq_none]
    intro line hline hcovers
    obtain ⟨pre, post, hlines⟩ := List.append_of_mem (Array.mem_toList_iff.mpr hline)
    have hlength := length_image hlines
    have hrange := (covers_iff hfollow hend hlines).mp hcovers
    omega
  simp only [Program.lineNumber, Program.lineAt?, hnone, Option.map_none]

/-- Every address is attributed to the line that the lookup finds. -/
theorem attributed_lineNumber (hsize : p.size.toNat = 4 * p.image.length) (pc : UInt32) :
    Attributed p pc (p.lineNumber pc) where
  inside hlow hhigh := by
    obtain ⟨k, line, hline, hemits, hnumber⟩ :=
      lineNumber_of_mem hfollow hend hlow (by rw [← hsize]; exact hhigh)
    exact ⟨k, line, hline, hemits, hnumber, fun k' line' hline' hemits' =>
      index_unique hfollow hend hline hline' hemits hemits'⟩
  outside hout := lineNumber_of_not_mem hfollow hend (by rw [← hsize]; exact hout)

end

end TaskMachine.LineTable
