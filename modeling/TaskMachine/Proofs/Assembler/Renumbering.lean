import TaskMachine.Proofs.Assembler.Expansions
import TaskMachine.Proofs.Assembler.Rewriting
import TaskMachine.Proofs.Tables

/-!
# Line numbers make no difference to the code

The number of a line goes into an equate, into the log and into the errors. So the
words of a line come to the same code, the same constants and the same labels,
whatever the number of the line is, and what the line is read as is the same if it
does not use the equate.
-/

namespace TaskMachine.Renumbering

open Stateful Asm Expansions Rewriting Tables

/-! ## What a line uses -/

/-- The expressions in a line. -/
def expressions (line : String) : List (List Char) :=
  (replaceChars 0 line.toList []).tails.filterMap expression?

/-- The name is a word of the line, whatever the equates are, or it stands in an expression. What an
expression comes to may depend on the name only then, by `Interpreter.Lexical`. -/
def Uses [Interpreter] (name line : String) : Prop :=
  (∃ equates words, wordsOf equates line = .ok words ∧ name ∈ words) ∨
    ∃ body ∈ expressions line, name ∈ Expr.names body

/-- The script for an expression adds no name to it but that of the result. -/
theorem mem_names_of_valueScript {name : String} {body : List Char} (hname : name ≠ resultName)
    (h : name ∈ Expr.names (valueScript body)) : name ∈ Expr.names body := by
  have hruns : Expr.runs (valueScript body) = resultName.toList :: Expr.runs body := by
    unfold valueScript
    rw [Expr.runs_append_cons _ (by decide), Expr.runs_append_cons _ (by decide), Expr.runs_nil,
      List.append_nil]
    rfl
  unfold Expr.names at h ⊢
  rw [hruns, List.map_cons, String.ofList_toList] at h
  exact (List.mem_cons.mp h).resolve_left hname

theorem replaceExpressions_congr {value value' : List Char → Except AsmError UInt32}
    {cs : List Char} (h : ∀ body ∈ cs.tails.filterMap expression?, value body = value' body)
    (skip : Nat) (acc : List Char) (failure : Option AsmError) :
    replaceExpressions value skip cs acc failure =
      replaceExpressions value' skip cs acc failure := by
  induction cs generalizing skip acc failure with
  | nil => cases failure <;> rfl
  | cons c cs ih =>
    have hrest : ∀ body ∈ cs.tails.filterMap expression?, value body = value' body := by
      intro body hbody
      obtain ⟨suffix, hsuffix, hexpr⟩ := List.mem_filterMap.mp hbody
      refine h body (List.mem_filterMap.mpr ⟨suffix, ?_, hexpr⟩)
      rw [List.tails_cons]
      exact List.mem_cons_of_mem _ hsuffix
    cases skip with
    | succ k =>
      rw [replaceExpressions, replaceExpressions]
      exact ih hrest k acc failure
    | zero =>
      rw [replaceExpressions, replaceExpressions]
      cases hexpr : expression? (c :: cs) with
      | none => exact ih hrest _ _ _
      | some body =>
        have hbody : value body = value' body := by
          refine h body (List.mem_filterMap.mpr ⟨c :: cs, ?_, hexpr⟩)
          rw [List.tails_cons]
          exact List.mem_cons_self
        dsimp only
        rw [hbody]
        cases value' body with
        | ok v => exact ih hrest _ _ _
        | error e => exact ih hrest _ _ _

/-! ## Equates -/

/-- The equates differ at most in the number of the line. -/
def SameEquates (e e' : Table String) : Prop :=
  ∀ name, name ≠ lineEquate → e'.find? name = e.find? name

theorem SameEquates.refl (e : Table String) : SameEquates e e := fun _ _ => rfl

theorem SameEquates.insert {e e' : Table String} (h : SameEquates e e') (name value : String) :
    SameEquates (e.insert name value) (e'.insert name value) := by
  intro other hother
  rw [find?_insert, find?_insert, h other hother]

theorem SameEquates.trans {e e' e'' : Table String} (h : SameEquates e e')
    (k : SameEquates e' e'') : SameEquates e e'' :=
  fun name hname => (k name hname).trans (h name hname)

theorem SameEquates.symm {e e' : Table String} (h : SameEquates e e') : SameEquates e' e :=
  fun name hname => (h name hname).symm

/-- The number of the line may be set. -/
theorem sameEquates_line (e : Table String) (value : String) :
    SameEquates e (e.insert lineEquate value) := by
  intro other hother
  rw [find?_insert, if_neg hother]

theorem SameEquates.insert_line {e e' : Table String} (h : SameEquates e e')
    (value value' : String) :
    SameEquates (e.insert lineEquate value) (e'.insert lineEquate value') :=
  ((sameEquates_line e value).symm.trans h).trans (sameEquates_line e' value')

section Congr

variable {e e' : Table String} (h : SameEquates e e')

include h

theorem expressionValue_congr [Interpreter] (hlexical : Interpreter.Lexical) {body : List Char}
    (hbody : lineEquate ∉ Expr.names body) :
    expressionValue e' body = expressionValue e body := by
  have hvalues : ∀ name ∈ Expr.names (valueScript body),
      equateValue e' name = equateValue e name := by
    intro name hname
    have hother : name ≠ lineEquate := by
      rintro rfl
      exact hbody (mem_names_of_valueScript (by decide) hname)
    unfold equateValue
    rw [h name hother]
  unfold expressionValue
  rw [hlexical _ _ _ _ hvalues]

theorem wordsOf_congr [Interpreter] (hlexical : Interpreter.Lexical) {line : String}
    (hline : ¬ Uses lineEquate line) : wordsOf e' line = wordsOf e line := by
  have hvalues : ∀ body ∈ expressions line, expressionValue e' body = expressionValue e body :=
    fun body hbody =>
      expressionValue_congr h hlexical fun hname => hline (.inr ⟨body, hbody, hname⟩)
  unfold wordsOf
  rw [replaceExpressions_congr hvalues]

theorem substituted_congr {words : List String} (hwords : lineEquate ∉ words) :
    substituted e' words = substituted e words := by
  refine List.map_congr_left fun word hword => ?_
  have hother : word ≠ lineEquate := by
    rintro rfl
    exact hwords hword
  rw [h word hother]

end Congr

/-! ## Assemblies -/

/-- The line with another number. -/
def Renumbered (l l' : Line) : Prop := ∃ n, l' = { l with number := n }

/-- The line without its number. -/
def unnumbered (l : Line) : Line := { l with number := 0 }

theorem renumbered_iff {l l' : Line} : Renumbered l l' ↔ unnumbered l' = unnumbered l := by
  constructor
  · rintro ⟨n, rfl⟩
    rfl
  · intro h
    obtain ⟨n, pc, words, codes, target, link⟩ := l
    obtain ⟨n', pc', words', codes', target', link'⟩ := l'
    cases h
    exact ⟨n', rfl⟩

/-- The macro with another number. -/
def Moved (m m' : MacroDef) : Prop := ∃ n, m' = { m with number := n }

/-- The assemblies differ in nothing but numbers, their equates are related, and their macros are
as they should be. -/
structure Alike (E : Table String → Table String → Prop) (K : Table MacroDef → Prop)
    (s s' : Assembly) : Prop where
  origin : s'.origin = s.origin
  lines : s'.lines.map unnumbered = s.lines.map unnumbered
  labels : s'.labels = s.labels
  pool : s'.pool = s.pool
  equates : E s.equates s'.equates
  macros : ∀ name, Option.Rel Moved (s.macros.find? name) (s'.macros.find? name)
  proper : K s.macros

theorem endOffset_unnumbered (lines : Array Line) :
    endOffset (lines.map unnumbered) = endOffset lines := by
  unfold endOffset
  rw [Array.back?_map]
  cases lines.back? <;> rfl

section Parts

variable {E : Table String → Table String → Prop} {K : Table MacroDef → Prop}

theorem Alike.endOffset_eq {s s' : Assembly} (h : Alike E K s s') :
    endOffset s'.lines = endOffset s.lines := by
  rw [← endOffset_unnumbered, h.lines, endOffset_unnumbered]

theorem together_note (line line' : Unit → String) :
    Together Eq (Alike E K) (note line) (note line') :=
  .modify fun _ _ h => { h with }

theorem together_currentPc : Together Eq (Alike E K) currentPc currentPc :=
  .get_bind fun _ _ h => .pure h.endOffset_eq.symm

theorem together_intern (item : PoolItem) :
    Together Eq (Alike E K) (intern item) (intern item) := by
  refine .get_bind fun s s' h => ?_
  rw [h.pool]
  exact .bind_eq (.modify fun _ _ k => { k with pool := rfl }) fun _ => .pure rfl

theorem agree_wrapping {α α' : Type} {V : α → α' → Prop} {R : Assembly → Assembly → Prop}
    {work : Asm α} {work' : Asm α'} {s s' : Assembly} (wrap wrap' : AsmError → AsmError)
    (h : Agree V R (work s) (work' s')) :
    Agree V R (wrapping wrap work s) (wrapping wrap' work' s') := by
  unfold wrapping
  generalize work s = r at h ⊢
  generalize work' s' = r' at h ⊢
  cases h with
  | ok value state => exact .ok value state
  | error e e' t t' => exact .error (wrap e) (wrap' e') t t'

/-! ## Operands -/

theorem together_number (word : String) :
    Together Eq (Alike E K) (number word) (number word) := by
  unfold number
  split
  · exact .pure rfl
  · exact .throw _ _

theorem together_numbers (words : List String) :
    Together Eq (Alike E K) (numbers words) (numbers words) := by
  induction words with
  | nil => exact .pure rfl
  | cons word words ih =>
    exact .bind_eq (together_number word) fun _ => .bind_eq ih fun _ => .pure rfl

theorem together_signedField (bits : Nat) (word : String) :
    Together Eq (Alike E K) (signedField bits word) (signedField bits word) :=
  .bind_eq (together_number word) fun _ => .ite (.pure rfl) (.throw _ _)

theorem together_unsignedByte (word : String) :
    Together Eq (Alike E K) (unsignedByte word) (unsignedByte word) :=
  .bind_eq (together_number word) fun _ => .ite (.pure rfl) (.throw _ _)

theorem together_byteField (signed : Bool) (word : String) :
    Together Eq (Alike E K) (byteField signed word) (byteField signed word) :=
  .ite (together_signedField 8 word) (together_unsignedByte word)

theorem together_register (word : String) :
    Together Eq (Alike E K) (register word) (register word) := by
  unfold register
  split
  · exact .pure rfl
  · exact .throw _ _

theorem together_infoWord (value : UInt32) :
    Together Eq (Alike E K) (infoWord value) (infoWord value) :=
  .ite (.pure rfl) (.bind_eq (together_intern _) fun _ => .pure rfl)

theorem together_operandInfo (word : String) :
    Together Eq (Alike E K) (operandInfo word) (operandInfo word) := by
  unfold operandInfo
  split
  · split
    · exact .pure rfl
    · exact .throw _ _
  · exact .bind_eq (together_number word) together_infoWord

/-! ## Lines -/

theorem together_patch {line line' : Line} (hline : Renumbered line line') (distance : Int)
    (offset : UInt32) :
    Together Renumbered (Alike E K) (patch line distance offset) (patch line' distance offset) := by
  obtain ⟨n, rfl⟩ := hline
  obtain ⟨_, _, _, _, _, link⟩ := line
  refine .bind_eq (together_note _ _) fun _ => ?_
  dsimp only
  cases link with
  | none => exact .pure ⟨n, rfl⟩
  | half => exact .ite (.throw _ _) (.pure ⟨n, rfl⟩)
  | byte => exact .ite (.throw _ _) (.pure ⟨n, rfl⟩)
  | word => exact .ite (.throw _ _) (.pure ⟨n, rfl⟩)
  | info => exact .bind_eq (together_infoWord _) fun _ => .pure ⟨n, rfl⟩
  | absolute =>
    refine .get_bind fun s s' h => ?_
    rw [h.origin]
    exact .bind_eq (together_infoWord _) fun _ => .pure ⟨n, rfl⟩

theorem together_aim {line line' : Line} (hline : Renumbered line line') (kind : LinkKind)
    (word : String) :
    Together Renumbered (Alike E K) (aim line kind word) (aim line' kind word) := by
  obtain ⟨n, rfl⟩ := hline
  unfold aim
  dsimp only
  split
  · refine .ite (.bind_eq (together_infoWord _) fun _ => .pure ⟨n, rfl⟩) ?_
    exact together_patch ⟨n, rfl⟩ _ _
  · refine .ite (.bind_eq (together_operandInfo _) fun _ => .pure ⟨n, rfl⟩) ?_
    exact .ite (.pure ⟨n, rfl⟩) (.throw _ _)

theorem together_instruction (op : Opcode) {line line' : Line} (hline : Renumbered line line')
    (operands : List String) :
    Together Renumbered (Alike E K) (instruction op line operands)
      (instruction op line' operands) := by
  have hregs {g g' : Reg → Asm Line} {word : String}
      (h : ∀ r, Together Renumbered (Alike E K) (g r) (g' r)) :
      Together Renumbered (Alike E K) (register word >>= g) (register word >>= g') :=
    .bind_eq (together_register word) h
  obtain ⟨n, rfl⟩ := hline
  unfold instruction
  split
  case h_15 => exact .throw _ _
  all_goals simp only [*]
  · exact hregs fun _ => hregs fun _ => hregs fun _ => .pure ⟨n, rfl⟩
  · exact hregs fun _ => hregs fun _ => .pure ⟨n, rfl⟩
  · refine hregs fun _ => hregs fun _ => ?_
    exact .bind_eq (together_byteField _ _) fun _ => .pure ⟨n, rfl⟩
  · refine hregs fun _ => hregs fun _ => ?_
    exact .bind_eq (together_operandInfo _) fun _ => .pure ⟨n, rfl⟩
  · exact hregs fun _ => .bind_eq (together_operandInfo _) fun _ => together_aim ⟨n, rfl⟩ _ _
  · exact hregs fun _ => .bind_eq (together_byteField _ _) fun _ => together_aim ⟨n, rfl⟩ _ _
  · exact hregs fun _ => hregs fun _ => together_aim ⟨n, rfl⟩ _ _
  · exact hregs fun _ => .bind_eq (together_signedField _ _) fun _ => .pure ⟨n, rfl⟩
  · exact hregs fun _ => together_aim ⟨n, rfl⟩ _ _
  · exact hregs fun _ => .pure ⟨n, rfl⟩
  · exact together_aim ⟨n, rfl⟩ _ _
  · exact hregs fun _ => hregs fun _ => .pure ⟨n, rfl⟩
  · refine hregs fun _ => hregs fun _ => ?_
    exact .bind_eq (together_unsignedByte _) fun _ => .pure ⟨n, rfl⟩
  · exact .pure ⟨n, rfl⟩

theorem together_lineOf {line line' : Line} (hline : Renumbered line line') (head : String)
    (operands : List String) :
    Together Renumbered (Alike E K) (lineOf line head operands) (lineOf line' head operands) := by
  unfold lineOf
  refine .ite (.ite (.throw _ _) (.bind_eq (together_numbers _) fun _ => ?_)) ?_
  · obtain ⟨n, rfl⟩ := hline
    exact .pure ⟨n, rfl⟩
  · cases Opcode.ofMnemonic? head with
    | some op => exact together_instruction op hline operands
    | none => exact .throw _ _

/-- The numbers of the lines differ, and what the words of the line come to is the same. -/
theorem together_assembleWords (number number' : Nat) (words : List String) :
    Together Eq (Alike E K) (assembleWords number words) (assembleWords number' words) := by
  cases words with
  | nil => exact .pure rfl
  | cons head operands =>
    refine .bind_eq together_currentPc fun pc => ?_
    refine .bind (together_lineOf ⟨number', rfl⟩ head operands) fun line line' hline => ?_
    refine .modify fun s s' h => { h with lines := ?_ }
    rw [Array.map_push, Array.map_push, h.lines, renumbered_iff.mp hline]

theorem together_defineLabel (label : String) :
    Together Eq (Alike E K) (defineLabel label) (defineLabel label) := by
  have hplace : Together Eq (Alike E K)
      (do
        let pc ← currentPc
        modify fun s => { s with labels := s.labels.insert label pc } : Asm Unit)
      (do
        let pc ← currentPc
        modify fun s => { s with labels := s.labels.insert label pc } : Asm Unit) := by
    refine .bind_eq together_currentPc fun pc => .modify fun s s' h => { h with labels := ?_ }
    rw [h.labels]
  refine .get_bind fun s s' h => ?_
  rw [h.labels]
  exact .ite (.throw_bind _ _ _ _) hplace

theorem together_takeLabels (words : List String) :
    Together Eq (Alike E K) (takeLabels words) (takeLabels words) := by
  induction words with
  | nil => exact .pure rfl
  | cons word words ih =>
    unfold takeLabels
    cases definedLabel? word with
    | none => exact .pure rfl
    | some label => exact .bind_eq (together_defineLabel label) fun _ => ih

end Parts

/-! ## Names -/

section Names

variable {K : Table MacroDef → Prop}

theorem together_setEquate (name value : String) :
    Together Eq (Alike SameEquates K) (setEquate name value) (setEquate name value) :=
  .modify fun _ _ h => { h with equates := h.equates.insert name value }

theorem together_setLine (value value' : String) :
    Together Eq (Alike SameEquates K) (setEquate lineEquate value)
      (setEquate lineEquate value') :=
  .modify fun _ _ h => { h with equates := h.equates.insert_line value value' }

theorem together_equate? {name : String} (hname : name ≠ lineEquate) :
    Together Eq (Alike SameEquates K) (equate? name) (equate? name) :=
  .get_bind fun _ _ h => .pure (h.equates name hname).symm

theorem together_bindParams (params args : List String) :
    Together Eq (Alike SameEquates K) (bindParams params args) (bindParams params args) := by
  induction params generalizing args with
  | nil => exact .pure rfl
  | cons param params ih =>
    cases args with
    | nil => exact .pure rfl
    | cons arg args => exact .bind_eq (together_setEquate param arg) fun _ => ih args

theorem together_defineEquate {operands : List String} (h : lineEquate ∉ operands) :
    Together Eq (Alike SameEquates K) (defineEquate operands) (defineEquate operands) := by
  unfold defineEquate
  split
  · refine .bind_eq (together_equate? fun hname => h ?_) fun _ => ?_
    · rw [hname]
      exact List.mem_cons_self
    · exact .ite (.throw_bind _ _ _ _) (together_setEquate _ _)
  · exact .throw _ _

theorem together_defineConstant {operands : List String} (h : lineEquate ∉ operands) :
    Together Eq (Alike SameEquates K) (defineConstant operands) (defineConstant operands) := by
  unfold defineConstant
  split
  · rename_i name kind value more
    refine .bind_eq (together_equate? fun hname => h ?_) fun _ => ?_
    · rw [hname]
      exact List.mem_cons_self
    · refine .ite (.throw_bind _ _ _ _) ?_
      cases constantOf kind value more with
      | ok item => exact .bind_eq (together_intern item) fun _ => together_setEquate _ _
      | error e => exact .throw _ _
  · exact .throw _ _

/-- A line that does not use the number of its line reads the same under any number. -/
theorem together_front [Interpreter] (hlexical : Interpreter.Lexical) (number number' : Nat)
    {line : String} (hline : ¬ Uses lineEquate line) :
    Together Eq (Alike SameEquates K) (front number line) (front number' line) := by
  refine .bind_eq (together_setLine _ _) fun _ => .get_bind fun s s' h => ?_
  rw [wordsOf_congr h.equates hlexical hline]
  cases hwords : wordsOf s.equates line with
  | error e => exact .throw _ _
  | ok words =>
    have hunused : lineEquate ∉ words := fun hmem => hline (.inl ⟨s.equates, words, hwords, hmem⟩)
    cases words with
    | nil => exact .pure rfl
    | cons head rest =>
      have hrest : lineEquate ∉ rest := fun hmem => hunused (List.mem_cons_of_mem head hmem)
      refine .ite (.bind_eq (together_defineEquate hrest) fun _ => .pure rfl) ?_
      refine .ite (.bind_eq (together_defineConstant hrest) fun _ => .pure rfl) ?_
      refine .get_bind fun t t' k => ?_
      rw [substituted_congr k.equates hunused]
      exact together_takeLabels _

end Names

/-! ## Linking -/

section Linking

variable {E : Table String → Table String → Prop} {K : Table MacroDef → Prop}

/-- The programs have the same words at the same addresses, the same constants and labels. -/
structure SameCode (p p' : Program) : Prop where
  codes : p'.codes = p.codes
  pool : p'.pool = p.pool
  labels : p'.labels = p.labels

theorem codes_unnumbered (p : Program) :
    ({ p with lines := p.lines.map unnumbered } : Program).codes = p.codes := by
  unfold Program.codes
  rw [Array.toList_map, List.flatMap_map]
  rfl

theorem together_resolve {line line' : Line} (hline : Renumbered line line') :
    Together Renumbered (Alike E K) (resolve line) (resolve line') := by
  obtain ⟨n, rfl⟩ := hline
  obtain ⟨_, _, _, _, target, _⟩ := line
  cases target with
  | none => exact .pure ⟨n, rfl⟩
  | some label =>
    refine .get_bind fun s s' h => ?_
    rw [h.labels]
    cases s.labels.find? label with
    | none => exact .throw _ _
    | some offset => exact together_patch ⟨n, rfl⟩ _ _

theorem together_resolveAll (index : Nat) {lines lines' : List Line}
    (hlines : lines'.map unnumbered = lines.map unnumbered) :
    Together Eq (Alike E K) (resolveAll index lines) (resolveAll index lines') := by
  induction lines generalizing index lines' with
  | nil =>
    obtain rfl := List.map_eq_nil_iff.mp hlines
    exact .pure rfl
  | cons line rest ih =>
    obtain ⟨line', rest', rfl, hline, hrest⟩ := List.map_eq_cons_iff.mp hlines
    have hfirst : Together Renumbered (Alike E K)
        (wrapping (.located line.number line.text) (resolve line))
        (wrapping (.located line'.number line'.text) (resolve line')) := fun s s' h =>
      agree_wrapping _ _ (together_resolve (renumbered_iff.mpr hline) s s' h)
    refine hfirst.bind fun out out' hout => ?_
    refine .bind_eq (.modify fun s s' h => { h with lines := ?_ }) fun _ => ih (index + 1) hrest
    rw [Array.map_setIfInBounds, Array.map_setIfInBounds, h.lines, renumbered_iff.mp hout]

/-- Linking the lines and taking the program out of the assembly. -/
theorem together_link :
    Together SameCode (Alike E K)
      (do
        resolveAll 0 (← get).lines.toList
        let s ← get
        return { origin := s.origin, lines := s.lines, pool := s.pool, labels := s.labels })
      (do
        resolveAll 0 (← get).lines.toList
        let s ← get
        return { origin := s.origin, lines := s.lines, pool := s.pool, labels := s.labels }) := by
  refine .get_bind fun s s' h => ?_
  have hlines : s'.lines.toList.map unnumbered = s.lines.toList.map unnumbered := by
    rw [← Array.toList_map, h.lines, Array.toList_map]
  refine .bind_eq (together_resolveAll 0 hlines) fun _ => .get_bind fun t t' k => .pure ?_
  refine ⟨(codes_unnumbered _).symm.trans (.trans ?_ (codes_unnumbered _)), k.pool, k.labels⟩
  dsimp only
  rw [k.lines, k.origin, k.pool, k.labels]

end Linking

end TaskMachine.Renumbering
