import TaskMachine.Assembler.Source
import TaskMachine.Proofs.Assembler.Lines

/-!
# What reading a source preserves

The lines of a source are read through labels, equates, constants and macros,
and macros expand to lines that are read in the same way. What all of this can
do to an assembly is a short list of steps. `Steady` names the relations that
every step of reading a line keeps, and `Stable` those that defining a macro
keeps as well. A stable relation then holds between the assembly before and after
any source that is read to its end.
-/

namespace TaskMachine.Reading

open Stateful Asm

/-- The relations that every step of reading a line keeps. -/
structure Steady (R : Assembly → Assembly → Prop) : Prop where
  refl : ∀ s, R s s
  trans : ∀ {s t u}, R s t → R t u → R s u
  log : ∀ (s : Assembly) (log : Log), R s { s with log := log }
  equates : ∀ (s : Assembly) (equates : Table String), R s { s with equates := equates }
  pool : ∀ (s : Assembly) (item : PoolItem), R s { s with pool := (s.pool.intern item).1 }
  label : ∀ (s : Assembly) (label : String), s.labels.contains label = false →
    R s { s with labels := s.labels.insert label (endOffset s.lines) }
  emit : ∀ {s t : Assembly} {number : Nat} {head : String} {operands : List String} {line : Line},
    lineOf { number, pc := endOffset s.lines, words := head :: operands } head operands s =
      .ok line t →
    R s { t with lines := t.lines.push line }

/-- The relations that every step of reading a source keeps. -/
structure Stable (R : Assembly → Assembly → Prop) : Prop extends Steady R where
  macros : ∀ (s : Assembly) (macros : Table MacroDef), R s { s with macros := macros }

theorem wrapping_eq_ok {α : Type} {wrap : AsmError → AsmError} {work : Asm α} {s t : Assembly}
    {a : α} (h : wrapping wrap work s = .ok a t) : work s = .ok a t := by
  unfold wrapping at h
  split at h
  · rename_i hwork
    cases h
    exact hwork
  · cases h

theorem wrapping_eq_error {α : Type} {wrap : AsmError → AsmError} {work : Asm α}
    {s t : Assembly} {e : AsmError} (h : wrapping wrap work s = .error e t) :
    ∃ cause, work s = .error cause t ∧ e = wrap cause := by
  unfold wrapping at h
  split at h
  · cases h
  · rename_i cause t' hwork
    cases h
    exact ⟨cause, hwork, rfl⟩

theorem wrapping_of_ok {α : Type} {wrap : AsmError → AsmError} {work : Asm α} {s t : Assembly}
    {a : α} (h : work s = .ok a t) : wrapping wrap work s = .ok a t := by
  unfold wrapping
  rw [h]

theorem wrapping_of_error {α : Type} {wrap : AsmError → AsmError} {work : Asm α}
    {s t : Assembly} {e : AsmError} (h : work s = .error e t) :
    wrapping wrap work s = .error (wrap e) t := by
  unfold wrapping
  rw [h]

theorem ensures_wrapping {R : Assembly → Assembly → Prop} {α : Type} {work : Asm α}
    (wrap : AsmError → AsmError) (h : Ensures R work) : Ensures R (wrapping wrap work) :=
  fun s a t ht => h s a t (wrapping_eq_ok ht)

section

variable [Interpreter]

/-- Outside of macro definitions, a line that neither opens nor closes one is read and assembled. -/
theorem takeLine_of_code {number : Nat} {line : String}
    (hopens : ∀ rest, (Text.words line.toList).map String.ofList ≠ ".macro" :: rest)
    (hcloses : ∀ rest, (Text.words line.toList).map String.ofList ≠ ".endm" :: rest) :
    takeLine number line none = do
      let words ← readLine macroDepthLimit number line
      assembleWords number words
      return none := by
  unfold takeLine
  split
  · rename_i hnone
    cases hnone
  · rename_i hwords _
    exact absurd hwords (hopens _)
  · rename_i hwords _
    exact absurd hwords (hcloses _)
  · rename_i hnone
    cases hnone
  · rename_i hnone _ _
    cases hnone
  · rfl

theorem takeLines_cons (number : Nat) (before : String) (opened : Option String) (raw : List Char)
    (rest : List (List Char)) :
    takeLines number before opened (raw :: rest) = (do
      note fun _ => Numeral.decimalNat number ++ ": " ++ String.ofList raw
      let opened ← wrapping (.located number (stripped raw)) (takeLine number (stripped raw) opened)
      takeLines (number + 1) (stripped raw) opened rest) := by
  cases opened <;> rfl

/-- A line is read in the same way at every depth, but for the reader of the lines of macros. -/
theorem exists_readLineWith (depth : Nat) : ∃ nested, readLine depth = readLineWith nested := by
  cases depth with
  | zero => exact ⟨_, rfl⟩
  | succ depth => exact ⟨_, rfl⟩

end

namespace Steady

variable {R : Assembly → Assembly → Prop} (hR : Steady R)

include hR

theorem bind {α β : Type} {x : Asm α} {g : α → Asm β} (hx : Ensures R x)
    (hg : ∀ a, Ensures R (g a)) : Ensures R (x >>= g) :=
  Ensures.bind (R := R) hR.trans hx hg

theorem map {α β : Type} {f : α → β} {x : Asm α} (hx : Ensures R x) : Ensures R (f <$> x) :=
  hR.bind hx fun a => Ensures.pure hR.refl (f a)

theorem pure {α : Type} (a : α) : Ensures R (Pure.pure a : Asm α) := Ensures.pure hR.refl a

theorem get : Ensures R (MonadState.get : Asm Assembly) := Ensures.get hR.refl

/-! ## The parts of a line -/

theorem setEquate (name value : String) : Ensures R (setEquate name value) :=
  Ensures.modify fun s => hR.equates s (s.equates.insert name value)

theorem equate? (name : String) : Ensures R (equate? name) :=
  hR.bind hR.get fun _ => hR.pure _

theorem intern (item : PoolItem) : Ensures R (intern item) := by
  intro s index t h
  cases h
  exact hR.pool s item

/-- The equates that work leaves behind are put back, which is one more change of them. -/
theorem withScope {α : Type} {work : Asm α} (h : Ensures R work) : Ensures R (withScope work) := by
  intro s a t ht
  unfold Asm.withScope at ht
  dsimp only at ht
  split at ht
  · rename_i a' t' hwork
    cases ht
    exact hR.trans (h s a t' hwork) (hR.equates t' s.equates)
  · cases ht

theorem defineEquate (operands : List String) : Ensures R (defineEquate operands) := by
  unfold Asm.defineEquate
  split
  · refine hR.bind (hR.equate? _) fun found => ?_
    exact .ite (.throw_bind _ _) (hR.setEquate _ _)
  · exact .throw _

theorem defineConstant (operands : List String) : Ensures R (defineConstant operands) := by
  unfold Asm.defineConstant
  split
  · refine hR.bind (hR.equate? _) fun found => ?_
    refine .ite (.throw_bind _ _) ?_
    split
    · exact hR.bind (hR.intern _) fun index => hR.setEquate _ _
    · exact .throw _
  · exact .throw _

theorem defineLabel (label : String) : Ensures R (defineLabel label) := by
  intro s u t h
  obtain ⟨s', t', hget, hrest⟩ := bind_eq_ok.mp h
  obtain ⟨rfl, rfl⟩ := get_eq_ok.mp hget
  split at hrest
  · exact Ensures.throw_bind (R := R) _ _ _ _ _ hrest
  · rename_i hnew
    rw [modify_eq_ok.mp (show (modify _ : Asm PUnit) t' = .ok u t from hrest)]
    exact hR.label t' label (Bool.eq_false_iff.mpr hnew)

theorem takeLabels (words : List String) : Ensures R (takeLabels words) := by
  induction words with
  | nil => exact hR.pure _
  | cons word words ih =>
    unfold Asm.takeLabels
    split
    · exact hR.pure _
    · exact hR.bind (hR.defineLabel _) fun _ => ih

theorem bindParams (params args : List String) : Ensures R (bindParams params args) := by
  induction params generalizing args with
  | nil => exact hR.pure _
  | cons param params ih =>
    cases args with
    | nil => exact hR.pure _
    | cons arg args => exact hR.bind (hR.setEquate param arg) fun _ => ih args

theorem assembleWords (number : Nat) (words : List String) :
    Ensures R (assembleWords number words) := by
  cases words with
  | nil => exact hR.pure _
  | cons head operands =>
    intro s u t h
    obtain ⟨pc, s', hpc, h⟩ := bind_eq_ok.mp h
    cases hpc
    obtain ⟨line, t', hline, h⟩ := bind_eq_ok.mp h
    rw [modify_eq_ok.mp h]
    exact hR.emit hline

/-! ## Macros -/

theorem expandBody {read : LineReader} (hread : ∀ number line, Ensures R (read number line))
    (name mark : String) (number : Nat) (lines : List String) :
    Ensures R (expandBody read name mark number lines) := by
  induction lines generalizing number with
  | nil => exact hR.pure _
  | cons line lines ih =>
    refine hR.bind (ensures_wrapping _ ?_) fun _ => ih (number + 1)
    exact hR.bind (hread _ _) fun words => hR.assembleWords number words

theorem expand {read : LineReader} (hread : ∀ number line, Ensures R (read number line))
    (number : Nat) (name : String) (m : MacroDef) (args : List String) :
    Ensures R (expand read number name m args) := by
  refine .ite (.throw _) (hR.withScope ?_)
  exact hR.bind (hR.bindParams m.params args) fun _ => hR.expandBody hread _ _ _ _

variable [Interpreter]

theorem readLineWith {nested : LineReader}
    (hnested : ∀ number line, Ensures R (nested number line)) (number : Nat) (line : String) :
    Ensures R (readLineWith nested number line) := by
  refine hR.bind (hR.setEquate _ _) fun _ => hR.bind hR.get fun s => ?_
  split
  · exact .throw _
  · exact hR.pure _
  · refine .ite (hR.bind (hR.defineEquate _) fun _ => hR.pure _) ?_
    refine .ite (hR.bind (hR.defineConstant _) fun _ => hR.pure _) ?_
    refine hR.bind hR.get fun s => hR.bind (hR.takeLabels _) fun words => ?_
    split
    · exact hR.pure _
    · refine hR.bind hR.get fun s => ?_
      split
      · exact hR.bind (hR.expand hnested _ _ _ _) fun _ => hR.pure _
      · exact hR.pure _

/-- Reading a line keeps the relation, by induction on how deep its macros may nest. -/
theorem readLine (depth number : Nat) (line : String) : Ensures R (readLine depth number line) := by
  induction depth generalizing number line with
  | zero => exact hR.readLineWith (fun _ _ => .throw _) number line
  | succ depth ih => exact hR.readLineWith ih number line

end Steady

/-! ## Whole sources -/

namespace Stable

variable {R : Assembly → Assembly → Prop} (hR : Stable R)

include hR

theorem openMacro (number : Nat) (words : List String) : Ensures R (openMacro number words) := by
  cases words with
  | nil => exact .throw _
  | cons name params =>
    refine hR.bind hR.get fun s => ?_
    refine .ite (.throw_bind _ _) ?_
    exact hR.bind (.modify fun s => hR.macros s _) fun _ => hR.pure _

theorem extendMacro (name line : String) : Ensures R (extendMacro name line) := by
  refine .modify fun s => ?_
  split
  · exact hR.macros s _
  · exact hR.refl s

variable [Interpreter]

theorem takeLine (number : Nat) (line : String) (opened : Option String) :
    Ensures R (takeLine number line opened) := by
  unfold Asm.takeLine
  split
  · exact .throw _
  · exact hR.map (hR.openMacro number _)
  · exact .throw _
  · exact hR.pure _
  · exact hR.bind (hR.extendMacro _ line) fun _ => hR.pure _
  · refine hR.bind (hR.readLine _ number line) fun words => ?_
    exact hR.bind (hR.assembleWords number words) fun _ => hR.pure _

/-- What every step keeps, a source that is read to its end keeps. -/
theorem takeLines (number : Nat) (before : String) (opened : Option String)
    (lines : List (List Char)) : Ensures R (takeLines number before opened lines) := by
  induction lines generalizing number before opened with
  | nil =>
    cases opened with
    | none => exact hR.pure _
    | some name => exact .throw _
  | cons raw rest ih =>
    rw [takeLines_cons]
    refine hR.bind (.modify fun s => hR.log s _) fun _ => ?_
    exact hR.bind (ensures_wrapping _ (hR.takeLine number _ opened)) fun opened => ih _ _ opened

end Stable

end TaskMachine.Reading
