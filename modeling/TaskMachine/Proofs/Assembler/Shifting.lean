import TaskMachine.Proofs.Assembler.LocalMarks
import TaskMachine.Proofs.Assembler.Renumbering

/-!
# Lines may be shifted

The number of a line also goes into the marks of the macros that it invokes.
Lines that expand no macro with local labels, and do not use the equate for the
number of the line, come to the same code, the same constants and the same
labels wherever they stand. One of the two runs is recorded, so that it is known
which macros it expands.
-/

namespace TaskMachine.Shifting

open Stateful Asm Expansions Renumbering Tables

/-! ## What may be shifted -/

/-- The line may stand in any place: it does not use the number of its line, and has no local
labels. -/
structure Movable [Interpreter] (line : String) : Prop where
  number : ¬ Uses lineEquate line
  plain : '@' ∉ line.toList

/-- No macro uses line numbers, and but for those to be left alone, none has local labels. -/
def Clean [Interpreter] (off : String → Prop) (macros : Table MacroDef) : Prop :=
  ∀ name m, macros.find? name = some m →
    ∀ line ∈ m.body, ¬ Uses lineEquate line ∧ (off name ∨ '@' ∉ line.toList)

/-! ## The record of one of two runs -/

section Steps

variable {α β α' β' : Type}

/-- Whichever way the work ends, it only adds to the record. -/
def Grows (x : Recording α) : Prop := ∀ s es, ∃ new, (endState (x (s, es))).2 = es ++ new

/-- Work that does what other work does adds to the record what the latter's says. -/
theorem Grows.of_follows {x : Recording α} {y : Asm α}
    {P : Table MacroDef → List Expansion → Prop} (h : ∀ macros, Follows macros (P macros) x y) :
    Grows x := by
  intro s es
  obtain ⟨new, hx, -⟩ := h s.macros s es rfl
  refine ⟨new, ?_⟩
  rw [hx]
  cases y s <;> rfl

theorem Grows.bind {x : Recording α} {f : α → Recording β} (hx : Grows x)
    (hf : ∀ a, Grows (f a)) : Grows (x >>= f) := by
  intro s es
  obtain ⟨new, hnew⟩ := hx s es
  cases h : x (s, es) with
  | ok a p =>
    rw [h] at hnew
    obtain ⟨more, hmore⟩ := hf a p.1 p.2
    refine ⟨new ++ more, ?_⟩
    rw [bind_of_ok h, hmore, ← List.append_assoc]
    exact congrArg (· ++ more) hnew
  | error e p =>
    rw [h] at hnew
    exact ⟨new, by rw [bind_of_error h]; exact hnew⟩

theorem Grows.plain (y : Asm α) : Grows (Recording.plain y) :=
  .of_follows fun _ => .quiet y

theorem record_wrapping (wrap : AsmError → AsmError) (x : Recording α)
    (p : Assembly × List Expansion) :
    (endState (Recording.wrapping wrap x p)).2 = (endState (x p)).2 := by
  unfold Recording.wrapping
  cases x p <;> rfl

theorem record_withScope (x : Recording α) (p : Assembly × List Expansion) :
    (endState (Recording.withScope x p)).2 = (endState (x p)).2 := by
  unfold Recording.withScope
  cases x p <;> rfl

theorem Grows.wrapping {x : Recording α} (wrap : AsmError → AsmError) (h : Grows x) :
    Grows (Recording.wrapping wrap x) := by
  intro s es
  rw [record_wrapping]
  exact h s es

theorem Grows.withScope {x : Recording α} (h : Grows x) : Grows (Recording.withScope x) := by
  intro s es
  rw [record_withScope]
  exact h s es

/-- The recording work agrees with the other work, unless it expands a macro that is to be left
alone. -/
structure InStep [Interpreter] (off : String → Prop) (V : α → α' → Prop) (x : Recording α)
    (y : Asm α') : Prop where
  grows : Grows x
  agree : ∀ s s' es new, Alike SameEquates (Clean off) s s' → (endState (x (s, es))).2 = es ++ new →
    (∀ e ∈ new, ¬ off e.site.name) →
    Agree V (fun p t => Alike SameEquates (Clean off) p.1 t) (x (s, es)) (y s')

namespace InStep

variable [Interpreter] {off : String → Prop} {V : α → α' → Prop} {W : β → β' → Prop}

theorem plain {x : Asm α} {y : Asm α'} (h : Together V (Alike SameEquates (Clean off)) x y) :
    InStep off V (Recording.plain x) y where
  grows := .plain x
  agree s s' es new hs _ _ := by
    have hrun := h s s' hs
    unfold Recording.plain
    generalize x s = r at hrun ⊢
    generalize y s' = r' at hrun ⊢
    cases hrun with
    | ok value state => exact .ok value state
    | error e e' t t' => exact .error e e' (t, es) t'

theorem bind {x : Recording α} {y : Asm α'} {f : α → Recording β} {g : α' → Asm β'}
    (hx : InStep off V x y) (hgrows : ∀ a, Grows (f a))
    (hf : ∀ a b, V a b → InStep off W (f a) (g b)) : InStep off W (x >>= f) (y >>= g) where
  grows := hx.grows.bind hgrows
  agree s s' es new hs hrecord hnew := by
    obtain ⟨first, hfirst⟩ := hx.grows s es
    obtain ⟨second, hsecond⟩ : ∃ second, new = first ++ second := by
      cases hrun : x (s, es) with
      | ok a p =>
        rw [hrun] at hfirst
        obtain ⟨second, hmore⟩ := hgrows a p.1 p.2
        have hp : p.2 = es ++ first := hfirst
        rw [bind_of_ok hrun, hmore, hp, List.append_assoc] at hrecord
        exact ⟨second, (List.append_cancel_left hrecord).symm⟩
      | error e p =>
        rw [hrun] at hfirst
        rw [bind_of_error hrun] at hrecord
        have hsame : es ++ first = es ++ new := hfirst.symm.trans hrecord
        exact ⟨[], by rw [List.append_nil, List.append_cancel_left hsame]⟩
    subst hsecond
    obtain ⟨hclean, hclean'⟩ := List.forall_mem_append.mp hnew
    refine (hx.agree s s' es first hs hfirst hclean).bind fun a b p t' hrun hV ht => ?_
    rw [hrun] at hfirst
    have hp : p.2 = es ++ first := hfirst
    rw [bind_of_ok hrun, ← List.append_assoc, ← hp] at hrecord
    exact (hf a b hV).agree p.1 t' p.2 second ht hrecord hclean'

theorem bind_eq {x : Recording α} {y : Asm α} {f : α → Recording β} {g : α → Asm β'}
    (hx : InStep off Eq x y) (hf : ∀ a, InStep off W (f a) (g a)) :
    InStep off W (x >>= f) (y >>= g) :=
  hx.bind (fun a => (hf a).grows) fun a b hab => by
    subst hab
    exact hf a

theorem pure {a : α} {b : α'} (h : V a b) : InStep off V (Pure.pure a) (Pure.pure b) :=
  plain (.pure h)

theorem throw (e e' : AsmError) :
    InStep off V (MonadExcept.throw e : Recording α) (MonadExcept.throw e' : Asm α') :=
  plain (.throw e e')

theorem get_bind {f : Assembly × List Expansion → Recording α} {g : Assembly → Asm α'}
    (hgrows : ∀ p, Grows (f p))
    (h : ∀ s s' es, Alike SameEquates (Clean off) s s' → InStep off V (f (s, es)) (g s')) :
    InStep off V (get >>= f) (get >>= g) where
  grows s es := hgrows (s, es) s es
  agree s s' es new hs hrecord hnew := (h s s' es hs).agree s s' es new hs hrecord hnew

theorem wrapping {x : Recording α} {y : Asm α'} (wrap wrap' : AsmError → AsmError)
    (h : InStep off V x y) : InStep off V (Recording.wrapping wrap x) (Asm.wrapping wrap' y) where
  grows := h.grows.wrapping wrap
  agree s s' es new hs hrecord hnew := by
    rw [record_wrapping] at hrecord
    have hrun := h.agree s s' es new hs hrecord hnew
    unfold Recording.wrapping Asm.wrapping
    generalize x (s, es) = r at hrun ⊢
    generalize y s' = r' at hrun ⊢
    cases hrun with
    | ok value state => exact .ok value state
    | error e e' t t' => exact .error (wrap e) (wrap' e') t t'

/-- Both put their equates back. -/
theorem withScope {x : Recording α} {y : Asm α'} (h : InStep off V x y) :
    InStep off V (Recording.withScope x) (Asm.withScope y) where
  grows := h.grows.withScope
  agree s s' es new hs hrecord hnew := by
    rw [record_withScope] at hrecord
    have hrun := h.agree s s' es new hs hrecord hnew
    unfold Recording.withScope Asm.withScope
    generalize x (s, es) = r at hrun ⊢
    generalize y s' = r' at hrun ⊢
    cases hrun with
    | ok value state => exact .ok value { state with equates := hs.equates }
    | error e e' t t' => exact .error e e' _ _

end InStep

end Steps

/-! ## Macros -/

/-- The readers agree on every line that may stand in any place. -/
def ReadsInStep [Interpreter] (off : String → Prop) (read : Recording.Reader)
    (read' : LineReader) : Prop :=
  ∀ number number' line, ¬ Uses lineEquate line →
    InStep off Eq (read number line) (read' number' line)

section Macros

variable {off : String → Prop}

/-- A line without local labels is the same in every expansion. -/
theorem marked_eq_self {line : String} (h : '@' ∉ line.toList) (mark : String) :
    marked mark line = line := by
  have hkept : line.toList.flatMap (fun c => if c = '@' then mark.toList else [c]) =
      line.toList.flatMap fun c => [c] := by
    refine List.flatMap_congr fun c hc => if_neg ?_
    rintro rfl
    exact h hc
  unfold marked
  rw [hkept, List.flatMap_singleton', String.ofList_toList]

theorem inStep_expandBody [Interpreter] {read : Recording.Reader} {read' : LineReader}
    (hread : ReadsInStep off read read') (name mark mark' : String) (number number' : Nat)
    {lines : List String} (hlines : ∀ line ∈ lines, Movable line) :
    InStep off Eq (Recording.expandBody read name mark number lines)
      (Asm.expandBody read' name mark' number' lines) := by
  induction lines generalizing number number' with
  | nil => exact .pure rfl
  | cons line lines ih =>
    obtain ⟨hline, hrest⟩ := List.forall_mem_cons.mp hlines
    unfold Recording.expandBody Asm.expandBody
    rw [marked_eq_self hline.plain, marked_eq_self hline.plain]
    refine .bind_eq (.wrapping _ _ ?_) fun _ => ih (number + 1) (number' + 1) hrest
    refine .bind_eq (hread number number' line hline.number) fun words => .plain ?_
    exact together_assembleWords number number' words

theorem grows_expandBody {read : Recording.Reader} (hread : ∀ number line, Grows (read number line))
    (name mark : String) (number : Nat) (lines : List String) :
    Grows (Recording.expandBody read name mark number lines) := by
  induction lines generalizing number with
  | nil => exact .plain (Pure.pure ())
  | cons line lines ih =>
    have hline : Grows (do
        let words ← read number (marked mark line)
        Recording.plain (assembleWords number words)) :=
      (hread number _).bind fun words => .plain _
    exact (hline.wrapping _).bind fun _ => ih (number + 1)

/-- The arguments of a macro become equates, one after the other. -/
theorem bindParams_apply (params args : List String) (s : Assembly) :
    bindParams params args s =
      .ok () { s with equates := s.equates.insertAll (params.zip args) } := by
  induction params generalizing args s with
  | nil => rfl
  | cons param params ih =>
    cases args with
    | nil => rfl
    | cons arg args => exact ih args _

/-- An expansion is in the record from its beginning on, also where its body fails. -/
theorem expand_enters {read : List Site → Recording.Reader}
    (hread : ∀ outer number line, Grows (read outer number line)) (outer : List Site)
    (number : Nat) (name : String) {m : MacroDef} {args : List String}
    (hargs : args.length = m.params.length) (s : Assembly) (es : List Expansion) :
    ∃ more, (endState (Recording.expand read outer number name m args (s, es))).2 =
      es ++ ⟨⟨name, number⟩, outer, localMark name number⟩ :: more := by
  let s' : Assembly := { s with equates := s.equates.insertAll (m.params.zip args) }
  let e : Expansion := ⟨⟨name, number⟩, outer, localMark name number⟩
  have hbind : Recording.plain (bindParams m.params args) (s, es) = .ok () (s', es) := by
    unfold Recording.plain
    rw [bindParams_apply]
    rfl
  have henter : Recording.enter e (s', es) = .ok () (s', es ++ [e]) := rfl
  obtain ⟨more, hmore⟩ := grows_expandBody (hread (⟨name, number⟩ :: outer)) name
    (localMark name number) m.number m.body s' (es ++ [e])
  refine ⟨more, ?_⟩
  unfold Recording.expand
  rw [if_neg (not_not_intro hargs), record_withScope, bind_of_ok hbind, bind_of_ok henter, hmore,
    List.append_assoc]
  rfl

theorem grows_expand {read : List Site → Recording.Reader}
    (hread : ∀ outer number line, Grows (read outer number line)) (outer : List Site)
    (number : Nat) (name : String) (m : MacroDef) (args : List String) :
    Grows (Recording.expand read outer number name m args) := by
  intro s es
  by_cases hargs : args.length = m.params.length
  · obtain ⟨more, hmore⟩ := expand_enters hread outer number name hargs s es
    exact ⟨_, hmore⟩
  · refine ⟨[], ?_⟩
    unfold Recording.expand
    rw [if_pos hargs, List.append_nil]
    rfl

variable [Interpreter]

theorem inStep_enter (e : Expansion) : InStep off Eq (Recording.enter e) (Pure.pure ()) where
  grows _ _ := ⟨[e], rfl⟩
  agree _ _ _ _ hs _ _ := .ok rfl hs

theorem inStep_expand {read : List Site → Recording.Reader} {read' : LineReader}
    (hgrows : ∀ outer number line, Grows (read outer number line))
    (hread : ∀ outer, ReadsInStep off (read outer) read') (outer : List Site)
    (number number' : Nat) (name : String) {m m' : MacroDef} (hmoved : Moved m m')
    (hclean : ∀ line ∈ m.body, ¬ Uses lineEquate line ∧ (off name ∨ '@' ∉ line.toList))
    (args : List String) :
    InStep off Eq (Recording.expand read outer number name m args)
      (Asm.expand read' number' name m' args) := by
  obtain ⟨first, rfl⟩ := hmoved
  by_cases hargs : args.length = m.params.length
  · by_cases hoff : off name
    · refine ⟨grows_expand hgrows outer number name m args, fun s s' es new _ hrecord hnew => ?_⟩
      obtain ⟨more, hmore⟩ := expand_enters hgrows outer number name hargs s es
      rw [hmore] at hrecord
      have hentered := List.append_cancel_left hrecord
      exact absurd hoff (hnew _ (hentered ▸ List.mem_cons_self))
    · have hlines : ∀ line ∈ m.body, Movable line := fun line hline =>
        ⟨(hclean line hline).1, (hclean line hline).2.resolve_left hoff⟩
      unfold Recording.expand Asm.expand
      rw [if_neg (not_not_intro hargs), if_neg (not_not_intro hargs)]
      refine .withScope (.bind_eq (.plain (together_bindParams _ _)) fun _ => ?_)
      exact (inStep_enter _).bind_eq
        (g := fun _ => Asm.expandBody read' name (localMark name number') first m.body)
        fun _ => inStep_expandBody (hread _) _ _ _ _ _ hlines
  · unfold Recording.expand Asm.expand
    rw [if_pos hargs, if_pos hargs]
    exact .throw _ _

theorem grows_readLine (depth : Nat) (outer : List Site) (number : Nat) (line : String) :
    Grows (Recording.readLine depth outer number line) :=
  .of_follows fun _ => matches_readLine depth outer number line

theorem inStep_readLineWith (hlexical : Interpreter.Lexical)
    {read : List Site → Recording.Reader} {read' : LineReader}
    (hgrows : ∀ outer number line, Grows (read outer number line))
    (hread : ∀ outer, ReadsInStep off (read outer) read') (outer : List Site) :
    ReadsInStep off (Recording.readLineWith read outer) (Asm.readLineWith read') := by
  intro number number' line hline
  rw [readLineWith_eq]
  refine .bind_eq (.plain (together_front hlexical number number' hline)) fun words => ?_
  cases words with
  | nil => exact .pure rfl
  | cons name args =>
    refine .get_bind (fun p => ?_) fun s s' es hs => ?_
    · cases p.1.macros.find? name with
      | none => exact .plain (Pure.pure _)
      | some m => exact (grows_expand hgrows _ _ _ _ _).bind fun _ => .plain (Pure.pure _)
    · have hfound := hs.macros name
      have hclean := hs.proper name
      dsimp only
      generalize s.macros.find? name = r at hfound hclean ⊢
      generalize s'.macros.find? name = r' at hfound ⊢
      cases hfound with
      | none => exact .pure rfl
      | some hmoved =>
        refine .bind_eq ?_ fun _ => .pure rfl
        exact inStep_expand hgrows hread outer number number' name hmoved (hclean _ rfl) args

/-- The readers agree, by induction on how deep macros may nest. -/
theorem inStep_readLine (hlexical : Interpreter.Lexical) (depth : Nat) (outer : List Site) :
    ReadsInStep off (Recording.readLine depth outer) (Asm.readLine depth) := by
  induction depth generalizing outer with
  | zero =>
    refine inStep_readLineWith hlexical (fun _ _ _ => .plain (MonadExcept.throw _)) (fun _ => ?_)
      outer
    exact fun _ _ _ _ => .throw _ _
  | succ depth ih => exact inStep_readLineWith hlexical (grows_readLine depth) ih outer

end Macros

/-! ## Definitions of macros -/

section Definitions

variable [Interpreter] {E : Table String → Table String → Prop} {off : String → Prop}

theorem contains_alike {s s' : Assembly} (h : Alike E (Clean off) s s') (name : String) :
    s'.macros.contains name = s.macros.contains name := by
  have hfound := h.macros name
  unfold Table.contains
  generalize s.macros.find? name = r at hfound ⊢
  generalize s'.macros.find? name = r' at hfound ⊢
  cases hfound with
  | none => rfl
  | some _ => rfl

theorem insert_alike {s s' : Assembly} (h : Alike E (Clean off) s s') (name : String)
    {m m' : MacroDef} (hmoved : Moved m m')
    (hclean : ∀ line ∈ m.body, ¬ Uses lineEquate line ∧ (off name ∨ '@' ∉ line.toList)) :
    Alike E (Clean off) { s with macros := s.macros.insert name m }
      { s' with macros := s'.macros.insert name m' } := by
  refine { h with macros := fun other => ?_, proper := fun other k hk => ?_ }
  · rw [find?_insert, find?_insert]
    split
    · exact .some hmoved
    · exact h.macros other
  · rw [find?_insert] at hk
    split at hk
    · rename_i hother
      cases hk
      rw [hother]
      exact hclean
    · exact h.proper other k hk

theorem together_openMacro (number number' : Nat) (words : List String) :
    Together Eq (Alike E (Clean off)) (openMacro number words) (openMacro number' words) := by
  cases words with
  | nil => exact .throw _ _
  | cons name params =>
    refine .get_bind fun s s' h => ?_
    rw [contains_alike h name]
    refine .ite (.throw_bind _ _ _ _) (.bind_eq (.modify fun t t' k => ?_) fun _ => .pure rfl)
    exact insert_alike k name ⟨number' + 1, rfl⟩ nofun

theorem together_extendMacro (name : String) {line : String} (hline : Movable line) :
    Together Eq (Alike E (Clean off)) (extendMacro name line) (extendMacro name line) := by
  refine .modify fun s s' h => ?_
  have hfound := h.macros name
  have hclean := h.proper name
  generalize s.macros.find? name = r at hfound hclean ⊢
  generalize s'.macros.find? name = r' at hfound ⊢
  cases hfound with
  | none => exact h
  | some hmoved =>
    rename_i m m'
    obtain ⟨n, rfl⟩ := hmoved
    refine insert_alike h name ⟨n, rfl⟩ fun other hother => ?_
    rcases List.mem_append.mp hother with hold | hnew
    · exact hclean m rfl other hold
    · rw [List.mem_singleton.mp hnew]
      exact ⟨hline.number, .inr hline.plain⟩

/-- A line that belongs to the definition of a macro. -/
theorem together_definition (number number' : Nat) {opened : Option String} {line : String}
    (hline : Movable line) (hdefines : opened ≠ none ∨ LocalMarks.Delimits line) :
    Together Eq (Alike E (Clean off)) (takeLine number line opened)
      (takeLine number' line opened) := by
  unfold takeLine
  split
  · exact .throw _ _
  · exact .bind_eq (together_openMacro number number' _) fun _ => .pure rfl
  · exact .throw _ _
  · exact .pure rfl
  · exact .bind_eq (together_extendMacro _ hline) fun _ => .pure rfl
  · rename_i hopens hcloses
    exact hdefines.elim (absurd rfl) (absurd · (LocalMarks.not_delimits hopens hcloses))

end Definitions

/-! ## Sources -/

section Sources

variable [Interpreter] (hlexical : Interpreter.Lexical) {off : String → Prop}

include hlexical

theorem inStep_takeLine (number number' : Nat) (opened : Option String) {line : String}
    (hline : Movable line) :
    InStep off Eq (Recording.takeLine number line opened) (Asm.takeLine number' line opened) := by
  by_cases hdefines : opened ≠ none ∨ LocalMarks.Delimits line
  · rw [LocalMarks.recordingTakeLine_of_definition hdefines]
    exact .plain (together_definition number number' hline hdefines)
  · obtain ⟨hopened, hcode⟩ := not_or.mp hdefines
    obtain rfl := not_not.mp hopened
    rw [LocalMarks.recordingTakeLine_of_not_delimits hcode, LocalMarks.takeLine_of_not_delimits hcode]
    have hread : InStep off Eq (Recording.readLine macroDepthLimit [] number line)
        (Asm.readLine macroDepthLimit number' line) :=
      inStep_readLine hlexical macroDepthLimit [] number number' line hline.number
    refine .bind_eq hread fun words => ?_
    exact .bind_eq (.plain (together_assembleWords number number' words)) fun _ => .pure rfl

/-- Lines come to the same under any numbers, by induction on the lines that are left. -/
theorem inStep_takeLines (number number' : Nat) (before before' : String) (opened : Option String)
    {lines : List (List Char)} (hlines : ∀ raw ∈ lines, Movable (stripped raw)) :
    InStep off Eq (Recording.takeLines number before opened lines)
      (Asm.takeLines number' before' opened lines) := by
  induction lines generalizing number number' before before' opened with
  | nil =>
    cases opened with
    | none => exact .plain (.pure rfl)
    | some name => exact .plain (.throw _ _)
  | cons raw rest ih =>
    obtain ⟨hline, hrest⟩ := List.forall_mem_cons.mp hlines
    rw [Reading.takeLines_cons, Recording.takeLines]
    refine .bind_eq (.plain (together_note _ _)) fun _ => ?_
    refine .bind_eq (.wrapping _ _ (inStep_takeLine hlexical number number' opened hline))
      fun opened => ?_
    exact ih (number + 1) (number' + 1) _ _ opened hrest

end Sources

end TaskMachine.Shifting
