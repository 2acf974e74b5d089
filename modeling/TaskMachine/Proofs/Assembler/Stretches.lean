import TaskMachine.Proofs.Assembler.Shifting
import TaskMachine.Proofs.Assembler.Truncation

/-!
# Stretches of a source

A source is read line by line, so that what its first lines come to is there
before the rest is read: the assembly, the macro that is open, and the record of
the expansions so far. Two sources that begin with the same lines come to the
same, if what follows does.
-/

namespace TaskMachine.Stretches

open Stateful Asm Expansions Renumbering Shifting Numeral

/-! ## Lines that fit -/

/-- The lines before the first one that does not fit. -/
def fitting (lines : List (List Char)) : List (List Char) :=
  lines.takeWhile fun line => decide (Truncation.Fits line)

theorem readLines_eq (cs : List Char) :
    Text.readLines cs = (fitting (Text.rawLines cs)).map Text.dropReturn :=
  rfl

theorem fitting_append {first : List (List Char)} (h : ∀ line ∈ first, Truncation.Fits line)
    (last : List (List Char)) : fitting (first ++ last) = first ++ fitting last :=
  List.takeWhile_append_of_pos fun line hline => decide_eq_true (h line hline)

/-- Nothing is read behind a line that does not fit. -/
theorem fitting_append_of_not {first : List (List Char)}
    (h : ¬ ∀ line ∈ first, Truncation.Fits line) (last : List (List Char)) :
    fitting (first ++ last) = fitting first := by
  unfold fitting
  induction first with
  | nil => exact absurd nofun h
  | cons line rest ih =>
    rw [List.cons_append, List.takeWhile_cons, List.takeWhile_cons]
    split
    · rename_i hline
      rw [ih fun hrest => h (List.forall_mem_cons.mpr ⟨of_decide_eq_true hline, hrest⟩)]
    · rfl

/-! ## Some lines of a source -/

section

variable [Interpreter]

/-- Takes in some lines of a source, and gives the macro that is open behind them. -/
def through : Nat → Option String → List (List Char) → Asm (Option String)
  | _, opened, [] => return opened
  | number, opened, raw :: rest => do
    note fun _ => decimalNat number ++ ": " ++ String.ofList raw
    let opened ← wrapping (.located number (stripped raw)) (takeLine number (stripped raw) opened)
    through (number + 1) opened rest

theorem through_append (number : Nat) (opened : Option String) (first last : List (List Char)) :
    through number opened (first ++ last) = (do
      let opened ← through number opened first
      through (number + first.length) opened last) := by
  induction first generalizing number opened with
  | nil => exact (pure_bind _ _).symm
  | cons raw rest ih =>
    have hnumber : number + 1 + rest.length = number + (raw :: rest).length := by
      rw [List.length_cons]
      omega
    rw [List.cons_append, through, through, bind_assoc]
    refine congrArg _ (funext fun _ => ?_)
    rw [bind_assoc]
    refine congrArg _ (funext fun opened => ?_)
    rw [ih, hnumber]

/-- The line before matters only to the error where a macro is not closed. -/
theorem takeLines_append (number : Nat) (before : String) (first last : List (List Char)) :
    ∃ b, ∀ opened, takeLines number before opened (first ++ last) = (do
      let opened ← through number opened first
      takeLines (number + first.length) b opened last) := by
  induction first generalizing number before with
  | nil => exact ⟨before, fun opened => (pure_bind _ _).symm⟩
  | cons raw rest ih =>
    have hnumber : number + 1 + rest.length = number + (raw :: rest).length := by
      rw [List.length_cons]
      omega
    obtain ⟨b, hb⟩ := ih (number + 1) (stripped raw)
    refine ⟨b, fun opened => ?_⟩
    rw [List.cons_append, Reading.takeLines_cons, through, bind_assoc]
    refine congrArg _ (funext fun _ => ?_)
    rw [bind_assoc]
    refine congrArg _ (funext fun opened => ?_)
    rw [hb, hnumber]

/-! ## The record of some lines -/

theorem recorded_takeLine (number : Nat) (line : String) (opened : Option String) (s : Assembly)
    (es : List Expansion) :
    ∃ es', Recording.takeLine number line opened (s, es) =
      beside es' (Asm.takeLine number line opened s) := by
  by_cases hdefines : opened ≠ none ∨ LocalMarks.Delimits line
  · rw [LocalMarks.recordingTakeLine_of_definition hdefines]
    exact ⟨es, rfl⟩
  · obtain ⟨hopened, hcode⟩ := not_or.mp hdefines
    obtain rfl := not_not.mp hopened
    obtain ⟨new, hrun, -⟩ := LocalMarks.exists_recorded hcode number s es
    exact ⟨es ++ new, hrun⟩

theorem recorded_takeLines (number : Nat) (before : String) (opened : Option String)
    (lines : List (List Char)) (s : Assembly) (es : List Expansion) :
    ∃ es', Recording.takeLines number before opened lines (s, es) =
      beside es' (Asm.takeLines number before opened lines s) := by
  induction lines generalizing number before opened s es with
  | nil => exact ⟨es, rfl⟩
  | cons raw rest ih =>
    let s₁ := Truncation.noted s number raw
    obtain ⟨es₁, hline⟩ := recorded_takeLine number (stripped raw) opened s₁ es
    have hwrapped := wrapping_beside (.located number (stripped raw)) hline
    rw [Truncation.takeLines_cons_apply, Recording.takeLines,
      bind_of_ok (show Recording.plain (Asm.note _) (s, es) = .ok () (s₁, es) from rfl)]
    cases hok : Asm.wrapping (.located number (stripped raw))
        (Asm.takeLine number (stripped raw) opened) s₁ with
    | ok next t =>
      rw [hok] at hwrapped
      obtain ⟨es', hrun⟩ := ih (number + 1) (stripped raw) next t es₁
      exact ⟨es', by rw [bind_of_ok hwrapped, bind_of_ok hok, hrun]⟩
    | error e t =>
      rw [hok] at hwrapped
      exact ⟨es₁, by rw [bind_of_error hwrapped, bind_of_error hok]; rfl⟩

/-- Reading goes on behind some lines with what has been recorded for them. -/
theorem recorded_append {number : Nat} {opened next : Option String} {first : List (List Char)}
    {s t : Assembly} (h : through number opened first s = .ok next t) (before : String)
    (es : List Expansion) :
    ∃ b es', ∀ last, Recording.takeLines number before opened (first ++ last) (s, es) =
      Recording.takeLines (number + first.length) b next last (t, es') := by
  induction first generalizing number opened before s es with
  | nil =>
    obtain ⟨rfl, rfl⟩ := pure_eq_ok.mp h
    exact ⟨before, es, fun last => rfl⟩
  | cons raw rest ih =>
    let s₁ := Truncation.noted s number raw
    have hnumber : number + 1 + rest.length = number + (raw :: rest).length := by
      rw [List.length_cons]
      omega
    rw [through, bind_of_ok (show Asm.note _ s = .ok () s₁ from rfl)] at h
    obtain ⟨o, u, hline, hrest⟩ := bind_eq_ok.mp h
    obtain ⟨es₁, hrecord⟩ := recorded_takeLine number (stripped raw) opened s₁ es
    have hwrapped := wrapping_beside (.located number (stripped raw)) hrecord
    rw [hline] at hwrapped
    obtain ⟨b, es', hlast⟩ := ih hrest (stripped raw) es₁
    refine ⟨b, es', fun last => ?_⟩
    rw [List.cons_append, Recording.takeLines,
      bind_of_ok (show Recording.plain (Asm.note _) (s, es) = .ok () (s₁, es) from rfl),
      bind_of_ok hwrapped, ← hnumber]
    exact hlast last

end

theorem agree_beside {α α' : Type} {V : α → α' → Prop} {R : Assembly → Assembly → Prop}
    {es : List Expansion} {r : EStateM.Result AsmError Assembly α}
    {r' : EStateM.Result AsmError Assembly α'} :
    Agree V (fun p t => R p.1 t) (beside es r) r' ↔ Agree V R r r' := by
  constructor
  · intro h
    cases r <;> cases h
    · exact .ok ‹_› ‹_›
    · exact .error _ _ _ _
  · intro h
    cases h with
    | ok value state => exact .ok value state
    | error e e' t t' => exact .error e e' (t, es) t'

theorem recording_wrapping_eq_ok {α : Type} {wrap : AsmError → AsmError} {work : Recording α}
    {p q : Assembly × List Expansion} {a : α} (h : Recording.wrapping wrap work p = .ok a q) :
    work p = .ok a q := by
  unfold Recording.wrapping at h
  split at h
  · rename_i hwork
    cases h
    exact hwork
  · cases h

/-! ## Two sources -/

variable [Interpreter]

/-- Sources whose lines come to the same come to the same program. -/
theorem parse_of_agree (a : Assembler) {K : Table MacroDef → Prop} {text other : String}
    (h : Agree Eq (Alike SameEquates K) (takeLines 1 "" none (Text.readLines text.toList) a.start)
      (takeLines 1 "" none (Text.readLines other.toList) a.start)) :
    ((∃ p, (a.parse text).2 = .ok p) ↔ ∃ p', (a.parse other).2 = .ok p') ∧
      ∀ p p', (a.parse text).2 = .ok p → (a.parse other).2 = .ok p' → SameCode p p' := by
  have hsource : Agree SameCode (Alike SameEquates K) (source text a.start)
      (source other a.start) :=
    h.bind fun _ _ s s' _ _ hs => together_link s s' hs
  unfold Assembler.parse
  generalize source text a.start = r at hsource ⊢
  generalize source other a.start = r' at hsource ⊢
  cases hsource with
  | ok hsame _ =>
    refine ⟨⟨fun _ => ⟨_, rfl⟩, fun _ => ⟨_, rfl⟩⟩, fun p p' hp hp' => ?_⟩
    cases hp
    cases hp'
    exact hsame
  | error => exact ⟨⟨nofun, nofun⟩, nofun⟩

/-- Sources that are the same up to a line come to the same if what follows does. -/
theorem agree_append {a : Assembler} {text : String} {first last last' : List (List Char)}
    (htext : Text.readLines text.toList = first ++ last)
    (h : ∀ opened s, through 1 none first a.start = .ok opened s → ∀ before before' es,
      expansions a text =
        (endState (Recording.takeLines (1 + first.length) before opened last (s, es))).2 →
      ∃ off, Agree Eq (fun p t => Alike SameEquates (Clean off) p.1 t)
        (Recording.takeLines (1 + first.length) before opened last (s, es))
        (takeLines (1 + first.length) before' opened last' s)) :
    ∃ off, Agree Eq (Alike SameEquates (Clean off))
      (takeLines 1 "" none (first ++ last) a.start)
      (takeLines 1 "" none (first ++ last') a.start) := by
  obtain ⟨b, hb⟩ := takeLines_append 1 "" first last
  obtain ⟨b', hb'⟩ := takeLines_append 1 "" first last'
  cases hfirst : through 1 none first a.start with
  | error e t =>
    rw [hb none, hb' none, bind_of_error hfirst, bind_of_error hfirst]
    exact ⟨fun _ => False, .error e e t t⟩
  | ok opened s =>
    obtain ⟨before, es, hrecord⟩ := recorded_append hfirst "" []
    have hexpansions : expansions a text =
        (endState (Recording.takeLines (1 + first.length) before opened last (s, es))).2 := by
      unfold expansions
      rw [htext, hrecord]
    obtain ⟨off, hagree⟩ := h opened s hfirst before b' es hexpansions
    obtain ⟨es', hrun⟩ := recorded_takeLines 1 "" none (first ++ last) a.start []
    rw [← hrecord, hrun, agree_beside] at hagree
    refine ⟨off, ?_⟩
    rw [hb' none, bind_of_ok hfirst]
    exact hagree

end TaskMachine.Stretches
