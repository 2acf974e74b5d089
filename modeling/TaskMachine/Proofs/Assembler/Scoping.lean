import TaskMachine.Expr.Script
import TaskMachine.Proofs.Assembler.CodeLines

/-!
# What a macro does to the equates

Every line sets the equate of its number, and a definition adds one name to the
equates. The lines of a macro do the same while its arguments are equates: they
are numbered in its definition, they may define names, and they may invoke macros
with arguments of their own. None of that is seen behind the line that invokes the
macro, whichever of the lines inside may fail. Nor is it seen between the lines of
a body, so that the arguments of a macro stand until its last line.
-/

namespace TaskMachine.Scoping

open Stateful Reading Expansions CodeLines Shifting Asm

/-! ## Lines -/

/-- The equates when a line has been read: those with its number, and one more if the line defines
a name that is not among them. -/
inductive Leaves [Interpreter] (number : Nat) (line : String) (e : Table String) :
    Table String → Prop
  | numbered : Leaves number line e (onLine e number)
  | defined {directive name : String} {operands : List String} (value : String)
    (words : wordsOf (onLine e number) line = .ok (directive :: name :: operands))
    (defines : directive = ".equ" ∨ directive = ".pool")
    (new : (onLine e number).find? name = none) :
    Leaves number line e ((onLine e number).insert name value)

/-- The equates are the same. -/
def SameTable (s t : Assembly) : Prop := t.equates = s.equates

theorem SameTable.refl (s : Assembly) : SameTable s s := rfl

theorem SameTable.trans {s t u : Assembly} (h : SameTable s t) (k : SameTable t u) :
    SameTable s u :=
  Eq.trans k h

theorem keeps_defineLabel (label : String) : Keeps SameTable (defineLabel label) := by
  intro s
  unfold defineLabel
  rw [get_bind_apply]
  cases s.labels.contains label <;> rfl

theorem keeps_takeLabels (words : List String) : Keeps SameTable (takeLabels words) := by
  induction words with
  | nil => exact .pure SameTable.refl _
  | cons word words ih =>
    unfold takeLabels
    cases definedLabel? word with
    | none => exact .pure SameTable.refl _
    | some label => exact .bind .trans (keeps_defineLabel label) fun _ => ih

/-- The name that some operands begin with has been added if it was new, and nothing else has been
done to the equates. -/
def Defines (operands : List String) (e f : Table String) : Prop :=
  f = e ∨ ∃ name rest value, operands = name :: rest ∧ e.find? name = none ∧ f = e.insert name value

theorem defines_defineEquate (operands : List String) (s : Assembly) :
    Defines operands s.equates (endState (defineEquate operands s)).equates := by
  unfold defineEquate
  split
  · rename_i name value
    rw [bind_of_ok (Lines.equate?_apply name s)]
    cases hname : s.equates.find? name with
    | some old => exact .inl rfl
    | none => exact .inr ⟨name, [value], value, rfl, hname, rfl⟩
  · exact .inl rfl

theorem defines_defineConstant (operands : List String) (s : Assembly) :
    Defines operands s.equates (endState (defineConstant operands s)).equates := by
  unfold defineConstant
  split
  · rename_i name kind value more
    rw [bind_of_ok (Lines.equate?_apply name s)]
    cases hname : s.equates.find? name with
    | some old => exact .inl rfl
    | none =>
      cases constantOf kind value more with
      | error e => exact .inl rfl
      | ok item => exact .inr ⟨name, kind :: value :: more, _, rfl, hname, rfl⟩
  · exact .inl rfl

theorem Defines.leaves [Interpreter] {operands : List String} {number : Nat}
    {line directive : String} {e f : Table String} (h : Defines operands (onLine e number) f)
    (hwords : wordsOf (onLine e number) line = .ok (directive :: operands))
    (hdirective : directive = ".equ" ∨ directive = ".pool") : Leaves number line e f := by
  rcases h with rfl | ⟨name, rest, value, rfl, hnew, rfl⟩
  · exact .numbered
  · exact .defined value hwords hdirective hnew

theorem endState_bind_pure {α β : Type} (x : Asm α) (b : β) (s : Assembly) :
    endState ((do let _ ← x; return b) s) = endState (x s) := by
  cases h : x s with
  | ok a t => rw [bind_of_ok h]; rfl
  | error e t => rw [bind_of_error h]; rfl

theorem leaves_front [Interpreter] (number : Nat) (line : String) (s : Assembly) :
    Leaves number line s.equates (endState (front number line s)).equates := by
  let s₁ : Assembly := { s with equates := onLine s.equates number }
  rw [front_apply]
  cases hwords : wordsOf (onLine s.equates number) line with
  | error e => exact .numbered
  | ok words =>
    cases words with
    | nil => exact .numbered
    | cons head rest =>
      dsimp only
      by_cases hequ : head = ".equ"
      · rw [if_pos hequ, endState_bind_pure]
        exact (defines_defineEquate rest s₁).leaves hwords (.inl hequ)
      · rw [if_neg hequ]
        by_cases hpool : head = ".pool"
        · rw [if_pos hpool, endState_bind_pure]
          exact (defines_defineConstant rest s₁).leaves hwords (.inr hpool)
        · rw [if_neg hpool, keeps_takeLabels _ s₁]
          exact .numbered

/-! ## Expansions -/

theorem withScope_eq {α : Type} (work : Asm α) (s : Assembly) :
    withScope work s = onState (fun t => { t with equates := s.equates }) (work s) := by
  unfold withScope
  cases work s <;> rfl

/-- The body of a macro is read with the arguments as equates, and then they are put back. -/
theorem expand_eq (nested : LineReader) (number : Nat) (name : String) {m : MacroDef}
    {args : List String} (harity : args.length = m.params.length) (s : Assembly) :
    expand nested number name m args s =
      onState (fun t => { t with equates := s.equates })
        (expandBody nested name (localMark name number) m.number m.body
          { s with equates := s.equates.insertAll (m.params.zip args) }) := by
  unfold expand
  rw [if_neg (not_not_intro harity), withScope_eq, bind_of_ok (bindParams_apply m.params args s)]

/-- An expansion puts the equates back, whichever way it ends. -/
theorem keeps_expand (nested : LineReader) (number : Nat) (name : String) (m : MacroDef)
    (args : List String) : Keeps SameTable (expand nested number name m args) := by
  intro s
  by_cases harity : args.length = m.params.length
  · rw [expand_eq nested number name harity]
    cases expandBody nested name (localMark name number) m.number m.body _ <;> rfl
  · unfold expand
    rw [if_pos harity]
    rfl

/-- So a line leaves the equates that it has set up to the expansion. -/
theorem equates_readLineWith [Interpreter] (nested : LineReader) (number : Nat) (line : String)
    (s : Assembly) :
    (endState (readLineWith nested number line s)).equates =
      (endState (front number line s)).equates := by
  rw [readLineWith_eq]
  cases hfront : front number line s with
  | error e t => rw [bind_of_error hfront]
  | ok words t =>
    rw [bind_of_ok hfront]
    cases words with
    | nil => rfl
    | cons name args =>
      dsimp only
      rw [get_bind_apply]
      cases t.macros.find? name with
      | none => rfl
      | some m =>
        dsimp only
        rw [endState_bind_pure]
        exact keeps_expand nested number name m args t

theorem leaves_readLine [Interpreter] (depth number : Nat) (line : String) (s : Assembly) :
    Leaves number line s.equates (endState (readLine depth number line s)).equates := by
  obtain ⟨nested, hnested⟩ := exists_readLineWith depth
  rw [hnested, equates_readLineWith]
  exact leaves_front number line s

/-! ## Bodies -/

/-- Every equate but the number of the line stands as it did. -/
def Stand (e f : Table String) : Prop :=
  ∀ name value, name ≠ lineEquate → e.find? name = some value → f.find? name = some value

theorem Stand.refl (e : Table String) : Stand e e := fun _ _ _ h => h

theorem Stand.trans {e f g : Table String} (h : Stand e f) (k : Stand f g) : Stand e g :=
  fun name value hname hvalue => k name value hname (h name value hname hvalue)

/-- A line defines no name that is an equate already. -/
theorem Leaves.stand [Interpreter] {number : Nat} {line : String} {e f : Table String}
    (h : Leaves number line e f) : Stand e f := by
  intro key old hkey hold
  have hline : (onLine e number).find? key = some old := by
    rw [onLine, Tables.find?_insert, if_neg hkey]
    exact hold
  cases h with
  | numbered => exact hline
  | @defined directive name operands value words defines new =>
    have hne : key ≠ name := by
      rintro rfl
      rw [new] at hline
      cases hline
    rw [Tables.find?_insert, if_neg hne]
    exact hline

def StandIn (s t : Assembly) : Prop := Stand s.equates t.equates

theorem StandIn.trans {s t u : Assembly} (h : StandIn s t) (k : StandIn t u) : StandIn s u :=
  Stand.trans h k

theorem ensures_readLine [Interpreter] (depth number : Nat) (line : String) :
    Ensures StandIn (readLine depth number line) := by
  intro s words t h
  have hleaves := leaves_readLine depth number line s
  rw [h] at hleaves
  exact hleaves.stand

theorem ensures_assembleWords (number : Nat) (words : List String) :
    Ensures StandIn (assembleWords number words) := by
  cases words with
  | nil => exact .pure (fun s => .refl s.equates) _
  | cons head operands =>
    intro s u t h
    obtain ⟨pc, s', hpc, h⟩ := bind_eq_ok.mp h
    cases hpc
    obtain ⟨line, t', hline, h⟩ := bind_eq_ok.mp h
    have hsame := (Lines.lineOf_quiet _ _ _ _ _ _ hline).equates
    rw [modify_eq_ok.mp h]
    unfold StandIn
    rw [← hsame]
    exact .refl _

/-- What is an equate when lines of a body are begun is the same equate when they have been read,
although macros that they invoke may have parameters of the same names. -/
theorem ensures_expandBody [Interpreter] (depth : Nat) (name mark : String) (number : Nat)
    (lines : List String) : Ensures StandIn (expandBody (readLine depth) name mark number lines) := by
  induction lines generalizing number with
  | nil => exact .pure (fun s => .refl s.equates) _
  | cons line lines ih =>
    refine .bind .trans (ensures_wrapping _ ?_) fun _ => ih (number + 1)
    exact .bind .trans (ensures_readLine depth _ _) fun words =>
      ensures_assembleWords number words

/-! ## Invocations -/

/-- A line that invokes a macro with the given arguments, once equates have been replaced in it. -/
structure Invokes [Interpreter] (s : Assembly) (number : Nat) (line name : String)
    (args : List String) (m : MacroDef) : Prop where
  words : ∃ head rest, wordsOf (onLine s.equates number) line = .ok (head :: rest) ∧
    head ≠ ".equ" ∧ head ≠ ".pool" ∧
    behindLabels (substituted (onLine s.equates number) (head :: rest)) = name :: args
  known : s.macros.find? name = some m

/-- The equates with which the body of a macro is begun. -/
def bound (e : Table String) (number : Nat) (m : MacroDef) (args : List String) : Table String :=
  (onLine e number).insertAll (m.params.zip args)

section Invokes

variable [Interpreter] {s : Assembly} {number : Nat} {line name : String} {args : List String}
  {m : MacroDef} (h : Invokes s number line name args m)

include h

/-- The line that invokes a macro is numbered and defines no name itself. -/
theorem Invokes.equates_of_leaves {e : Table String} (he : Leaves number line s.equates e) :
    e = onLine s.equates number := by
  obtain ⟨head, rest, hwords, hequ, hpool, -⟩ := h.words
  cases he with
  | numbered => rfl
  | defined value words defines new =>
    rw [hwords] at words
    obtain ⟨rfl, -⟩ := List.cons.inj (Except.ok.inj words)
    exact absurd defines (not_or.mpr ⟨hequ, hpool⟩)

theorem Invokes.front_eq {words : List String} {t : Assembly}
    (hfront : front number line s = .ok words t) :
    words = name :: args ∧ t.equates = onLine s.equates number ∧ t.macros = s.macros := by
  obtain ⟨head, rest, hwords, hequ, hpool, hbehind⟩ := h.words
  have hleaves := leaves_front number line s
  rw [hfront] at hleaves
  refine ⟨?_, h.equates_of_leaves hleaves, front_sameMacros number line s words t hfront⟩
  rw [front_apply, hwords] at hfront
  dsimp only at hfront
  rw [if_neg hequ, if_neg hpool] at hfront
  rw [← hbehind]
  exact takeLabels_eq_ok hfront

/-- The body is read with the arguments as equates, and all that is kept of its run are the other
parts of the assembly. -/
theorem Invokes.readLine_eq (depth : Nat) {words : List String} {t : Assembly}
    (hfront : front number line s = .ok words t) (harity : args.length = m.params.length) :
    readLine (depth + 1) number line s =
      onState (fun u => { u with equates := onLine s.equates number })
        ((do
          expandBody (readLine depth) name (localMark name number) m.number m.body
          return []) { t with equates := bound s.equates number m args }) := by
  obtain ⟨rfl, hequates, hmacros⟩ := h.front_eq hfront
  have hknown : t.macros.find? name = some m := by
    rw [hmacros]
    exact h.known
  have hexpand := expand_eq (readLine depth) number name harity t
  rw [hequates] at hexpand
  rw [readLine, readLineWith_eq, bind_of_ok hfront]
  dsimp only
  rw [get_bind_apply, hknown]
  dsimp only
  unfold bound
  cases hrun : expandBody (readLine depth) name (localMark name number) m.number m.body
      { t with equates := (onLine s.equates number).insertAll (m.params.zip args) } with
  | ok u v =>
    rw [hrun] at hexpand
    rw [bind_of_ok hexpand, bind_of_ok hrun]
    rfl
  | error e v =>
    rw [hrun] at hexpand
    rw [bind_of_error hexpand, bind_of_error hrun]
    rfl

end Invokes

/-- Behind a line that invokes a macro, the equates are those before it with the number of the
line, at whatever depth it stands and whichever way the expansion ends. In between the body is read
with the arguments as equates, which are still there behind any lines of the body that have been
read. -/
theorem equates_restored [Interpreter] (depth number : Nat) (line name : String)
    (args : List String) (m : MacroDef) (s : Assembly) (h : Invokes s number line name args m) :
    (endState (readLine depth number line s)).equates = onLine s.equates number ∧
    (∀ words t, front number line s = .ok words t → args.length = m.params.length →
      readLine (depth + 1) number line s =
        onState (fun u => { u with equates := onLine s.equates number })
          ((do
            expandBody (readLine depth) name (localMark name number) m.number m.body
            return []) { t with equates := bound s.equates number m args })) ∧
    ∀ before after t u, m.body = before ++ after → t.equates = bound s.equates number m args →
      expandBody (readLine depth) name (localMark name number) m.number before t = .ok () u →
      Stand (bound s.equates number m args) u.equates := by
  refine ⟨h.equates_of_leaves (leaves_readLine depth number line s),
    fun words t => h.readLine_eq depth, ?_⟩
  intro before after t u _ hequates hrun
  rw [← hequates]
  exact ensures_expandBody depth name _ m.number before t () u hrun

/-- A macro defines a name and invokes another one, of the same parameter, which defines a constant
and then fails. -/
def nesting : Assembly where
  equates := .ofList [("A", "1")]
  macros := .ofList [("IN", ⟨2, ["A"], [".pool K int $(A)", "bogus"]⟩),
    ("OUT", ⟨6, ["A"], [".equ B 5", "IN 7"]⟩)]

theorem equates_restored_nesting :
    Invokes nesting 9 "L: OUT 2" "OUT" ["2"] ⟨6, ["A"], [".equ B 5", "IN 7"]⟩ ∧
    isOk (readLine 2 9 "L: OUT 2" nesting) = false ∧
    (endState (readLine 2 9 "L: OUT 2" nesting)).equates = onLine nesting.equates 9 ∧
    (endState (readLine 2 9 "L: OUT 2" nesting)).labels.contains "L" = true ∧
    (endState (readLine 2 9 "L: OUT 2" nesting)).pool = ⟨#[.integer 7]⟩ := by
  have hinvokes : Invokes nesting 9 "L: OUT 2" "OUT" ["2"] ⟨6, ["A"], [".equ B 5", "IN 7"]⟩ :=
    ⟨⟨"L:", ["OUT", "2"], by decide +kernel, by decide, by decide, by decide +kernel⟩,
      by decide +kernel⟩
  exact ⟨hinvokes, by decide +kernel, (equates_restored 2 9 _ _ _ _ nesting hinvokes).1,
    by decide +kernel, by decide +kernel⟩

end TaskMachine.Scoping
