import TaskMachine.Proofs.Assembler.Reading

/-!
# The macro expansions of a source

The assembler keeps no account of the macros it expands. Here the same work is
done over an assembly with a record beside it: every expansion is entered before
its body is read, with the line that invokes it, the expansions it stands in and
the mark that its body is read with. Dropping the record gives the work of the
assembler back, whether that ends well or not, so that the record is one of what
the assembler really does.
-/

namespace TaskMachine.Expansions

open Stateful Reading

/-- A line that invokes a macro. -/
structure Site where
  name : String
  number : Nat
  deriving DecidableEq, Repr

/-- An expansion: its site, the sites of the expansions it stands in with the innermost first, and
what `@` stands for in its body. -/
structure Expansion where
  site : Site
  outer : List Site
  mark : String
  deriving DecidableEq, Repr

/-- The sites that lead to an expansion, its own first. -/
def Expansion.chain (e : Expansion) : List Site := e.site :: e.outer

/-- A part of the assembler's work with a record of expansions. -/
abbrev Recording := EStateM AsmError (Assembly × List Expansion)

variable {α β : Type}

/-- A result with a record beside its assembly. -/
def beside (es : List Expansion) :
    EStateM.Result AsmError Assembly α → EStateM.Result AsmError (Assembly × List Expansion) α
  | .ok a s => .ok a (s, es)
  | .error e s => .error e (s, es)

namespace Recording

/-- A reader of numbered lines that records the expansions in them. -/
abbrev Reader := Nat → String → Recording (List String)

/-- Work that expands nothing. -/
def plain (work : Asm α) : Recording α := fun s => beside s.2 (work s.1)

/-- Work whose errors are given a place or a wrapping. -/
def wrapping (wrap : AsmError → AsmError) (work : Recording α) : Recording α := fun s =>
  match work s with
  | .ok a s => .ok a s
  | .error e s => .error (wrap e) s

/-- Work whose changes to the equates are undone at its end, whether it succeeds or not. -/
def withScope (work : Recording α) : Recording α := fun s =>
  match work s with
  | .ok a t => .ok a ({ t.1 with equates := s.1.equates }, t.2)
  | .error e t => .error e ({ t.1 with equates := s.1.equates }, t.2)

/-- Enters an expansion into the record. -/
def enter (e : Expansion) : Recording Unit := modify fun s => (s.1, s.2 ++ [e])

/-- Assembles the lines of a macro's body. -/
def expandBody (read : Reader) (name mark : String) : Nat → List String → Recording Unit
  | _, [] => return ()
  | number, line :: lines => do
    let line := marked mark line
    wrapping (fun e => .located number line (.expanding name number e)) do
      let words ← read number line
      plain (Asm.assembleWords number words)
    expandBody read name mark (number + 1) lines

/-- Expands a macro and records it. -/
def expand (read : List Site → Reader) (outer : List Site) (number : Nat) (name : String)
    (m : MacroDef) (args : List String) : Recording Unit :=
  if args.length ≠ m.params.length then throw .macroSyntax
  else withScope do
    plain (Asm.bindParams m.params args)
    let mark := localMark name number
    enter ⟨⟨name, number⟩, outer, mark⟩
    expandBody (read (⟨name, number⟩ :: outer)) name mark m.number m.body

end Recording

/-- What reading a line does before it comes to macros: it gives the words behind the labels. -/
def front [Interpreter] (number : Nat) (line : String) : Asm (List String) := do
  Asm.setEquate lineEquate (Numeral.decimalNat number)
  match wordsOf (← get).equates line with
  | .error e => throw e
  | .ok [] => return []
  | .ok (head :: rest) =>
    if head = ".equ" then
      Asm.defineEquate rest
      return []
    else if head = ".pool" then
      Asm.defineConstant rest
      return []
    else Asm.takeLabels (substituted (← get).equates (head :: rest))

namespace Recording

variable [Interpreter]

/-- Reads a line, with another reader for the lines of macros. -/
def readLineWith (nested : List Site → Reader) (outer : List Site) : Reader := fun number line => do
  let words ← plain (front number line)
  match words with
  | [] => return []
  | name :: args =>
    match (← get).1.macros.find? name with
    | some m =>
      expand nested outer number name m args
      return []
    | none => return words

/-- Reads a line whose macros may nest to the given depth. -/
def readLine : Nat → List Site → Reader
  | 0 => readLineWith fun _ _ _ => throw .macroDepth
  | depth + 1 => readLineWith (readLine depth)

/-- Takes in one line of a source. -/
def takeLine (number : Nat) (line : String) (opened : Option String) : Recording (Option String) :=
  match (Text.words line.toList).map String.ofList, opened with
  | ".macro" :: _, _ | ".endm" :: _, _ | _, some _ => plain (Asm.takeLine number line opened)
  | _, none => do
    let words ← readLine macroDepthLimit [] number line
    plain (Asm.assembleWords number words)
    return none

/-- Takes in the lines of a source. -/
def takeLines : Nat → String → Option String → List (List Char) → Recording Unit
  | number, before, opened, [] => plain (Asm.takeLines number before opened [])
  | number, _, opened, raw :: rest => do
    plain (Asm.note fun _ => Numeral.decimalNat number ++ ": " ++ String.ofList raw)
    let line := stripped raw
    let opened ← wrapping (.located number line) (takeLine number line opened)
    takeLines (number + 1) line opened rest

end Recording

/-- The expansions that an assembler performs for a source, in their order. -/
def expansions [Interpreter] (a : Assembler) (text : String) : List Expansion :=
  (endState (Recording.takeLines 1 "" none (Text.readLines text.toList) (a.start, []))).2

/-! ## The record is one of the run -/

theorem readLineWith_eq [Interpreter] (nested : Asm.LineReader) (number : Nat) (line : String) :
    Asm.readLineWith nested number line = do
      let words ← front number line
      match words with
      | [] => return []
      | name :: args =>
        match (← get).macros.find? name with
        | some m =>
          Asm.expand nested number name m args
          return []
        | none => return words := by
  unfold Asm.readLineWith front
  rw [bind_assoc]
  refine congrArg _ (funext fun _ => ?_)
  rw [bind_assoc]
  refine congrArg _ (funext fun s => ?_)
  cases wordsOf s.equates line with
  | error e => rfl
  | ok words =>
    cases words with
    | nil => rfl
    | cons head rest =>
      dsimp only
      by_cases hequ : head = ".equ"
      · rw [if_pos hequ, if_pos hequ, bind_assoc]
        rfl
      · rw [if_neg hequ, if_neg hequ]
        by_cases hpool : head = ".pool"
        · rw [if_pos hpool, if_pos hpool, bind_assoc]
          rfl
        · rw [if_neg hpool, if_neg hpool]
          exact (bind_assoc _ _ _).symm

/-- The macros are the same before and after. -/
def SameMacros (s t : Assembly) : Prop := t.macros = s.macros

theorem steady_sameMacros : Steady SameMacros where
  refl _ := rfl
  trans h k := k.trans h
  log _ _ := rfl
  equates _ _ := rfl
  pool _ _ := rfl
  label _ _ _ := rfl
  emit h := (Lines.lineOf_quiet _ _ _ _ _ _ h).macros

/-- Over the given macros, the recording work does what the work does, and adds to the record what
the property says. -/
def Follows (macros : Table MacroDef) (P : List Expansion → Prop) (x : Recording α) (y : Asm α) :
    Prop :=
  ∀ s es, s.macros = macros → ∃ new, x (s, es) = beside (es ++ new) (y s) ∧ P new

theorem wrapping_beside (wrap : AsmError → AsmError) {x : Recording α} {y : Asm α} {s : Assembly}
    {es es' : List Expansion} (h : x (s, es) = beside es' (y s)) :
    Recording.wrapping wrap x (s, es) = beside es' (Asm.wrapping wrap y s) := by
  unfold Recording.wrapping Asm.wrapping
  rw [h]
  cases y s with
  | ok a t => rfl
  | error e t => rfl

namespace Follows

variable {macros : Table MacroDef} {P Q : List Expansion → Prop}

theorem plain (hnil : P []) (y : Asm α) : Follows macros P (Recording.plain y) y := by
  intro s es _
  exact ⟨[], by rw [List.append_nil]; rfl, hnil⟩

theorem pure (hnil : P []) (a : α) : Follows macros P (Pure.pure a) (Pure.pure a) :=
  plain hnil (Pure.pure a)

theorem throw (hnil : P []) (e : AsmError) :
    Follows macros P (MonadExcept.throw e : Recording α) (MonadExcept.throw e) :=
  plain hnil (MonadExcept.throw e)

/-- Work without expansions adds nothing. -/
theorem quiet (y : Asm α) : Follows macros (· = []) (Recording.plain y) y :=
  plain (P := (· = [])) rfl y

theorem quiet_pure (a : α) : Follows macros (· = []) (Pure.pure a) (Pure.pure a) :=
  pure (P := (· = [])) rfl a

/-- Two works in sequence add one after the other, the second only if the first ends well. -/
theorem bind {R : List Expansion → Prop} {x : Recording α} {y : Asm α} {f : α → Recording β}
    {g : α → Asm β} (hx : Follows macros P x y) (hkeep : Ensures SameMacros y)
    (hf : ∀ a, Follows macros Q (f a) (g a)) (hnil : Q [])
    (happend : ∀ es fs, P es → Q fs → R (es ++ fs)) : Follows macros R (x >>= f) (y >>= g) := by
  intro s es hs
  obtain ⟨new, hrun, hnew⟩ := hx s es hs
  cases hy : y s with
  | ok a t =>
    rw [hy] at hrun
    obtain ⟨more, hmore, hQ⟩ := hf a t (es ++ new) ((hkeep s a t hy).trans hs)
    refine ⟨new ++ more, ?_, happend new more hnew hQ⟩
    rw [bind_of_ok (show x (s, es) = .ok a (t, es ++ new) from hrun), bind_of_ok hy, hmore,
      List.append_assoc]
  | error e t =>
    rw [hy] at hrun
    refine ⟨new, ?_, ?_⟩
    · rw [bind_of_error (show x (s, es) = .error e (t, es ++ new) from hrun), bind_of_error hy]
      rfl
    · have h := happend new [] hnew hnil
      rwa [List.append_nil] at h

theorem plain_bind {y : Asm α} {f : α → Recording β} {g : α → Asm β} (hnil : P [])
    (hkeep : Ensures SameMacros y) (hf : ∀ a, Follows macros P (f a) (g a)) :
    Follows macros P (Recording.plain y >>= f) (y >>= g) :=
  .bind (.quiet y) hkeep hf hnil fun es fs hes hfs => by
    subst hes
    exact hfs

theorem bind_quiet {x : Recording α} {y : Asm α} {f : α → Recording β} {g : α → Asm β}
    (hx : Follows macros P x y) (hkeep : Ensures SameMacros y)
    (hf : ∀ a, Follows macros (· = []) (f a) (g a)) : Follows macros P (x >>= f) (y >>= g) :=
  .bind hx hkeep hf rfl fun es fs hes hfs => by
    subst hfs
    rwa [List.append_nil]

theorem wrapping {x : Recording α} {y : Asm α} (wrap : AsmError → AsmError)
    (h : Follows macros P x y) :
    Follows macros P (Recording.wrapping wrap x) (Asm.wrapping wrap y) := by
  intro s es hs
  obtain ⟨new, hrun, hnew⟩ := h s es hs
  exact ⟨new, wrapping_beside wrap hrun, hnew⟩

theorem withScope {x : Recording α} {y : Asm α} (h : Follows macros P x y) :
    Follows macros P (Recording.withScope x) (Asm.withScope y) := by
  intro s es hs
  obtain ⟨new, hrun, hnew⟩ := h s es hs
  refine ⟨new, ?_, hnew⟩
  unfold Recording.withScope Asm.withScope
  rw [hrun]
  cases y s with
  | ok a t => rfl
  | error e t => rfl

end Follows

/-! ## What is recorded -/

/-- The line with the given number belongs to the body of the macro with the given name. -/
def InBody (macros : Table MacroDef) (name : String) (number : Nat) : Prop :=
  ∃ m, macros.find? name = some m ∧ m.number ≤ number ∧ number < m.number + m.body.length

/-- What is recorded while certain lines are read inside the given expansions: no two entries are
reached in the same way, each is reached through one of the lines, and each is invoked there or
inside another entry, by a line of that one's macro. -/
structure Under (macros : Table MacroDef) (outer : List Site) (lines : Nat → Prop)
    (es : List Expansion) : Prop where
  marked : ∀ e ∈ es, e.mark = localMark e.site.name e.site.number
  distinct : es.Pairwise fun d e => d.chain ≠ e.chain
  reached : ∀ e ∈ es, ∃ inner site, e.chain = inner ++ site :: outer ∧ lines site.number
  enclosed : ∀ e ∈ es, e.outer = outer ∨
    ∃ d ∈ es, d.chain = e.outer ∧ InBody macros d.site.name e.site.number

namespace Under

variable {macros : Table MacroDef} {outer : List Site} {P Q : Nat → Prop} {es fs : List Expansion}

theorem nil : Under macros outer P [] := ⟨nofun, .nil, nofun, nofun⟩

theorem mono (h : Under macros outer P es) (hPQ : ∀ n, P n → Q n) : Under macros outer Q es where
  marked := h.marked
  distinct := h.distinct
  reached e he := by
    obtain ⟨inner, site, hchain, hsite⟩ := h.reached e he
    exact ⟨inner, site, hchain, hPQ _ hsite⟩
  enclosed := h.enclosed

/-- What is invoked by one of the lines themselves. -/
theorem of_outer (h : Under macros outer P es) {e : Expansion} (he : e ∈ es)
    (houter : e.outer = outer) : P e.site.number := by
  obtain ⟨inner, site, hchain, hsite⟩ := h.reached e he
  rw [Expansion.chain, houter] at hchain
  have hcut : [] ++ e.site :: outer = inner ++ site :: outer := hchain
  have htail := List.append_inj_right' hcut rfl
  cases htail
  exact hsite

/-- Different lines lead to different expansions. -/
theorem append (h : Under macros outer P es) (k : Under macros outer Q fs)
    (hdisjoint : ∀ n, P n → ¬ Q n) : Under macros outer (fun n => P n ∨ Q n) (es ++ fs) where
  marked e he := (List.mem_append.mp he).elim (h.marked e) (k.marked e)
  distinct := by
    refine List.pairwise_append.mpr ⟨h.distinct, k.distinct, fun d hd e he heq => ?_⟩
    obtain ⟨inner, site, hchain, hsite⟩ := h.reached d hd
    obtain ⟨inner', site', hchain', hsite'⟩ := k.reached e he
    have hsame : inner ++ site :: outer = inner' ++ site' :: outer :=
      hchain.symm.trans (heq.trans hchain')
    have htail := List.append_inj_right' hsame rfl
    cases htail
    exact hdisjoint _ hsite hsite'
  reached e he := by
    rcases List.mem_append.mp he with he | he
    · obtain ⟨inner, site, hchain, hsite⟩ := h.reached e he
      exact ⟨inner, site, hchain, .inl hsite⟩
    · obtain ⟨inner, site, hchain, hsite⟩ := k.reached e he
      exact ⟨inner, site, hchain, .inr hsite⟩
  enclosed e he := by
    rcases List.mem_append.mp he with he | he
    · obtain houter | ⟨d, hd, hchain⟩ := h.enclosed e he
      · exact .inl houter
      · exact .inr ⟨d, List.mem_append_left _ hd, hchain⟩
    · obtain houter | ⟨d, hd, hchain⟩ := k.enclosed e he
      · exact .inl houter
      · exact .inr ⟨d, List.mem_append_right _ hd, hchain⟩

/-- An expansion and what is recorded while its body is read. -/
theorem expand {name : String} {number : Nat}
    (h : Under macros (⟨name, number⟩ :: outer) (InBody macros name) es) :
    Under macros outer (· = number) (⟨⟨name, number⟩, outer, localMark name number⟩ :: es) where
  marked e he := by
    rcases List.mem_cons.mp he with rfl | he
    · rfl
    · exact h.marked e he
  distinct := by
    refine List.pairwise_cons.mpr ⟨fun e he heq => ?_, h.distinct⟩
    -- An expansion in the body has one site more than the one it stands in.
    obtain ⟨inner, site, hchain, -⟩ := h.reached e he
    have hlength := congrArg List.length (heq.trans hchain)
    simp only [Expansion.chain, List.length_cons, List.length_append] at hlength
    omega
  reached e he := by
    rcases List.mem_cons.mp he with rfl | he
    · exact ⟨[], ⟨name, number⟩, rfl, rfl⟩
    · obtain ⟨inner, site, hchain, -⟩ := h.reached e he
      exact ⟨inner ++ [site], ⟨name, number⟩, by rw [hchain, List.append_assoc]; rfl, rfl⟩
  enclosed e he := by
    rcases List.mem_cons.mp he with rfl | he
    · exact .inl rfl
    · obtain houter | ⟨d, hd, hchain⟩ := h.enclosed e he
      · exact .inr ⟨_, List.mem_cons_self, houter.symm, h.of_outer he houter⟩
      · exact .inr ⟨d, List.mem_cons_of_mem _ hd, hchain⟩

end Under

/-! ## Reading a line -/

/-- The recording reader does what the reader does, and records what lies under its line. -/
def Matches (macros : Table MacroDef) (outer : List Site) (read : Recording.Reader)
    (read' : Asm.LineReader) : Prop :=
  ∀ number line, Follows macros (Under macros outer (· = number)) (read number line)
    (read' number line)

variable {macros : Table MacroDef} {outer : List Site}

theorem follows_expandBody {read : Recording.Reader} {read' : Asm.LineReader}
    (hread : Matches macros outer read read')
    (hkeep : ∀ number line, Ensures SameMacros (read' number line)) (name mark : String)
    (number : Nat) (lines : List String) :
    Follows macros (Under macros outer fun n => number ≤ n ∧ n < number + lines.length)
      (Recording.expandBody read name mark number lines)
      (Asm.expandBody read' name mark number lines) := by
  induction lines generalizing number with
  | nil => exact .pure .nil ()
  | cons line lines ih =>
    have hline : Ensures SameMacros (do
        let words ← read' number (marked mark line)
        Asm.assembleWords number words) :=
      steady_sameMacros.bind (hkeep _ _) (steady_sameMacros.assembleWords number)
    refine .bind (.wrapping _ ((hread number _).bind_quiet (hkeep _ _) fun words => .quiet _))
      (ensures_wrapping _ hline) (fun _ => ih (number + 1)) .nil fun es fs hes hfs => ?_
    refine (hes.append hfs fun n hn => by omega).mono fun n hn => ?_
    rw [List.length_cons]
    omega

theorem follows_enter (e : Expansion) : Follows macros (· = [e]) (Recording.enter e) (pure ()) := by
  intro s es hs
  exact ⟨[e], rfl, rfl⟩

theorem follows_expand {read : List Site → Recording.Reader} {read' : Asm.LineReader}
    (hread : ∀ outer, Matches macros outer (read outer) read')
    (hkeep : ∀ number line, Ensures SameMacros (read' number line)) (number : Nat) {name : String}
    {m : MacroDef} (hm : macros.find? name = some m) (args : List String) :
    Follows macros (Under macros outer (· = number))
      (Recording.expand read outer number name m args) (Asm.expand read' number name m args) := by
  unfold Recording.expand Asm.expand
  split
  · exact .throw .nil _
  · refine .withScope (.plain_bind .nil (steady_sameMacros.bindParams _ _) fun _ => ?_)
    have hbody := follows_expandBody (hread (⟨name, number⟩ :: outer)) hkeep name
      (localMark name number) m.number m.body
    refine (follows_enter _).bind
      (g := fun _ => Asm.expandBody read' name (localMark name number) m.number m.body)
      (steady_sameMacros.pure ()) (fun _ => hbody) .nil fun es fs hes hfs => ?_
    subst hes
    exact (hfs.mono fun n hn => ⟨m, hm, hn⟩).expand

variable [Interpreter]

theorem front_sameMacros (number : Nat) (line : String) :
    Ensures SameMacros (front number line) := by
  have hR := steady_sameMacros
  refine hR.bind (hR.setEquate _ _) fun _ => hR.bind hR.get fun s => ?_
  split
  · exact .throw _
  · exact hR.pure _
  · refine .ite (hR.bind (hR.defineEquate _) fun _ => hR.pure _) ?_
    refine .ite (hR.bind (hR.defineConstant _) fun _ => hR.pure _) ?_
    exact hR.bind hR.get fun s => hR.takeLabels _

theorem matches_readLineWith {read : List Site → Recording.Reader} {read' : Asm.LineReader}
    (hread : ∀ outer, Matches macros outer (read outer) read')
    (hkeep : ∀ number line, Ensures SameMacros (read' number line)) (outer : List Site) :
    Matches macros outer (Recording.readLineWith read outer) (Asm.readLineWith read') := by
  intro number line
  rw [readLineWith_eq]
  refine .plain_bind .nil (front_sameMacros number line) fun words => ?_
  cases words with
  | nil => exact .pure .nil _
  | cons name args =>
    intro s es hs
    dsimp only
    rw [get_bind_apply, get_bind_apply, hs]
    cases hm : macros.find? name with
    | none => exact Follows.pure .nil _ s es hs
    | some m =>
      have hexpand : Follows macros (Under macros outer (· = number))
          (Recording.expand read outer number name m args) (Asm.expand read' number name m args) :=
        follows_expand hread hkeep number hm args
      exact hexpand.bind_quiet (steady_sameMacros.expand hkeep number name m args)
        (fun _ => .quiet_pure []) s es hs

/-- The readers agree, by induction on how deep macros may nest. -/
theorem matches_readLine (depth : Nat) (outer : List Site) :
    Matches macros outer (Recording.readLine depth outer) (Asm.readLine depth) := by
  induction depth generalizing outer with
  | zero =>
    exact matches_readLineWith (fun _ _ _ => .throw .nil _) (fun _ _ => .throw _) outer
  | succ depth ih =>
    exact matches_readLineWith ih (steady_sameMacros.readLine depth) outer

end TaskMachine.Expansions
