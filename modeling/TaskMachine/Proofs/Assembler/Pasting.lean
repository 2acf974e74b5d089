import TaskMachine.Proofs.Assembler.Stretches
import TaskMachine.Proofs.Assembler.Writing
import TaskMachine.Proofs.Expr.Names

/-!
# An expansion is its body in the place of its line

A macro's body is read with the arguments as equates, and pasted lines are read
outside of macros, with the arguments written into them. If the lines are code
and expand nothing themselves, either way places the same labels and assembles
the same words. Behind the expansion, the lines of the source are shifted, which
makes no difference to them.
-/

namespace TaskMachine.Pasting

open Stateful Asm Expansions Renumbering Shifting Stretches CodeLines Writing Tables Numeral

/-! ## The lines of a body -/

/-- Both tables are as before but for the numbers of lines. -/
def Scoped (b b' e e' : Table String) : Prop := SameEquates b e ∧ SameEquates b' e'

theorem Scoped.onLine {b b' e e' : Table String} (h : Scoped b b' e e') (number number' : Nat) :
    Scoped b b' (onLine e number) (onLine e' number') :=
  ⟨h.1.trans (sameEquates_line e _), h.2.trans (sameEquates_line e' _)⟩

/-- The line of a source has the words of a line of a macro's body, in the expansion with the given
mark, with arguments in the place of parameters. The line is one of code, and invokes no macro. -/
structure PastedLine [Interpreter] (s : Assembly) (arguments : List (String × String))
    (mark line : String) (raw : List Char) (words : List String) : Prop where
  body : ReadsAs (marked mark line) words
  code : IsCode words
  numberless : lineEquate ∉ words
  plain : ∀ name ∈ (behindLabels (substituted s.equates
      (substituted (.ofList arguments) words))).head?, s.macros.find? name = none
  pasted : ReadsAs (stripped raw) (substituted (.ofList arguments) words)

/-- Arguments may be written into a line of a macro's body, behind which there is the mark of an
expansion already. The line is one of code that invokes no macro, and has no expression in it. No
parameter comes out of quoted characters, and no blanks are trimmed off what is written. -/
structure Pasteable (s : Assembly) (arguments : List (String × String)) (line : String) :
    Prop where
  code : IsCode (lineWords line)
  numberless : lineEquate ∉ lineWords line
  plain : ∀ name ∈ (behindLabels (substituted s.equates
      (substituted (.ofList arguments) (lineWords line)))).head?, s.macros.find? name = none
  closed : NoExpression (unquoted line.toList)
  original : Original arguments line
  whole : stripped (Text.dropReturn (written arguments line)) =
    String.ofList (written arguments line)

theorem Pasteable.pastedLine [Interpreter] {s : Assembly} {arguments : List (String × String)}
    {mark line : String} (h : Pasteable s arguments (marked mark line))
    (harguments : AreWords arguments) :
    PastedLine s arguments mark line (Text.dropReturn (written arguments (marked mark line)))
      (lineWords (marked mark line)) where
  body := readsAs_of_noExpression h.closed rfl
  code := h.code
  numberless := h.numberless
  plain := h.plain
  pasted := by
    rw [h.whole]
    exact readsAs_written harguments h.original h.closed

/-- The arguments are replaced by nothing, and are no directives. -/
def Inert (s : Assembly) (arguments : List (String × String)) : Prop :=
  ∀ entry ∈ arguments, entry.2 ≠ lineEquate ∧ s.equates.find? entry.2 = none ∧
    entry.2.toList.head? ≠ some '.'

instance (s : Assembly) (arguments : List (String × String)) : Decidable (Inert s arguments) :=
  inferInstanceAs (Decidable (∀ _ ∈ arguments, _))

section Body

variable [Interpreter] {s : Assembly} {arguments : List (String × String)}
  (hargs : Inert s arguments) {mark : String}

include hargs

/-- Inside of the expansion and outside of it, the line places the same labels and code. -/
theorem agree_line {line : String} {raw : List Char} {words : List String}
    (h : PastedLine s arguments mark line raw words) {t t' : Assembly}
    (hR : Alike (Scoped (s.equates.insertAll arguments) s.equates) (· = s.macros) t t')
    (nested : LineReader) (number number' : Nat) :
    Agree (fun _ opened => opened = none)
      (Alike (Scoped (s.equates.insertAll arguments) s.equates) (· = s.macros))
      ((do
        let words ← readLineWith nested number (marked mark line)
        assembleWords number words) t)
      (Asm.takeLine number' (stripped raw) none t') := by
  have hunset : ∀ entry ∈ arguments, entry.2 ≠ lineEquate ∧ s.equates.find? entry.2 = none :=
    fun entry hentry => ⟨(hargs entry hentry).1, (hargs entry hentry).2.1⟩
  have hcode := h.code.substituted fun entry hentry => (hargs entry hentry).2.2
  have hscoped := hR.equates.onLine number number'
  have hinside : substituted (onLine t.equates number) words =
      substituted s.equates (substituted (.ofList arguments) words) :=
    (substituted_arguments hscoped.1 (.refl _) h.numberless hunset).symm
  have houtside : substituted (onLine t'.equates number') (substituted (.ofList arguments) words) =
      substituted s.equates (substituted (.ofList arguments) words) :=
    (substituted_arguments hscoped.1 hscoped.2 h.numberless hunset).trans hinside
  have hplain : ∀ name ∈ (behindLabels (substituted s.equates
      (substituted (.ofList arguments) words))).head?,
      t.macros.find? name = none ∧ t'.macros.find? name = none := by
    intro name hname
    have hnone : t.macros.find? name = none := by
      rw [hR.proper]
      exact h.plain name hname
    have hfound := hR.macros name
    rw [hnone] at hfound
    generalize t'.macros.find? name = r at hfound ⊢
    cases hfound with
    | none => exact ⟨hnone, rfl⟩
  have hbefore := readLineWith_of_code (h.body _) h.code
    (by rw [hinside]; exact fun name hname => (hplain name hname).1) nested
  rw [bind_apply_congr hbefore, takeLine_of_plain (h.pasted _) hcode
    (by rw [houtside]; exact fun name hname => (hplain name hname).2), hinside, houtside]
  have hstart : Alike (Scoped (s.equates.insertAll arguments) s.equates) (· = s.macros)
      { t with equates := onLine t.equates number }
      { t' with equates := onLine t'.equates number' } := { hR with equates := hscoped }
  refine (together_takeLabels _ _ _ hstart).bind fun rest rest' u u' _ hrest hu => ?_
  subst hrest
  have hlast : Together (fun _ opened => opened = none)
      (Alike (Scoped (s.equates.insertAll arguments) s.equates) (· = s.macros))
      (assembleWords number rest >>= pure)
      (assembleWords number' rest >>= fun _ => pure (none : Option String)) :=
    .bind_eq (together_assembleWords number number' rest) fun _ => .pure rfl
  rw [bind_pure] at hlast
  exact hlast u u' hu

/-- The whole body, by induction on its lines. -/
theorem agree_body {lines : List String} {raws : List (List Char)}
    (h : List.Forall₂ (fun line raw => ∃ words, PastedLine s arguments mark line raw words)
      lines raws)
    {t t' : Assembly}
    (hR : Alike (Scoped (s.equates.insertAll arguments) s.equates) (· = s.macros) t t')
    (nested : LineReader) (name : String) (number number' : Nat) :
    Agree (fun _ opened => opened = none)
      (Alike (Scoped (s.equates.insertAll arguments) s.equates) (· = s.macros))
      (expandBody (readLineWith nested) name mark number lines t)
      (through number' none raws t') := by
  induction h generalizing t t' number number' with
  | nil => exact .ok rfl hR
  | @cons line raw _ _ hline _ ih =>
    obtain ⟨words, hline⟩ := hline
    have hnote : note (fun _ => decimalNat number' ++ ": " ++ String.ofList raw) t' =
        .ok () (Truncation.noted t' number' raw) := rfl
    have hnoted : Alike (Scoped (s.equates.insertAll arguments) s.equates) (· = s.macros) t
        (Truncation.noted t' number' raw) := { hR with }
    unfold expandBody through
    rw [bind_of_ok hnote]
    refine (agree_wrapping _ _ (agree_line hargs hline hnoted nested number number')).bind
      fun _ opened u u' _ hopened hu => ?_
    rw [hopened]
    exact ih hu (number + 1) (number' + 1)

end Body

/-! ## Invocations -/

/-- A line that invokes a macro behind some labels, once equates have been replaced in it. -/
structure Invocation [Interpreter] (s : Assembly) (number : Nat) (line : String)
    (labels : List String) (name : String) (args : List String) (m : MacroDef) : Prop where
  words : ∃ words, wordsOf (onLine s.equates number) line = .ok words ∧ IsCode words ∧
    substituted (onLine s.equates number) words = labels ++ name :: args
  labels : ∀ word ∈ labels, (definedLabel? word).isSome = true
  head : definedLabel? name = none
  known : s.macros.find? name = some m
  arity : args.length = m.params.length
  inert : Inert s (m.params.zip args)

/-- The lines of a source place some labels: there is one line of them, or none if there are no
labels. -/
def PastedLabels [Interpreter] (s : Assembly) (number : Nat) (labels : List String)
    (raws : List (List Char)) : Prop :=
  (raws = [] ∧ labels = []) ∨
    ∃ raw words, raws = [raw] ∧ wordsOf (onLine s.equates number) (stripped raw) = .ok words ∧
      IsCode words ∧ substituted (onLine s.equates number) words = labels

/-- An assembly is like itself, whatever is done to the equates. -/
theorem alike_self {E : Table String → Table String → Prop} (s : Assembly) {e e' : Table String}
    (hE : E e e') (log log' : Log) :
    Alike E (· = s.macros) { s with equates := e, log := log }
      { s with equates := e', log := log' } where
  origin := rfl
  lines := rfl
  labels := rfl
  pool := rfl
  equates := hE
  macros name := by
    dsimp only
    cases s.macros.find? name with
    | none => exact .none
    | some m => exact .some ⟨m.number, rfl⟩
  proper := rfl

theorem sameEquates_insertAll {e e' : Table String} (h : SameEquates e e')
    (entries : List (String × String)) :
    SameEquates (e.insertAll entries) (e'.insertAll entries) := by
  induction entries generalizing e e' with
  | nil => exact h
  | cons entry entries ih => exact ih (h.insert entry.1 entry.2)

theorem wrapping_id {α : Type} (work : Asm α) : wrapping id work = work := by
  funext s
  unfold wrapping
  cases work s <;> rfl

/-- Where one of two runs puts its equates back. -/
theorem agree_withScope {α α' : Type} {V : α → α' → Prop} {R R' : Assembly → Assembly → Prop}
    {work : Asm α} {s : Assembly} {r' : EStateM.Result AsmError Assembly α'}
    (h : Agree V R (work s) r') (hR : ∀ t t', R t t' → R' { t with equates := s.equates } t') :
    Agree V R' (withScope work s) r' := by
  unfold withScope
  generalize work s = r at h ⊢
  cases h with
  | ok value state => exact .ok value (hR _ _ state)
  | error e e' t t' => exact .error e e' _ t'

section Invocation

variable [Interpreter] {s : Assembly} {number : Nat} {line name : String}
  {labels args : List String} {m : MacroDef} (h : Invocation s number line labels name args m)

include h

/-- Up to the expansion, the line places its labels. -/
theorem front_of_invocation :
    front number line s = (do
      let _ ← takeLabels labels
      return name :: args) { s with equates := onLine s.equates number } := by
  obtain ⟨words, hwords, hcode, hsubstituted⟩ := h.words
  rw [front_of_code hwords hcode, hsubstituted, takeLabels_append h.labels, takeLabels, h.head]

/-- The labels of the line are placed by the line of labels as well. -/
theorem agree_labels {raws : List (List Char)} (hraws : PastedLabels s number labels raws)
    (log : Log) :
    Agree (fun _ opened => opened = none)
      (Alike (Scoped s.equates s.equates) (· = s.macros))
      (takeLabels labels { s with equates := onLine s.equates number, log := log })
      (through number none raws s) := by
  have hline : SameEquates s.equates (onLine s.equates number) := sameEquates_line _ _
  rcases hraws with ⟨rfl, rfl⟩ | ⟨raw, words, rfl, hwords, hcode, rfl⟩
  · have hscoped : Scoped s.equates s.equates (onLine s.equates number) s.equates :=
      ⟨hline, .refl _⟩
    exact .ok rfl (alike_self s hscoped log s.log)
  · let t : Assembly := Truncation.noted s number raw
    let labels := substituted (onLine s.equates number) words
    have hbehind : behindLabels labels = [] := List.dropWhile_eq_nil_iff.mpr h.labels
    have hplain : ∀ name ∈ (behindLabels labels).head?, t.macros.find? name = none := by
      rw [hbehind]
      exact nofun
    have hscoped : Scoped s.equates s.equates (onLine s.equates number)
        (onLine s.equates number) := ⟨hline, hline⟩
    have hall : Agree (fun _ opened => opened = none)
        (Alike (Scoped s.equates s.equates) (· = s.macros))
        ((takeLabels labels >>= pure) { s with equates := onLine s.equates number, log := log })
        (Asm.takeLine number (stripped raw) none t) := by
      rw [takeLine_of_plain (s := t) hwords hcode hplain]
      refine Agree.bind (together_takeLabels labels _ _ (alike_self s hscoped log t.log))
        fun rest rest' u u' hrest hsame hu => ?_
      rw [← hsame, takeLabels_eq_ok hrest, hbehind]
      exact .ok rfl hu
    have hnote : note (fun _ => decimalNat number ++ ": " ++ String.ofList raw) s = .ok () t := rfl
    have hwrapped := agree_wrapping id (.located number (stripped raw)) hall
    rw [wrapping_id, bind_pure] at hwrapped
    have hthrough : (through (number + 1) · []) = (pure : Option String → Asm (Option String)) :=
      rfl
    rw [through, bind_of_ok hnote, hthrough, bind_pure]
    exact hwrapped

theorem takeLine_of_invocation :
    ∃ nested, Asm.takeLine number line none s = (do
      let _ ← takeLabels labels
      expand (readLineWith nested) number name m args
      return none) { s with equates := onLine s.equates number } := by
  obtain ⟨words, hwords, hcode, -⟩ := h.words
  obtain ⟨nested, hnested⟩ := Reading.exists_readLineWith 999999
  refine ⟨nested, ?_⟩
  have hdepth : readLine macroDepthLimit = readLineWith (readLineWith nested) := by
    rw [← hnested]
    rfl
  rw [takeLine_of_isCode hwords hcode, hdepth, readLineWith_eq]
  cases hlabels : takeLabels labels { s with equates := onLine s.equates number } with
  | error e t =>
    have hfront : front number line s = .error e t := by
      rw [front_of_invocation h, bind_of_error hlabels]
    rw [bind_of_error hlabels, bind_of_error (bind_of_error hfront _)]
  | ok rest t =>
    have hfront : front number line s = .ok (name :: args) t := by
      rw [front_of_invocation h, bind_of_ok hlabels]
      rfl
    have hkept := steady_sameMacros.takeLabels _ _ rest t hlabels
    have hknown : t.macros.find? name = some m := by
      rw [show t.macros = s.macros from hkept]
      exact h.known
    rw [bind_of_ok hlabels, bind_assoc, bind_of_ok hfront]
    dsimp only
    rw [bind_assoc, get_bind_apply, hknown]
    dsimp only
    rw [bind_assoc]
    rfl

variable {off : String → Prop} (hclean : Clean off s.macros)

include hclean

/-- The body is assembled with the arguments as equates, which are gone behind it. -/
theorem agree_expand {raws : List (List Char)}
    (hbody : List.Forall₂ (fun line raw => ∃ words, PastedLine s (m.params.zip args)
      (localMark name number) line raw words) m.body raws)
    {t t' : Assembly} (hR : Alike (Scoped s.equates s.equates) (· = s.macros) t t')
    (nested : LineReader) (number' : Nat) :
    Agree (fun _ opened => opened = none) (Alike SameEquates (Clean off))
      (expand (readLineWith nested) number name m args t) (through number' none raws t') := by
  let t₁ : Assembly := { t with equates := t.equates.insertAll (m.params.zip args) }
  have hbound : Alike (Scoped (s.equates.insertAll (m.params.zip args)) s.equates)
      (· = s.macros) t₁ t' :=
    { hR with equates := ⟨sameEquates_insertAll hR.equates.1 _, hR.equates.2⟩ }
  have hrun := agree_body h.inert hbody hbound nested name m.number number'
  rw [← bind_of_ok (bindParams_apply m.params args t)
    fun _ => expandBody (readLineWith nested) name (localMark name number) m.number m.body] at hrun
  unfold expand
  rw [if_neg (not_not_intro h.arity)]
  refine agree_withScope hrun fun u u' hu => { hu with equates := ?_, proper := ?_ }
  · exact hR.equates.1.symm.trans hu.equates.2
  · dsimp only
    rw [hu.proper]
    exact hclean

omit hclean in
/-- The log makes no difference. -/
theorem Invocation.logged (log : Log) :
    Invocation { s with log := log } number line labels name args m :=
  ⟨h.words, h.labels, h.head, h.known, h.arity, h.inert⟩

/-- The line that invokes the macro does what the pasted lines do. -/
theorem agree_invocation {front body : List (List Char)}
    (hfront : PastedLabels s number labels front)
    (hbody : List.Forall₂ (fun line raw => ∃ words, PastedLine s (m.params.zip args)
      (localMark name number) line raw words) m.body body) (log : Log) :
    Agree Eq (Alike SameEquates (Clean off)) (Asm.takeLine number line none { s with log := log })
      (through number none (front ++ body) s) := by
  obtain ⟨nested, hline⟩ := takeLine_of_invocation (h.logged log)
  rw [hline, through_append]
  refine (agree_labels h hfront log).bind fun _ opened t t' _ hopened hR => ?_
  rw [hopened, ← bind_pure (through _ none body)]
  refine (agree_expand h hclean hbody hR nested _).bind fun _ opened u u' _ hopened hu => ?_
  exact .ok hopened.symm hu

omit hclean in
/-- The record shows the expansion. -/
theorem record_of_invocation {es : List Expansion} {opened : Option String}
    {p : Assembly × List Expansion}
    (hrun : Recording.takeLine number line none (s, es) = .ok opened p) :
    ∃ more, p.2 = es ++ ⟨⟨name, number⟩, [], localMark name number⟩ :: more := by
  obtain ⟨words, hwords, hcode, -⟩ := h.words
  rw [recordingTakeLine_of_isCode hwords hcode] at hrun
  obtain ⟨rest, p₁, hread, hrest⟩ := bind_eq_ok.mp hrun
  have hdepth : Recording.readLine macroDepthLimit [] =
      Recording.readLineWith (Recording.readLine 999999) [] := rfl
  rw [hdepth] at hread
  obtain ⟨front, p₂, hfront, hexpand⟩ := bind_eq_ok.mp hread
  unfold Recording.plain at hfront
  cases hlabels : Expansions.front number line s with
  | error e t =>
    rw [hlabels] at hfront
    cases hfront
  | ok front' t =>
    rw [hlabels] at hfront
    cases hfront
    have hkept : t.macros = s.macros := front_sameMacros number line s front t hlabels
    rw [front_of_invocation h] at hlabels
    obtain ⟨_, t', -, hwords⟩ := bind_eq_ok.mp hlabels
    obtain ⟨rfl, rfl⟩ := pure_eq_ok.mp hwords
    dsimp only at hexpand
    rw [get_bind_apply, hkept, h.known] at hexpand
    obtain ⟨_, p₃, hrecord, hnil⟩ := bind_eq_ok.mp hexpand
    obtain ⟨rfl, rfl⟩ := pure_eq_ok.mp hnil
    cases hrest
    obtain ⟨more, hmore⟩ := expand_enters (grows_readLine 999999) [] number name h.arity t es
    rw [hrecord] at hmore
    exact ⟨more, hmore⟩

end Invocation

/-! ## Sources -/

/-- From the line that invokes the macro on, the two sources come to the same, if the macro is not
expanded again where it has local labels. -/
theorem agree_from_invocation [Interpreter] (hlexical : Interpreter.Lexical) {s : Assembly}
    {number : Nat} {raw : List Char} {name : String} {labels args : List String} {m : MacroDef}
    {front body rest : List (List Char)}
    (h : Invocation s number (stripped raw) labels name args m)
    (hclean : Clean (· = name) s.macros) (hfront : PastedLabels s number labels front)
    (hbody : List.Forall₂ (fun line raw => ∃ words, PastedLine s (m.params.zip args)
      (localMark name number) line raw words) m.body body)
    (hrest : ∀ raw ∈ rest, Movable (stripped raw)) (before before' : String) (number' : Nat)
    (es : List Expansion)
    (honce : (∃ line ∈ m.body, '@' ∈ line.toList) →
      ((endState (Recording.takeLines number before none (raw :: rest) (s, es))).2.map
        (·.site.name)).count name ≤ 1) :
    ∃ off, Agree Eq (fun p t => Alike SameEquates (Clean off) p.1 t)
      (Recording.takeLines number before none (raw :: rest) (s, es))
      ((do
        let opened ← through number none (front ++ body)
        takeLines number' before' opened rest) s) := by
  let off (other : String) : Prop := other = name ∧ ∃ line ∈ m.body, '@' ∈ line.toList
  have hoff : Clean off s.macros := by
    intro other m' hm' line hline
    obtain ⟨hnumber, hmark⟩ := hclean other m' hm' line hline
    refine ⟨hnumber, ?_⟩
    by_cases hat : '@' ∈ line.toList
    · obtain rfl := hmark.resolve_right (not_not_intro hat)
      cases h.known.symm.trans hm'
      exact .inl ⟨rfl, line, hline, hat⟩
    · exact .inr hat
  refine ⟨off, ?_⟩
  let s₁ : Assembly := Truncation.noted s number raw
  have hstart : Recording.takeLines number before none (raw :: rest) (s, es) = (do
      let opened ← Recording.wrapping (.located number (stripped raw))
        (Recording.takeLine number (stripped raw) none)
      Recording.takeLines (number + 1) (stripped raw) opened rest) (s₁, es) := by
    rw [Recording.takeLines,
      bind_of_ok (show Recording.plain (Asm.note _) (s, es) = .ok () (s₁, es) from rfl)]
  have hline : Agree Eq (fun p t => Alike SameEquates (Clean off) p.1 t)
      (Recording.wrapping (.located number (stripped raw))
        (Recording.takeLine number (stripped raw) none) (s₁, es))
      (through number none (front ++ body) s) := by
    obtain ⟨es₁, hrecord⟩ := recorded_takeLine number (stripped raw) none s₁ es
    have hsame := agree_wrapping (.located number (stripped raw)) id
      (agree_invocation h hoff hfront hbody s₁.log)
    rw [wrapping_id] at hsame
    rw [wrapping_beside _ hrecord, agree_beside]
    exact hsame
  have hbehind (opened : Option String) : InStep off Eq
      (Recording.takeLines (number + 1) (stripped raw) opened rest)
      (takeLines number' before' opened rest) :=
    inStep_takeLines hlexical (number + 1) number' (stripped raw) before' opened hrest
  rw [hstart] at honce ⊢
  refine hline.bind fun opened _ p t hrun hopened ht => ?_
  subst hopened
  obtain ⟨new, hnew⟩ := (hbehind opened).grows p.1 p.2
  refine (hbehind opened).agree p.1 t p.2 new ht hnew fun e he hagain => ?_
  -- Both this expansion and the later one would be in the record.
  obtain ⟨more, hmore⟩ := record_of_invocation (h.logged s₁.log) (recording_wrapping_eq_ok hrun)
  have hcount := honce hagain.2
  have hlater : 0 < (new.map (·.site.name)).count name :=
    List.count_pos_iff.mpr (List.mem_map.mpr ⟨e, he, hagain.1⟩)
  rw [bind_of_ok hrun, show p = (p.1, p.2) from rfl, hnew, hmore] at hcount
  simp only [List.map_append, List.map_cons, List.count_append, List.count_cons_self] at hcount
  omega

/-- A line that invokes a macro, and the lines that are pasted in its place: one with its labels, and
those of the macro's body with the mark of the expansion in place of `@` and with arguments in place
of parameters. -/
structure Replaces [Interpreter] (s : Assembly) (number : Nat) (invoking : List Char)
    (name : String) (labels args : List String) (m : MacroDef) (front body : List (List Char)) :
    Prop where
  invocation : Invocation s number (stripped (Text.dropReturn invoking)) labels name args m
  arguments : AreWords (m.params.zip args)
  labels : PastedLabels s number labels (front.map Text.dropReturn)
  lines : ∀ line ∈ m.body,
    Pasteable s (m.params.zip args) (marked (localMark name number) line)
  body : body = m.body.map fun line =>
    written (m.params.zip args) (marked (localMark name number) line)

theorem Replaces.forall₂ [Interpreter] {s : Assembly} {number : Nat} {invoking : List Char}
    {name : String} {labels args : List String} {m : MacroDef} {front body : List (List Char)}
    (h : Replaces s number invoking name labels args m front body) :
    List.Forall₂ (fun line raw => ∃ words, PastedLine s (m.params.zip args)
      (localMark name number) line raw words) m.body (body.map Text.dropReturn) := by
  rw [h.body, List.map_map, List.forall₂_map_right_iff, List.forall₂_same]
  intro line hline
  rw [Function.comp_apply]
  exact ⟨_, (h.lines line hline).pastedLine h.arguments⟩

/-- Replacing a line that invokes a macro by its labels and the lines of the macro's body, with the
mark of the expansion in place of `@` and with arguments in place of parameters, makes no difference
to whether a source is assembled, nor to its code, constants and labels. What expressions come to
must depend on no other equates than those whose names are in them. -/
theorem pasting_preserves_program [Interpreter] (hlexical : Interpreter.Lexical) (a : Assembler)
    (text pasted name : String) (before front body after : List (List Char)) (invoking : List Char)
    (htext : Text.rawLines text.toList = before ++ invoking :: after)
    (hpasted : Text.rawLines pasted.toList = before ++ (front ++ body ++ after))
    (hfits : ∀ line ∈ invoking :: (front ++ body), Truncation.Fits line)
    (hafter : ∀ raw ∈ after, Movable (stripped (Text.dropReturn raw)))
    (h : ∀ opened s, through 1 none (before.map Text.dropReturn) a.start = .ok opened s →
      opened = none ∧ Clean (· = name) s.macros ∧ ∃ labels args m,
        Replaces s (1 + before.length) invoking name labels args m front body ∧
        ((∃ line ∈ m.body, '@' ∈ line.toList) →
          ((expansions a text).map (·.site.name)).count name ≤ 1)) :
    ((∃ p, (a.parse text).2 = .ok p) ↔ ∃ p', (a.parse pasted).2 = .ok p') ∧
      ∀ p p', (a.parse text).2 = .ok p → (a.parse pasted).2 = .ok p' →
        p'.codes = p.codes ∧ p'.pool = p.pool ∧ p'.labels = p.labels := by
  by_cases hbefore : ∀ line ∈ before, Truncation.Fits line
  · obtain ⟨hinvoking, hlines⟩ := List.forall_mem_cons.mp hfits
    have htextLines : Text.readLines text.toList = before.map Text.dropReturn ++
        Text.dropReturn invoking :: (fitting after).map Text.dropReturn := by
      have hfirst : fitting (invoking :: after) = invoking :: fitting after :=
        fitting_append (List.forall_mem_singleton.mpr hinvoking) after
      rw [readLines_eq, htext, fitting_append hbefore, hfirst, List.map_append, List.map_cons]
    have hpastedLines : Text.readLines pasted.toList = before.map Text.dropReturn ++
        (front.map Text.dropReturn ++ body.map Text.dropReturn ++
          (fitting after).map Text.dropReturn) := by
      rw [readLines_eq, hpasted, fitting_append hbefore, fitting_append hlines, List.map_append,
        List.map_append, List.map_append]
    have hrest : ∀ raw ∈ (fitting after).map Text.dropReturn, Movable (stripped raw) := by
      intro raw hraw
      obtain ⟨line, hline, rfl⟩ := List.mem_map.mp hraw
      exact hafter line ((List.takeWhile_prefix _).subset hline)
    obtain ⟨off, hagree⟩ := agree_append htextLines fun opened s hfirst b b' es hexpansions => by
      obtain ⟨rfl, hclean, labels, args, m, hreplaces, honce⟩ := h opened s hfirst
      obtain ⟨b'', hsplit⟩ := takeLines_append (1 + (before.map Text.dropReturn).length) b'
        (front.map Text.dropReturn ++ body.map Text.dropReturn)
        ((fitting after).map Text.dropReturn)
      rw [hexpansions] at honce
      rw [hsplit]
      rw [List.length_map] at honce ⊢
      exact agree_from_invocation hlexical hreplaces.invocation hclean hreplaces.labels
        hreplaces.forall₂ hrest b b'' _ es honce
    rw [← htextLines, ← hpastedLines] at hagree
    obtain ⟨hiff, hsame⟩ := parse_of_agree a hagree
    refine ⟨hiff, fun p p' hp hp' => ?_⟩
    obtain ⟨hcodes, hpool, hlabels⟩ := hsame p p' hp hp'
    exact ⟨hcodes, hpool, hlabels⟩
  · have hlines : Text.readLines text.toList = Text.readLines pasted.toList := by
      rw [readLines_eq, readLines_eq, htext, hpasted, fitting_append_of_not hbefore,
        fitting_append_of_not hbefore]
    rw [Truncation.parse_congr a hlines]
    refine ⟨Iff.rfl, fun p p' hp hp' => ?_⟩
    cases hp.symm.trans hp'
    exact ⟨rfl, rfl, rfl⟩

/-- The lines of a macro with a local label and a quoted character. -/
def incrementMacro : List (List Char) :=
  [".macro INC p q".toList, "@up: addq p p q".toList, ".word q ' '".toList, ".endm".toList]

/-- A source that invokes the macro behind a label. -/
def increment : String :=
  Truncation.joined (incrementMacro ++ ["start: INC s0 3".toList, "jpl start".toList])

/-- The source with the lines of the macro in the place of the invocation. -/
def incrementPasted : String :=
  Truncation.joined (incrementMacro ++
    ["start:".toList, "INC_5_up: addq s0 s0 3".toList, ".word 3 ' '".toList, "jpl start".toList])

/-- The assembly behind the definition of the macro. -/
def incrementState : Assembly :=
  endState (through 1 none (incrementMacro.map Text.dropReturn) ({} : Assembler).start)

theorem through_incrementMacro {opened : Option String} {s : Assembly}
    (h : through 1 none (incrementMacro.map Text.dropReturn) ({} : Assembler).start =
      .ok opened s) : opened = none ∧ s = incrementState := by
  constructor
  · have hnone : (match through 1 none (incrementMacro.map Text.dropReturn)
        ({} : Assembler).start with
      | .ok opened _ => opened
      | .error _ _ => none) = none := by decide +kernel
    rwa [h] at hnone
  · unfold incrementState
    rw [h]
    rfl

theorem macros_incrementState : incrementState.macros =
    .ofList [("INC", ⟨2, ["p", "q"], ["@up: addq p p q", ".word q ' '"]⟩)] := by
  decide +kernel

theorem clean_incrementState : Clean (· = "INC") incrementState.macros := by
  intro name m hm line hline
  rw [macros_incrementState] at hm
  obtain ⟨rfl, rfl⟩ := Prod.mk.inj (List.mem_singleton.mp (mem_of_find?_ofList hm))
  have hlines : ∀ line ∈ ["@up: addq p p q", ".word q ' '"],
      NoExpression (unquoted line.toList) ∧ lineEquate ∉ lineWords line := by decide +kernel
  obtain ⟨hclosed, hunused⟩ := hlines line hline
  exact ⟨not_uses_of_noExpression hclosed hunused, .inl rfl⟩

theorem replaces_increment :
    Replaces incrementState 5 "start: INC s0 3".toList "INC" ["start:"] ["s0", "3"]
      ⟨2, ["p", "q"], ["@up: addq p p q", ".word q ' '"]⟩ ["start:".toList]
      ["INC_5_up: addq s0 s0 3".toList, ".word 3 ' '".toList] where
  invocation :=
    { words := ⟨["start:", "INC", "s0", "3"],
        readsAs_of_noExpression (by decide +kernel) (by decide +kernel) _, by decide,
        by decide +kernel⟩
      labels := by decide
      head := by decide
      known := by decide +kernel
      arity := rfl
      inert := by decide +kernel }
  arguments := by decide
  labels := .inr ⟨_, ["start:"], rfl,
    readsAs_of_noExpression (by decide +kernel) (by decide +kernel) _, by decide,
    by decide +kernel⟩
  lines := by
    refine List.forall_mem_cons.mpr ⟨?_, List.forall_mem_singleton.mpr ?_⟩ <;>
      exact ⟨by decide +kernel, by decide +kernel, by decide +kernel, by decide +kernel,
        by decide +kernel, by decide +kernel⟩
  body := by decide +kernel

theorem pasting_preserves_program_increment :
    (expansions {} increment).map (·.site) = [⟨"INC", 5⟩] ∧
      ∃ p p', (({} : Assembler).parse increment).2 = .ok p ∧
        (({} : Assembler).parse incrementPasted).2 = .ok p' ∧
        p'.codes = p.codes ∧ p'.pool = p.pool ∧ p'.labels = p.labels := by
  let front : List (List Char) := ["start:".toList]
  let body : List (List Char) := ["INC_5_up: addq s0 s0 3".toList, ".word 3 ' '".toList]
  have hexpansions : (expansions {} increment).map (·.site) = [⟨"INC", 5⟩] := by decide +kernel
  have htext : Text.rawLines increment.toList =
      incrementMacro ++ "start: INC s0 3".toList :: ["jpl start".toList] := by decide +kernel
  have hpasted : Text.rawLines incrementPasted.toList =
      incrementMacro ++ (front ++ body ++ ["jpl start".toList]) := by decide +kernel
  have hfits : ∀ line ∈ "start: INC s0 3".toList :: (front ++ body), Truncation.Fits line := by
    decide +kernel
  have hafter : Movable (stripped (Text.dropReturn "jpl start".toList)) :=
    ⟨not_uses_of_noExpression (by decide +kernel) (by decide +kernel), by decide +kernel⟩
  have honce : ((expansions {} increment).map (·.site.name)).count "INC" ≤ 1 := by
    have hnames : (expansions {} increment).map (·.site.name) = ["INC"] :=
      List.map_map.symm.trans (congrArg (List.map Site.name) hexpansions)
    rw [hnames]
    decide
  have hthrough : ∀ opened s,
      through 1 none (incrementMacro.map Text.dropReturn) ({} : Assembler).start = .ok opened s →
      opened = none ∧ Clean (· = "INC") s.macros ∧ ∃ labels args m,
        Replaces s (1 + incrementMacro.length) "start: INC s0 3".toList "INC" labels args m
          front body ∧
        ((∃ line ∈ m.body, '@' ∈ line.toList) →
          ((expansions {} increment).map (·.site.name)).count "INC" ≤ 1) := by
    intro opened s h
    obtain ⟨hopened, hs⟩ := through_incrementMacro h
    rw [hopened, hs]
    exact ⟨rfl, clean_incrementState, _, _, _, replaces_increment, fun _ => honce⟩
  obtain ⟨hiff, hsame⟩ := pasting_preserves_program Names.lexical_starlark {} increment
    incrementPasted "INC" incrementMacro front body ["jpl start".toList] "start: INC s0 3".toList
    htext hpasted hfits (List.forall_mem_singleton.mpr hafter) hthrough
  have hok : (({} : Assembler).parse increment).2.isOk = true := by decide +kernel
  obtain ⟨p, hp⟩ : ∃ p, (({} : Assembler).parse increment).2 = .ok p := by
    generalize (({} : Assembler).parse increment).2 = r at hok
    cases r with
    | ok p => exact ⟨p, rfl⟩
    | error e => cases hok
  obtain ⟨p', hp'⟩ := hiff.mp ⟨p, hp⟩
  exact ⟨hexpansions, p, p', hp, hp', hsame p p' hp hp'⟩

/-- The lines of a macro whose name begins with a tab. -/
def tabMacro : List (List Char) :=
  [".macro \tM p".toList, "addq p p 1".toList, "@x: addq p p 1".toList, ".endm".toList]

/-- The lines of a macro whose parameter comes out of a quoted character. -/
def quoteMacro : List (List Char) :=
  [".macro Q p32".toList, ".word p' '".toList, ".endm".toList]

/-- A pasted line that begins with a mark loses the tab that the mark begins with, so that the local
label has another name. And a parameter that is no word of the body's line before quoted characters
are replaced in it is not written over, so that the pasted line is not assembled. -/
theorem pasted_line_reads_otherwise :
    ((expansions {} (Truncation.joined (tabMacro ++ ["start: \tM s0".toList]))).map (·.site) =
        [⟨"\tM", 5⟩] ∧
      ["addq p p 1", "@x: addq p p 1"].map
          (fun line => written [("p", "s0")] (marked (localMark "\tM" 5) line)) =
        ["addq s0 s0 1".toList, "\tM_5_x: addq s0 s0 1".toList] ∧
      (({} : Assembler).parse (Truncation.joined (tabMacro ++
        ["start: \tM s0".toList]))).2.map Program.labels =
        .ok (.ofList [("start", 0), ("\tM_5_x", 4)]) ∧
      (({} : Assembler).parse (Truncation.joined (tabMacro ++
        ["start:".toList, "addq s0 s0 1".toList,
          "\tM_5_x: addq s0 s0 1".toList]))).2.map Program.labels =
        .ok (.ofList [("start", 0), ("M_5_x", 4)])) ∧
    written [("p32", "5")] (marked (localMark "Q" 4) ".word p' '") = ".word p' '".toList ∧
      (({} : Assembler).parse (Truncation.joined (quoteMacro ++ ["Q 5".toList]))).2.isOk = true ∧
      (({} : Assembler).parse (Truncation.joined (quoteMacro ++
        [".word p' '".toList]))).2.isOk = false := by
  refine ⟨⟨?_, ?_, ?_, ?_⟩, ?_, ?_, ?_⟩ <;> decide +kernel

end TaskMachine.Pasting
