import TaskMachine.Proofs.Assembler.Shifting
import TaskMachine.Proofs.Assembler.Truncation

/-!
# Lines of code

A line that does not begin with a directive places its labels and is assembled,
if it invokes no macro. Its words are looked up as equates once. So arguments,
which are looked up as the equates of an expansion, may as well stand in the
line in the place of parameters, if they are no equates themselves.
-/

namespace TaskMachine.CodeLines

open Stateful Asm Expansions Renumbering Tables Numeral

/-! ## Words -/

/-- The words that are read for what they do to the lines around or to the names. -/
def directives : List String := [".equ", ".pool", ".macro", ".endm"]

/-- The words do not begin with a directive. -/
def IsCode (words : List String) : Prop := ∀ head ∈ words.head?, head ∉ directives

/-- The line comes to these words, whatever the equates are. -/
def ReadsAs [Interpreter] (line : String) (words : List String) : Prop :=
  ∀ equates, wordsOf equates line = .ok words

instance (words : List String) : Decidable (IsCode words) :=
  inferInstanceAs (Decidable (∀ head ∈ words.head?, head ∉ directives))

/-- The words behind the labels. -/
def behindLabels (words : List String) : List String :=
  words.dropWhile fun word => (definedLabel? word).isSome

theorem takeLabels_eq_ok {words rest : List String} {s t : Assembly}
    (h : takeLabels words s = .ok rest t) : rest = behindLabels words := by
  induction words generalizing s with
  | nil => exact (pure_eq_ok.mp h).1
  | cons word words ih =>
    unfold takeLabels at h
    unfold behindLabels
    rw [List.dropWhile_cons]
    cases hlabel : definedLabel? word with
    | none =>
      rw [hlabel] at h
      exact (pure_eq_ok.mp h).1
    | some label =>
      rw [hlabel] at h
      obtain ⟨_, u, -, hrest⟩ := bind_eq_ok.mp h
      exact ih hrest

/-- What the words are behind the labels is known before the labels are taken. -/
theorem takeLabels_append {labels : List String}
    (hlabels : ∀ word ∈ labels, (definedLabel? word).isSome = true) (rest : List String) :
    takeLabels (labels ++ rest) = (do
      let _ ← takeLabels labels
      takeLabels rest) := by
  induction labels with
  | nil => exact (pure_bind _ _).symm
  | cons word labels ih =>
    obtain ⟨hword, hlabels⟩ := List.forall_mem_cons.mp hlabels
    obtain ⟨label, hlabel⟩ := Option.isSome_iff_exists.mp hword
    rw [List.cons_append, takeLabels, takeLabels, hlabel]
    dsimp only
    rw [ih hlabels, bind_assoc]

section

variable [Interpreter]

/-- What stands before the first mark is kept. -/
theorem rewritten_front {equates : Table String} {front cs ds : List Char} (hquote : '\'' ∉ front)
    (hdollar : '$' ∉ front) (h : Rewriting.rewritten equates (front ++ cs) = .ok ds) :
    ∃ ds', Rewriting.rewritten equates cs = .ok ds' ∧ ds = front ++ ds' := by
  rw [Rewriting.rewritten_append equates hquote hdollar] at h
  cases hcs : Rewriting.rewritten equates cs with
  | error e =>
    rw [hcs] at h
    cases h
  | ok ds' =>
    rw [hcs] at h
    cases h
    exact ⟨ds', rfl, rfl⟩

theorem rewritten_space {equates : Table String} {cs ds : List Char}
    (h : Rewriting.rewritten equates (' ' :: cs) = .ok ds) :
    ∃ ds', Rewriting.rewritten equates cs = .ok ds' ∧ ds = ' ' :: ds' :=
  rewritten_front (show '\'' ∉ [' '] by decide) (by decide) h

/-- A first word without marks is the first word also when all marks have been replaced. The
induction is on the spaces before it. -/
theorem words_rewritten {equates : Table String} {word : List Char} (hquote : '\'' ∉ word)
    (hdollar : '$' ∉ word) {cs ds : List Char} {rest : List (List Char)}
    (hwords : Text.words cs = word :: rest) (h : Rewriting.rewritten equates cs = .ok ds) :
    ∃ rest', Text.words ds = word :: rest' := by
  induction hn : cs.length using Nat.strong_induction_on generalizing cs ds with
  | h n ih =>
    by_cases hspace : ' ' ∈ cs
    · obtain ⟨part, tail, rfl, hpart⟩ := List.eq_append_cons_of_mem hspace
      rw [Rewriting.words_append] at hwords
      by_cases hnil : part = []
      · subst hnil
        obtain ⟨ds', hds', rfl⟩ := rewritten_space h
        have hbehind : Text.words ([] ++ ' ' :: ds') = Text.words [] ++ Text.words ds' :=
          Rewriting.words_append [] ds'
        obtain ⟨rest', hrest'⟩ := ih tail.length (by rw [← hn]; simp) hwords hds' rfl
        exact ⟨rest', hbehind.trans hrest'⟩
      · rw [Rewriting.words_singleton hnil hpart] at hwords
        obtain ⟨rfl, -⟩ := List.cons.inj hwords
        obtain ⟨ds', hds', rfl⟩ := rewritten_front hquote hdollar h
        obtain ⟨ds'', -, rfl⟩ := rewritten_space hds'
        refine ⟨Text.words ds'', (Rewriting.words_append part ds'').trans ?_⟩
        rw [Rewriting.words_singleton hnil hpart]
        rfl
    · have hnil : cs ≠ [] := by
        rintro rfl
        cases hwords
      rw [Rewriting.words_singleton hnil hspace] at hwords
      obtain ⟨rfl, -⟩ := List.cons.inj hwords
      rw [← List.append_nil cs] at h
      obtain ⟨ds', hds', rfl⟩ := rewritten_front hquote hdollar h
      obtain rfl : ds' = [] := by
        cases hds'
        rfl
      exact ⟨[], by rw [List.append_nil, Rewriting.words_singleton hnil hspace]⟩

/-- A line of code neither opens nor closes the definition of a macro. -/
theorem IsCode.not_delimits {equates : Table String} {line : String} {words : List String}
    (hcode : IsCode words) (hwords : wordsOf equates line = .ok words) :
    ¬ LocalMarks.Delimits line := by
  rintro ⟨head, rest, hline, hhead⟩
  obtain ⟨first, tail, hfirst, hofList, -⟩ := List.map_eq_cons_iff.mp hline
  have hchars : first = head.toList := by rw [← hofList, String.toList_ofList]
  have hmarks : '\'' ∉ first ∧ '$' ∉ first := by
    rw [hchars]
    rcases hhead with rfl | rfl <;> decide
  rw [Rewriting.wordsOf_eq] at hwords
  cases hds : Rewriting.rewritten equates line.toList with
  | error e =>
    rw [hds] at hwords
    cases hwords
  | ok ds =>
    obtain ⟨rest', hrest'⟩ := words_rewritten hmarks.1 hmarks.2 hfirst hds
    rw [hds] at hwords
    cases hwords
    have hdirective : head ∈ directives := by
      rcases hhead with rfl | rfl <;> decide
    refine hcode head ?_ hdirective
    dsimp only
    rw [hrest', List.map_cons, List.head?_cons, hofList]
    rfl

end

/-! ## Substitution -/

theorem find?_insertAll {α : Type} (t : Table α) (entries : List (String × α)) (name : String) :
    (t.insertAll entries).find? name =
      ((Table.ofList entries).find? name).or (t.find? name) := by
  induction entries generalizing t with
  | nil => rfl
  | cons entry entries ih =>
    have hfirst : (t.insertAll (entry :: entries)).find? name =
        ((t.insert entry.1 entry.2).insertAll entries).find? name := rfl
    have hsecond : (Table.ofList (entry :: entries)).find? name =
        ((({} : Table α).insert entry.1 entry.2).insertAll entries).find? name := rfl
    rw [hfirst, hsecond, ih, ih (({} : Table α).insert _ _), find?_insert, find?_insert]
    cases (Table.ofList entries).find? name with
    | some value => rfl
    | none => split <;> rfl

theorem mem_of_find?_ofList {α : Type} {entries : List (String × α)} {name : String} {value : α}
    (h : (Table.ofList entries).find? name = some value) : (name, value) ∈ entries := by
  induction entries with
  | nil => cases h
  | cons entry entries ih =>
    have hcons : (Table.ofList (entry :: entries)).find? name =
        ((({} : Table α).insert entry.1 entry.2).insertAll entries).find? name := rfl
    rw [hcons, find?_insertAll, Option.or_eq_some_iff, find?_insert] at h
    rcases h with h | ⟨-, h⟩
    · exact List.mem_cons_of_mem _ (ih h)
    · split at h
      · rename_i hname
        cases h
        rw [hname]
        exact List.mem_cons_self
      · cases h

section Substitution

variable {b e e' : Table String} {entries : List (String × String)} {words : List String}

/-- Replacing parameters by arguments and then equates is replacing what either are set to. The
arguments are no equates themselves, so that nothing is replaced twice. -/
theorem substituted_arguments (he : SameEquates (b.insertAll entries) e) (he' : SameEquates b e')
    (hline : lineEquate ∉ words)
    (hargs : ∀ entry ∈ entries, entry.2 ≠ lineEquate ∧ b.find? entry.2 = none) :
    substituted e' (substituted (.ofList entries) words) = substituted e words := by
  unfold substituted
  rw [List.map_map]
  refine List.map_congr_left fun word hword => ?_
  have hother : word ≠ lineEquate := by
    rintro rfl
    exact hline hword
  rw [Function.comp_apply, he word hother, find?_insertAll]
  cases harg : (Table.ofList entries).find? word with
  | none =>
    rw [Option.getD_none, he' word hother]
    rfl
  | some arg =>
    obtain ⟨hline, hunset⟩ := hargs _ (mem_of_find?_ofList harg)
    rw [Option.getD_some, he' arg hline, hunset]
    rfl

/-- Arguments that begin with no point are no directives. -/
theorem IsCode.substituted (hcode : IsCode words)
    (hargs : ∀ entry ∈ entries, entry.2.toList.head? ≠ some '.') :
    IsCode (substituted (.ofList entries) words) := by
  intro head hhead
  unfold TaskMachine.substituted at hhead
  rw [List.head?_map] at hhead
  obtain ⟨word, hword, rfl⟩ := Option.map_eq_some_iff.mp hhead
  cases harg : (Table.ofList entries).find? word with
  | none => exact hcode word hword
  | some arg =>
    intro hmem
    refine hargs _ (mem_of_find?_ofList harg) ?_
    have hpoint : ∀ directive ∈ directives, directive.toList.head? = some '.' := by decide
    exact hpoint arg hmem

end Substitution

/-! ## Reading a line of code -/

/-- The equates while a line is read. -/
def onLine (equates : Table String) (number : Nat) : Table String :=
  equates.insert lineEquate (decimalNat number)

/-- A line is read up to its macro with its number among the equates. -/
theorem front_apply [Interpreter] (number : Nat) (line : String) (s : Assembly) :
    front number line s =
      (match wordsOf (onLine s.equates number) line with
        | .error e => throw e
        | .ok [] => return []
        | .ok (head :: rest) =>
          if head = ".equ" then do
            defineEquate rest
            return []
          else if head = ".pool" then do
            defineConstant rest
            return []
          else takeLabels (substituted (onLine s.equates number) (head :: rest)) :
        Asm (List String)) { s with equates := onLine s.equates number } := by
  let s₁ : Assembly := { s with equates := onLine s.equates number }
  have hset : setEquate lineEquate (decimalNat number) s = .ok () s₁ := rfl
  unfold front
  rw [bind_of_ok hset, get_bind_apply, show s₁.equates = onLine s.equates number from rfl]
  cases wordsOf (onLine s.equates number) line with
  | error e => rfl
  | ok words =>
    cases words with
    | nil => rfl
    | cons head rest =>
      dsimp only
      split
      · rfl
      · split
        · rfl
        · exact get_bind_apply _ _

section Code

variable [Interpreter] {number : Nat} {line : String} {s : Assembly} {words : List String}
  (hwords : wordsOf (onLine s.equates number) line = .ok words) (hcode : IsCode words)

include hwords hcode

theorem front_of_code :
    front number line s =
      takeLabels (substituted (onLine s.equates number) words)
        { s with equates := onLine s.equates number } := by
  rw [front_apply, hwords]
  cases words with
  | nil => rfl
  | cons head rest =>
    have hhead := hcode head rfl
    have hequ : head ≠ ".equ" := by
      rintro rfl
      exact hhead (by decide)
    have hpool : head ≠ ".pool" := by
      rintro rfl
      exact hhead (by decide)
    dsimp only
    rw [if_neg hequ, if_neg hpool]

/-- A line of code that invokes no macro places its labels and is left to be assembled. -/
theorem readLineWith_of_code
    (hplain : ∀ name ∈ (behindLabels (substituted (onLine s.equates number) words)).head?,
      s.macros.find? name = none) (nested : LineReader) :
    readLineWith nested number line s =
      takeLabels (substituted (onLine s.equates number) words)
        { s with equates := onLine s.equates number } := by
  rw [readLineWith_eq]
  have hfront := front_of_code hwords hcode
  cases hrun : front number line s with
  | error e t =>
    rw [bind_of_error hrun, ← hfront, hrun]
  | ok rest t =>
    rw [bind_of_ok hrun, ← hfront, hrun]
    rw [hfront] at hrun
    have hkept := steady_sameMacros.takeLabels _ _ rest t hrun
    have hmacros : t.macros = s.macros := hkept
    rw [← takeLabels_eq_ok hrun] at hplain
    cases rest with
    | nil => rfl
    | cons name args =>
      dsimp only
      rw [get_bind_apply, hmacros, hplain name rfl]
      rfl

/-- A line of code outside of macros. -/
theorem takeLine_of_isCode :
    Asm.takeLine number line none = (do
      let words ← readLine macroDepthLimit number line
      assembleWords number words
      return none) :=
  LocalMarks.takeLine_of_not_delimits (hcode.not_delimits hwords) number

/-- A line of code outside of macros that invokes none. -/
theorem takeLine_of_plain
    (hplain : ∀ name ∈ (behindLabels (substituted (onLine s.equates number) words)).head?,
      s.macros.find? name = none) :
    Asm.takeLine number line none s = (do
      let rest ← takeLabels (substituted (onLine s.equates number) words)
      assembleWords number rest
      return none) { s with equates := onLine s.equates number } := by
  obtain ⟨nested, hnested⟩ := Reading.exists_readLineWith macroDepthLimit
  rw [takeLine_of_isCode hwords hcode, hnested]
  exact bind_apply_congr (readLineWith_of_code hwords hcode hplain nested) _

theorem recordingTakeLine_of_isCode :
    Recording.takeLine number line none = (do
      let words ← Recording.readLine macroDepthLimit [] number line
      Recording.plain (assembleWords number words)
      return none) :=
  LocalMarks.recordingTakeLine_of_not_delimits (hcode.not_delimits hwords) number

end Code

end TaskMachine.CodeLines
