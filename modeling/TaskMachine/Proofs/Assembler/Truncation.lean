import TaskMachine.Expr.Script
import TaskMachine.Proofs.Assembler.PlainText
import TaskMachine.Proofs.Tables

/-!
# What is read of a source

A line that is one unknown word is an error wherever it stands: outside of macros
it is no instruction, and in the body of a macro that is still open at the end the
source fails for that. So a source that ends in such a line is rejected, if all of
it is read. But reading ends without a trace at the first line that does not fit
the buffer, and nothing from that line on has any effect.
-/

namespace TaskMachine.Truncation

open Stateful Lines Reading PlainText Tables Asm

/-! ## The lines of a text -/

/-- The line fits the reader's buffer. -/
def Fits (line : List Char) : Prop := Text.byteCount line ≤ Text.lineLimit

instance (line : List Char) : Decidable (Fits line) :=
  inferInstanceAs (Decidable (_ ≤ _))

/-- A text of the given lines. -/
def joined (lines : List (List Char)) : String := String.ofList (lines.flatMap (· ++ ['\n']))

theorem splitOn_append (cs ds : List Char) :
    Text.splitOn '\n' (cs ++ '\n' :: ds) = Text.splitOn '\n' cs ++ Text.splitOn '\n' ds := by
  rw [splitOn_eq, splitOn_eq, splitOn_eq, List.splitOn_append_cons_self]

/-- The lines of a text are its parts, without the last one if that is empty. -/
theorem rawLines_cases (cs : List Char) :
    Text.splitOn '\n' cs = Text.rawLines cs ∨ Text.splitOn '\n' cs = Text.rawLines cs ++ [[]] := by
  unfold Text.rawLines
  dsimp only
  split
  · rename_i hlast
    exact .inr (List.dropLast_append_getLast? [] hlast).symm
  · exact .inl rfl

theorem rawLines_append {cs line : List Char} (hne : line ≠ []) (hline : '\n' ∉ line) :
    Text.rawLines (cs ++ '\n' :: line) = Text.splitOn '\n' cs ++ [line] := by
  refine rawLines_of_splitOn hne ?_
  rw [splitOn_append, splitOn_eq '\n' line, List.splitOn_eq_singleton hline]

theorem not_mem_of_mem_splitOn {sep : Char} {cs part : List Char}
    (h : part ∈ Text.splitOn sep cs) : sep ∉ part := by
  rw [splitOn_eq] at h
  induction cs generalizing part with
  | nil =>
    rw [List.mem_singleton.mp h]
    exact List.not_mem_nil
  | cons c cs ih =>
    rw [List.splitOn_cons_eq_if_modifyHead] at h
    split at h
    · rcases List.mem_cons.mp h with rfl | h
      · exact List.not_mem_nil
      · exact ih h
    · rename_i hc
      cases hparts : cs.splitOn sep with
      | nil => exact absurd hparts (List.splitOn_ne_nil sep cs)
      | cons first rest =>
        rw [hparts] at h ih
        rcases List.mem_cons.mp h with rfl | h
        · intro hmem
          rcases List.mem_cons.mp hmem with rfl | hmem
          · exact hc BEq.rfl
          · exact ih List.mem_cons_self hmem
        · exact ih (List.mem_cons_of_mem first h)

theorem not_mem_of_mem_rawLines {cs line : List Char} (h : line ∈ Text.rawLines cs) :
    '\n' ∉ line := by
  have hmem : line ∈ Text.splitOn '\n' cs := by
    rcases rawLines_cases cs with heq | heq
    · rwa [heq]
    · rw [heq]
      exact List.mem_append_left _ h
  exact not_mem_of_mem_splitOn hmem

/-- A text of some lines has these lines. -/
theorem rawLines_joined {lines : List (List Char)} (h : ∀ line ∈ lines, '\n' ∉ line) :
    Text.rawLines (joined lines).toList = lines := by
  have hsplit : Text.splitOn '\n' (joined lines).toList = lines ++ [[]] := by
    rw [joined, String.toList_ofList]
    induction lines with
    | nil => rfl
    | cons line rest ih =>
      rw [List.flatMap_cons, List.append_assoc, List.singleton_append, splitOn_append,
        ih fun l hl => h l (List.mem_cons_of_mem line hl), splitOn_eq,
        List.splitOn_eq_singleton (h line List.mem_cons_self)]
      rfl
  unfold Text.rawLines
  rw [hsplit]
  dsimp only
  rw [List.getLast?_concat, List.dropLast_concat]

theorem readLines_of_fits {cs : List Char} (h : ∀ line ∈ Text.rawLines cs, Fits line) :
    Text.readLines cs = (Text.rawLines cs).map Text.dropReturn := by
  have hall : (Text.rawLines cs).takeWhile (fun line => Text.byteCount line ≤ Text.lineLimit) =
      Text.rawLines cs :=
    List.takeWhile_eq_self_iff.mpr fun line hline => decide_eq_true (h line hline)
  unfold Text.readLines
  rw [hall]

/-- Of the lines from the first too long one on, none is read. -/
theorem readLines_of_long {cs long : List Char} {pre post : List (List Char)}
    (hlines : Text.rawLines cs = pre ++ long :: post) (hpre : ∀ line ∈ pre, Fits line)
    (hlong : ¬ Fits long) : Text.readLines cs = Text.readLines (joined pre).toList := by
  have hwhole : Text.rawLines (joined pre).toList = pre := by
    refine rawLines_joined fun line hline => ?_
    have hmem : line ∈ Text.rawLines cs := by
      rw [hlines]
      exact List.mem_append_left _ hline
    exact not_mem_of_mem_rawLines hmem
  have hread : Text.readLines (joined pre).toList = pre.map Text.dropReturn := by
    rw [readLines_of_fits (by rwa [hwhole]), hwhole]
  have hcut : (Text.rawLines cs).takeWhile (fun line => Text.byteCount line ≤ Text.lineLimit) =
      pre := by
    have hkept : ∀ line ∈ pre, decide (Text.byteCount line ≤ Text.lineLimit) = true :=
      fun line hline => decide_eq_true (hpre line hline)
    rw [hlines, List.takeWhile_append_of_pos hkept,
      List.takeWhile_cons_of_neg (by rw [decide_eq_true_eq]; exact hlong), List.append_nil]
  rw [hread]
  unfold Text.readLines
  rw [hcut]

/-- A source counts by the lines that are read of it. -/
theorem parse_congr [Interpreter] (a : Assembler) {text other : String}
    (h : Text.readLines text.toList = Text.readLines other.toList) :
    a.parse text = a.parse other := by
  unfold Assembler.parse source
  rw [h]

/-! ## Linking defines nothing -/

/-- The equates and the macros are the same before and after. -/
def SameNames (s t : Assembly) : Prop := t.equates = s.equates ∧ t.macros = s.macros

theorem SameNames.refl (s : Assembly) : SameNames s s := ⟨rfl, rfl⟩

theorem SameNames.trans {s t u : Assembly} (h : SameNames s t) (k : SameNames t u) :
    SameNames s u :=
  ⟨k.1.trans h.1, k.2.trans h.2⟩

theorem keeps_patch (line : Line) (distance : Int) (offset : UInt32) :
    Keeps SameNames (patch line distance offset) := by
  have hinfo (value : UInt32) : Keeps SameNames (infoWord value) := by
    intro s
    rw [infoWord_apply]
    exact ⟨rfl, rfl⟩
  have hcheck {α : Type} {c : Prop} [Decidable c] (e : AsmError) (x : α) :
      Keeps SameNames (if c then throw e else pure x) :=
    .ite (.throw .refl e) (.pure .refl x)
  unfold patch
  refine .bind .trans (fun _ => ⟨rfl, rfl⟩) fun _ => ?_
  cases line.link with
  | none => exact .pure .refl _
  | half => exact hcheck _ _
  | byte => exact hcheck _ _
  | word => exact hcheck _ _
  | info => exact .bind .trans (hinfo _) fun _ => .pure .refl _
  | absolute =>
    exact .bind .trans SameNames.refl fun s => .bind .trans (hinfo _) fun _ => .pure .refl _

theorem keeps_resolve (line : Line) : Keeps SameNames (resolve line) := by
  unfold resolve
  cases line.target with
  | none => exact .pure .refl line
  | some label =>
    refine .bind .trans SameNames.refl fun s => ?_
    cases s.labels.find? label with
    | none => exact .throw .refl _
    | some offset => exact keeps_patch line _ offset

theorem keeps_resolveAll (index : Nat) (lines : List Line) :
    Keeps SameNames (resolveAll index lines) := by
  induction lines generalizing index with
  | nil => exact .pure .refl ()
  | cons line rest ih =>
    have hwrapped : Keeps SameNames (wrapping (.located line.number line.text) (resolve line)) := by
      intro s
      have hline := keeps_resolve line s
      unfold wrapping
      cases h : resolve line s with
      | ok out t => rwa [h] at hline
      | error e t => rwa [h] at hline
    exact .bind .trans hwrapped fun _ => .bind .trans (fun _ => ⟨rfl, rfl⟩) fun _ => ih (index + 1)

/-- The names that a source has defined are those of the reading of its lines. -/
theorem sameNames_parse [Interpreter] (a : Assembler) (text : String) :
    SameNames (endState (takeLines 1 "" none (Text.readLines text.toList) a.start))
      (a.parse text).1.assembly := by
  have hstate : (a.parse text).1.assembly = endState (source text a.start) := by
    unfold Assembler.parse
    cases source text a.start <;> rfl
  rw [hstate]
  unfold source
  cases h : takeLines 1 "" none (Text.readLines text.toList) a.start with
  | error e s =>
    rw [bind_of_error h]
    exact .refl s
  | ok u s =>
    rw [bind_of_ok h]
    have hlinked : Keeps SameNames (do
        resolveAll 0 (← get).lines.toList
        let s ← get
        return ({ origin := s.origin, lines := s.lines, pool := s.pool, labels := s.labels } :
          Program)) :=
      .bind .trans SameNames.refl fun _ =>
        .bind .trans (keeps_resolveAll 0 _) fun _ => .bind .trans SameNames.refl fun _ => .pure .refl _
    exact hlinked s

/-- The assembly after a line has been noted in the log. -/
def noted (s : Assembly) (number : Nat) (raw : List Char) : Assembly :=
  { s with log := s.log.note fun _ => Numeral.decimalNat number ++ ": " ++ String.ofList raw }

theorem sameNames_noted (s : Assembly) (number : Nat) (raw : List Char) :
    SameNames s (noted s number raw) :=
  ⟨rfl, rfl⟩

theorem takeLines_cons_apply [Interpreter] (number : Nat) (before : String) (opened : Option String)
    (raw : List Char) (rest : List (List Char)) (s : Assembly) :
    takeLines number before opened (raw :: rest) s = (do
      let opened ← wrapping (.located number (stripped raw)) (takeLine number (stripped raw) opened)
      takeLines (number + 1) (stripped raw) opened rest) (noted s number raw) := by
  rw [takeLines_cons, bind_of_ok (show note _ s = .ok () (noted s number raw) from rfl)]

/-! ## A line that is one unknown word -/

/-- An identifier that is no equate, no macro and no mnemonic. The number of the current line is
an equate in every source, and the end of a macro is a directive. -/
structure Unknown (s : Assembly) (word : String) : Prop where
  identifier : isLabel word = true
  notEquate : s.equates.find? word = none
  notLine : word ≠ lineEquate
  notMacro : s.macros.find? word = none
  notMnemonic : Opcode.ofMnemonic? word = none
  notEnd : word ≠ ".endm"

instance (s : Assembly) (word : String) : Decidable (Unknown s word) :=
  decidable_of_iff
    (isLabel word = true ∧ s.equates.find? word = none ∧ word ≠ lineEquate ∧
      s.macros.find? word = none ∧ Opcode.ofMnemonic? word = none ∧ word ≠ ".endm")
    ⟨fun ⟨h₁, h₂, h₃, h₄, h₅, h₆⟩ => ⟨h₁, h₂, h₃, h₄, h₅, h₆⟩,
      fun h => ⟨h.1, h.2, h.3, h.4, h.5, h.6⟩⟩

theorem Unknown.of_sameNames {s t : Assembly} {word : String} (h : Unknown s word)
    (k : SameNames s t) : Unknown t word where
  identifier := h.identifier
  notEquate := by rw [k.1]; exact h.notEquate
  notLine := h.notLine
  notMacro := by rw [k.2]; exact h.notMacro
  notMnemonic := h.notMnemonic
  notEnd := h.notEnd

/-- The characters of identifiers. -/
def isWordChar (c : Char) : Bool := c.isAlpha || c == '_' || c == '.' || c.isDigit

theorem isBlank_of_isWordChar {c : Char} (h : isWordChar c = true) : Text.isBlank c = false := by
  refine isBlank_of_range ?_
  unfold isWordChar at h
  simp only [Bool.or_eq_true, beq_iff_eq] at h
  rcases h with ((hletter | rfl) | rfl) | hdigit
  · rcases Bool.or_eq_true_iff.mp (show (c.isUpper || c.isLower) = true from hletter) with h | h
    · have hrange : 'A'.val ≤ c.val ∧ c.val ≤ 'Z'.val := of_decide_eq_true h
      have hlow : 0x41 ≤ c.toNat := UInt32.le_iff_toNat_le.mp hrange.1
      have hhigh : c.toNat ≤ 0x5a := UInt32.le_iff_toNat_le.mp hrange.2
      omega
    · have hrange := toNat_of_isLower h
      omega
  · decide
  · decide
  · have hrange := toNat_of_isDigit hdigit
    omega

section Word

variable {word : String} (hword : isLabel word = true)

include hword

theorem word_ne_nil : word.toList ≠ [] := by
  intro hnil
  unfold isLabel at hword
  rw [hnil] at hword
  cases hword

theorem isWordChar_of_mem {c : Char} (hc : c ∈ word.toList) : isWordChar c = true := by
  unfold isLabel at hword
  dsimp only at hword
  split at hword
  · cases hword
  · rename_i first rest hchars
    rw [hchars] at hc
    obtain ⟨hfirst, hrest⟩ := Bool.and_eq_true_iff.mp hword
    rcases List.mem_cons.mp hc with rfl | hc
    · exact Bool.or_eq_true_iff.mpr (.inl hfirst)
    · exact List.all_eq_true.mp hrest c hc

theorem not_mem_word {c : Char} (hc : isWordChar c = false) : c ∉ word.toList := by
  intro hmem
  rw [isWordChar_of_mem hword hmem] at hc
  cases hc

theorem words_word : (Text.words word.toList).map String.ofList = [word] := by
  have hkept : decide (word.toList ≠ []) = true := decide_eq_true (word_ne_nil hword)
  unfold Text.words
  rw [splitOn_eq, List.splitOn_eq_singleton (not_mem_word hword (by decide)),
    List.filter_singleton, hkept]
  exact congrArg (· :: []) String.ofList_toList

theorem wordsOf_word [Interpreter] (equates : Table String) :
    wordsOf equates word = .ok [word] := by
  unfold wordsOf
  rw [replaceChars_eq_self (not_mem_word hword (by decide)), List.reverse_nil, List.nil_append,
    replaceExpressions_eq_self _ (not_mem_word hword (by decide))]
  dsimp only
  rw [List.reverse_nil, List.nil_append, words_word hword]

theorem stripped_word : stripped word.toList = word := by
  have hcomment : Text.before ';' word.toList = word.toList := by
    refine List.takeWhile_eq_self_iff.mpr fun c hc => decide_eq_true ?_
    rintro rfl
    exact not_mem_word hword (by decide) hc
  have hblank {c : Char} (hc : c ∈ word.toList) : Text.isBlank c = false :=
    isBlank_of_isWordChar (isWordChar_of_mem hword hc)
  unfold stripped
  rw [hcomment, trim_eq_self (fun c hc => hblank (List.mem_of_head? hc))
    (fun c hc => hblank (List.mem_of_getLast? hc)), String.ofList_toList]

theorem dropReturn_word : Text.dropReturn word.toList = word.toList := by
  unfold Text.dropReturn
  split
  · rename_i hlast
    exact absurd (List.mem_of_getLast? hlast) (not_mem_word hword (by decide))
  · rfl

theorem definedLabel?_word : definedLabel? word = none := by
  unfold definedLabel?
  split
  · rename_i hlast
    exact absurd (List.mem_of_getLast? hlast) (not_mem_word hword (by decide))
  · rfl

end Word

section Unknown

variable {word : String} {s : Assembly} (h : Unknown s word)

include h

/-- The assembly after the number of the current line has been set. -/
theorem Unknown.onLine (number : Nat) : Unknown
    { s with equates := s.equates.insert lineEquate (Numeral.decimalNat number) } word where
  identifier := h.identifier
  notEquate := by rw [find?_insert, if_neg h.notLine]; exact h.notEquate
  notLine := h.notLine
  notMacro := h.notMacro
  notMnemonic := h.notMnemonic
  notEnd := h.notEnd

/-- The word is a definition without operands, or it is left to be assembled. -/
theorem Unknown.readLine [Interpreter] {depth number : Nat} {words : List String} {t : Assembly}
    (hread : Asm.readLine depth number word s = .ok words t) : words = [word] := by
  have hkept : substituted (s.equates.insert lineEquate (Numeral.decimalNat number)) [word] =
      [word] := by
    unfold substituted
    rw [List.map_singleton, (h.onLine number).notEquate]
    rfl
  obtain ⟨nested, hnested⟩ := exists_readLineWith depth
  rw [hnested] at hread
  unfold readLineWith at hread
  rw [bind_of_ok (show setEquate lineEquate (Numeral.decimalNat number) s = .ok () _ from rfl),
    get_bind_apply, wordsOf_word h.identifier] at hread
  dsimp only at hread
  split at hread
  · cases hread
  split at hread
  · cases hread
  rw [get_bind_apply, hkept, takeLabels, definedLabel?_word h.identifier] at hread
  dsimp only at hread
  rw [pure_bind] at hread
  dsimp only at hread
  rw [get_bind_apply, h.notMacro] at hread
  exact (pure_eq_ok.mp hread).1

theorem Unknown.assembleWords_ne {number : Nat} {t u : Assembly} {v : Unit} :
    Asm.assembleWords number [word] t ≠ .ok v u := by
  intro hok
  rw [Asm.assembleWords, bind_of_ok (currentPc_apply t)] at hok
  obtain ⟨line, w, hline, -⟩ := bind_eq_ok.mp hok
  obtain ⟨hdirective, -, -⟩ | ⟨-, op, hop, -⟩ := lineOf_eq_ok hline
  · unfold lineOf at hline
    rw [if_pos hdirective, if_pos rfl] at hline
    exact throw_eq_ok.mp hline
  · cases h.notMnemonic.symm.trans hop

variable [Interpreter]

/-- Outside of macros the word is an error, and where it is none it stands in a macro. -/
theorem Unknown.takeLine_ne (number : Nat) (opened : Option String) (t : Assembly) :
    Asm.takeLine number word opened s ≠ .ok none t := by
  have hwords := words_word h.identifier
  generalize hx : Asm.takeLine number word opened = x
  unfold Asm.takeLine at hx
  split at hx
  · subst hx
    nofun
  · rename_i hopens
    cases hwords.symm.trans hopens
    subst hx
    nofun
  · subst hx
    nofun
  · rename_i hcloses
    exact absurd (List.cons.inj (hwords.symm.trans hcloses)).1 h.notEnd
  · subst hx
    nofun
  · subst hx
    intro hok
    obtain ⟨words, u, hread, hok⟩ := bind_eq_ok.mp hok
    obtain ⟨_, v, hemit, -⟩ := bind_eq_ok.mp hok
    rw [h.readLine hread] at hemit
    exact h.assembleWords_ne hemit

/-- An empty line only sets the line number or goes into the body of a macro. -/
theorem Unknown.takeLine_empty (number : Nat) (opened : Option String) :
    ∃ next t, Asm.takeLine number "" opened s = .ok next t ∧ Unknown t word := by
  cases opened with
  | none =>
    obtain ⟨nested, hnested⟩ := exists_readLineWith macroDepthLimit
    refine ⟨none, _, ?_, h.onLine number⟩
    change (do
      let words ← Asm.readLine macroDepthLimit number ""
      Asm.assembleWords number words
      return none) s = _
    rw [hnested]
    rfl
  | some name =>
    refine ⟨some name, _, rfl, ?_⟩
    dsimp only
    split
    · rename_i m hname
      have hother : word ≠ name := by
        rintro rfl
        cases h.notMacro.symm.trans hname
      exact ⟨h.identifier, h.notEquate, h.notLine, by
        rw [find?_insert, if_neg hother]; exact h.notMacro, h.notMnemonic, h.notEnd⟩
    · exact h

theorem Unknown.takeLines (number : Nat) (before : String) (opened : Option String) :
    ∃ e t, Asm.takeLines number before opened [word.toList] s = .error e t := by
  have hnoted := h.of_sameNames (sameNames_noted s number word.toList)
  rw [takeLines_cons_apply, stripped_word h.identifier]
  cases hline : Asm.takeLine number word opened (noted s number word.toList) with
  | error e t => exact ⟨_, t, bind_of_error (wrapping_of_error hline) _⟩
  | ok next t =>
    rw [bind_of_ok (wrapping_of_ok hline)]
    cases next with
    | none => exact absurd hline (hnoted.takeLine_ne number opened t)
    | some name => exact ⟨_, t, rfl⟩

/-- An empty line before the word makes no difference. -/
theorem Unknown.takeLines_empty (number : Nat) (before : String) (opened : Option String) :
    ∃ e t, Asm.takeLines number before opened [[], word.toList] s = .error e t := by
  have hnoted := h.of_sameNames (sameNames_noted s number [])
  obtain ⟨next, t, hline, ht⟩ := hnoted.takeLine_empty number opened
  rw [takeLines_cons_apply, show stripped [] = "" from rfl, bind_of_ok (wrapping_of_ok hline)]
  exact ht.takeLines (number + 1) "" next

end Unknown

/-! ## Sources that end in an unknown word -/

/-- Reading some lines and more fails, if the latter fail from where reading the former ends. -/
theorem takeLines_append [Interpreter] (number : Nat) (before : String) (opened : Option String)
    (first last : List (List Char)) (s : Assembly)
    (hlast : ∀ n b o, ∃ e t,
      takeLines n b o last (endState (takeLines number before opened first s)) = .error e t) :
    ∃ e t, takeLines number before opened (first ++ last) s = .error e t := by
  induction first generalizing number before opened s with
  | nil =>
    -- A macro that is still open is an error only where the source ends.
    have hend : endState (takeLines number before opened [] s) = s := by
      cases opened <;> rfl
    rw [hend] at hlast
    exact hlast number before opened
  | cons raw rest ih =>
    rw [takeLines_cons_apply] at hlast
    rw [List.cons_append, takeLines_cons_apply]
    cases hline : wrapping (.located number (stripped raw))
        (takeLine number (stripped raw) opened) (noted s number raw) with
    | error e t => exact ⟨e, t, bind_of_error hline _⟩
    | ok next t =>
      rw [bind_of_ok hline] at hlast ⊢
      exact ih (number + 1) (stripped raw) next t hlast

/-- The lines of a source with one more word at its end. -/
theorem readLines_append {text word : String} (hword : isLabel word = true)
    (hfits : ∀ line ∈ Text.rawLines (text ++ "\n" ++ word).toList, Fits line) :
    Text.readLines (text ++ "\n" ++ word).toList =
        Text.readLines text.toList ++ [word.toList] ∨
      Text.readLines (text ++ "\n" ++ word).toList =
        Text.readLines text.toList ++ [[], word.toList] := by
  have hchars : (text ++ "\n" ++ word).toList = text.toList ++ '\n' :: word.toList := by
    rw [String.toList_append, String.toList_append, List.append_assoc]
    rfl
  have hraw : Text.rawLines (text ++ "\n" ++ word).toList =
      Text.splitOn '\n' text.toList ++ [word.toList] := by
    rw [hchars, rawLines_append (word_ne_nil hword) (not_mem_word hword (by decide))]
  rw [readLines_of_fits hfits, hraw, List.map_append, List.map_singleton, dropReturn_word hword]
  rw [hraw] at hfits
  rcases rawLines_cases text.toList with heq | heq
  · rw [heq] at hfits ⊢
    rw [readLines_of_fits fun line hline => hfits line (List.mem_append_left _ hline)]
    exact .inl rfl
  · rw [heq] at hfits ⊢
    rw [readLines_of_fits fun line hline =>
      hfits line (List.mem_append_left _ (List.mem_append_left _ hline)), List.map_append,
      List.append_assoc]
    exact .inr rfl

/-- A source that ends in a line of one unknown word is rejected if all its lines fit. If one does
not, then the source is assembled as if it ended before the first of these lines: whatever follows,
the unknown word included, is ignored. -/
theorem unknown_word_rejected_or_cut_off [Interpreter] (a : Assembler) (text word : String)
    (h : Unknown (a.parse text).1.assembly word) :
    ((∀ line ∈ Text.rawLines (text ++ "\n" ++ word).toList, Fits line) →
      ∃ e, (a.parse (text ++ "\n" ++ word)).2 = .error e) ∧
    ∀ pre long post, Text.rawLines (text ++ "\n" ++ word).toList = pre ++ long :: post →
      (∀ line ∈ pre, Fits line) → ¬ Fits long →
      a.parse (text ++ "\n" ++ word) = a.parse (joined pre) := by
  constructor
  · intro hfits
    have hend : Unknown (endState (takeLines 1 "" none (Text.readLines text.toList) a.start)) word :=
      h.of_sameNames ⟨(sameNames_parse a text).1.symm, (sameNames_parse a text).2.symm⟩
    have hfails : ∃ e t,
        takeLines 1 "" none (Text.readLines (text ++ "\n" ++ word).toList) a.start = .error e t := by
      obtain hlines | hlines := readLines_append h.identifier hfits
      · rw [hlines]
        exact takeLines_append 1 "" none _ _ a.start hend.takeLines
      · rw [hlines]
        exact takeLines_append 1 "" none _ _ a.start hend.takeLines_empty
    obtain ⟨e, t, hfails⟩ := hfails
    refine ⟨e, ?_⟩
    unfold Assembler.parse source
    rw [bind_of_error hfails]
  · intro pre long post hlines hpre hlong
    exact parse_congr a (readLines_of_long hlines hpre hlong)

/-- A macro that is open when the word comes has a body that never ends. -/
theorem unknown_word_rejected_in_macro :
    Unknown (({} : Assembler).parse ".equ one 1\n.macro m\n").1.assembly "bogus" ∧
      ∃ e, (({} : Assembler).parse (".equ one 1\n.macro m\n" ++ "\n" ++ "bogus")).2 = .error e := by
  have h : Unknown (({} : Assembler).parse ".equ one 1\n.macro m\n").1.assembly "bogus" := by
    decide +kernel
  refine ⟨h, (unknown_word_rejected_or_cut_off {} _ _ h).1 ?_⟩
  decide +kernel

/-- A comment that is one byte too long for the buffer. -/
def longComment : List Char := List.replicate (Text.lineLimit + 1) ';'

theorem not_fits_longComment : ¬ Fits longComment := by
  have hsize : ∀ c ∈ longComment, c.utf8Size = 1 := by
    intro c hc
    rw [List.eq_of_mem_replicate hc]
    rfl
  unfold Fits
  rw [byteCount_eq_length hsize, longComment, List.length_replicate]
  exact Nat.not_succ_le_self _

/-- After a line that does not fit, an unknown word is no error, and the source is accepted. -/
theorem unknown_word_accepted_after_long_line :
    Unknown (({} : Assembler).parse (String.ofList longComment)).1.assembly "bogus" ∧
      ∃ p, (({} : Assembler).parse (String.ofList longComment ++ "\n" ++ "bogus")).2 = .ok p := by
  have hne : longComment ≠ [] := List.cons_ne_nil _ _
  have hline : '\n' ∉ longComment := by
    intro hmem
    cases List.eq_of_mem_replicate hmem
  have hword : isLabel "bogus" = true := by decide
  have halone : Text.rawLines (String.ofList longComment).toList = [] ++ longComment :: [] := by
    rw [String.toList_ofList]
    exact rawLines_singleton hne hline
  have hboth : Text.rawLines (String.ofList longComment ++ "\n" ++ "bogus").toList =
      [] ++ longComment :: ["bogus".toList] := by
    rw [String.toList_append, String.toList_append, String.toList_ofList, List.append_assoc]
    refine (rawLines_append (word_ne_nil hword) (not_mem_word hword (by decide))).trans ?_
    rw [splitOn_eq, List.splitOn_eq_singleton hline]
    rfl
  rw [parse_congr _ (readLines_of_long halone nofun not_fits_longComment),
    parse_congr _ (readLines_of_long hboth nofun not_fits_longComment)]
  exact ⟨by decide +kernel, _, rfl⟩

end TaskMachine.Truncation
