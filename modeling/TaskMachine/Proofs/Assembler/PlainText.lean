import Mathlib.Data.List.TakeWhile
import TaskMachine.Proofs.Assembler.Linkage
import TaskMachine.Proofs.Store.Words

/-!
# Lines of plain words

A plain word has only small letters, digits and signs. A line of such words has
no comment, no quoted character and no expression, defines no label and names
no equate that every source has. Such a line is read as the words it was put
together from, and as the one line of a source it stands or falls with the
instruction that these words are.
-/

namespace TaskMachine.PlainText

open Stateful Lines Reading Linkage Words Asm

/-- The characters of plain words. -/
def isPlain (c : Char) : Bool := c.isLower || c.isDigit || c == '+' || c == '-'

/-- A word of a few plain characters. -/
structure Plain (word : String) : Prop where
  nonempty : word.toList ≠ []
  chars : ∀ c ∈ word.toList, isPlain c = true
  short : word.toList.length ≤ 16

instance (word : String) : Decidable (Plain word) :=
  decidable_of_iff
    (word.toList ≠ [] ∧ word.toList.all isPlain = true ∧ word.toList.length ≤ 16)
    ⟨fun h => ⟨h.1, List.all_eq_true.mp h.2.1, h.2.2⟩,
      fun h => ⟨h.nonempty, List.all_eq_true.mpr h.chars, h.short⟩⟩

theorem toNat_of_isLower {c : Char} (h : c.isLower = true) : 0x61 ≤ c.toNat ∧ c.toNat ≤ 0x7a := by
  have hrange := Bool.and_eq_true_iff.mp h
  exact ⟨UInt32.le_iff_toNat_le.mp (of_decide_eq_true hrange.1),
    UInt32.le_iff_toNat_le.mp (of_decide_eq_true hrange.2)⟩

theorem toNat_of_isDigit {c : Char} (h : c.isDigit = true) : 0x30 ≤ c.toNat ∧ c.toNat ≤ 0x39 :=
  Char.isDigit_iff_toNat.mp h

theorem toNat_of_isPlain {c : Char} (h : isPlain c = true) : 0x2b ≤ c.toNat ∧ c.toNat ≤ 0x7a := by
  unfold isPlain at h
  simp only [Bool.or_eq_true, beq_iff_eq] at h
  rcases h with ((h | h) | rfl) | rfl
  · have hrange := toNat_of_isLower h
    omega
  · have hrange := toNat_of_isDigit h
    omega
  · decide
  · decide

theorem isBlank_of_range {c : Char} (h : 0x2b ≤ c.toNat ∧ c.toNat ≤ 0x7a) :
    Text.isBlank c = false := by
  simp only [Text.isBlank, Text.inRanges, Text.blankRanges, List.any_cons, List.any_nil,
    Bool.or_false, Bool.or_eq_false_iff, Bool.and_eq_false_iff, decide_eq_false_iff_not]
  omega

theorem isBlank_of_isPlain {c : Char} (h : isPlain c = true) : Text.isBlank c = false :=
  isBlank_of_range (toNat_of_isPlain h)

theorem utf8Size_of_isPlain {c : Char} (h : isPlain c = true) : c.utf8Size = 1 := by
  obtain ⟨-, hhigh⟩ := toNat_of_isPlain h
  refine if_pos (UInt32.le_iff_toNat_le.mpr ?_)
  change c.toNat ≤ 127
  omega

theorem Plain.not_mem {word : String} (h : Plain word) {c : Char} (hc : isPlain c = false) :
    c ∉ word.toList := by
  intro hmem
  rw [h.chars c hmem] at hc
  cases hc

theorem Plain.ne {word other : String} (h : Plain word) {c : Char} (hc : isPlain c = false)
    (hmem : c ∈ other.toList) : word ≠ other := by
  rintro rfl
  exact h.not_mem hc hmem

/-! ## The characters of a line -/

section Line

variable {parts : List String} (hplain : ∀ part ∈ parts, Plain part)

include hplain

theorem mem_text {c : Char} (hc : c ∈ (" ".intercalate parts).toList) :
    c = ' ' ∨ isPlain c = true := by
  induction parts with
  | nil =>
    rw [String.intercalate_nil] at hc
    cases hc
  | cons part rest ih =>
    have hpart := hplain part List.mem_cons_self
    have hrest := ih fun p hp => hplain p (List.mem_cons_of_mem _ hp)
    cases rest with
    | nil =>
      rw [String.intercalate_singleton] at hc
      exact .inr (hpart.chars c hc)
    | cons next rest =>
      rw [String.intercalate_cons_cons, String.toList_append, String.toList_append,
        List.mem_append, List.mem_append] at hc
      rcases hc with (hc | hc) | hc
      · exact .inr (hpart.chars c hc)
      · exact .inl (List.mem_singleton.mp hc)
      · exact hrest hc

theorem not_mem_text {c : Char} (hspace : c ≠ ' ') (hc : isPlain c = false) :
    c ∉ (" ".intercalate parts).toList := by
  intro hmem
  rcases mem_text hplain hmem with h | h
  · exact hspace h
  · rw [h] at hc
    cases hc

theorem length_text : (" ".intercalate parts).toList.length ≤ 17 * parts.length := by
  induction parts with
  | nil => rw [String.intercalate_nil]; exact Nat.zero_le _
  | cons part rest ih =>
    have hpart := (hplain part List.mem_cons_self).short
    have hrest := ih fun p hp => hplain p (List.mem_cons_of_mem _ hp)
    cases rest with
    | nil =>
      rw [String.intercalate_singleton, List.length_singleton]
      omega
    | cons next rest =>
      have hblank : (" " : String).toList.length = 1 := rfl
      rw [String.intercalate_cons_cons, String.toList_append, String.toList_append,
        List.length_append, List.length_append, hblank, List.length_cons]
      omega

theorem text_ne_nil (hsome : parts ≠ []) : (" ".intercalate parts).toList ≠ [] := by
  cases parts with
  | nil => exact absurd rfl hsome
  | cons part rest =>
    have hpart := hplain part List.mem_cons_self
    cases rest with
    | nil => rw [String.intercalate_singleton]; exact hpart.nonempty
    | cons next rest =>
      rw [String.intercalate_cons_cons, String.toList_append, String.toList_append]
      simp [hpart.nonempty]

/-- Neither the first nor the last character of a line of plain words is a space. -/
theorem ends_text :
    (∀ c ∈ (" ".intercalate parts).toList.head?, isPlain c = true) ∧
      ∀ c ∈ (" ".intercalate parts).toList.getLast?, isPlain c = true := by
  induction parts with
  | nil =>
    rw [String.intercalate_nil]
    exact ⟨nofun, nofun⟩
  | cons part rest ih =>
    have hpart := hplain part List.mem_cons_self
    have hplain' : ∀ p ∈ rest, Plain p := fun p hp => hplain p (List.mem_cons_of_mem _ hp)
    cases rest with
    | nil =>
      rw [String.intercalate_singleton]
      exact ⟨fun c hc => hpart.chars c (List.mem_of_head? hc),
        fun c hc => hpart.chars c (List.mem_of_getLast? hc)⟩
    | cons next rest =>
      have hne := text_ne_nil hplain' (List.cons_ne_nil next rest)
      rw [String.intercalate_cons_cons, String.toList_append, String.toList_append]
      constructor
      · intro c hc
        rw [List.append_assoc, List.head?_append_of_ne_nil _ hpart.nonempty] at hc
        exact hpart.chars c (List.mem_of_head? hc)
      · intro c hc
        rw [List.getLast?_append_of_ne_nil _ hne] at hc
        exact (ih hplain').2 c hc

end Line

/-! ## Cutting a text -/

theorem splitOn_eq (sep : Char) (cs : List Char) : Text.splitOn sep cs = cs.splitOn sep := by
  induction cs with
  | nil => rfl
  | cons c cs ih =>
    rw [List.splitOn, List.splitOnP_cons_eq_if_modifyHead, ← List.splitOn, ← ih]
    change (if c = sep then _ else _) = _
    by_cases hc : c = sep
    · rw [if_pos hc, if_pos (beq_iff_eq.mpr hc)]
      rfl
    · rw [if_neg hc, if_neg (by simpa using hc)]
      have hne : Text.splitOn sep cs ≠ [] := by
        rw [ih]
        exact List.splitOnP_ne_nil _ _
      unfold Text.splitOn at hne ⊢
      split
      · rename_i hnil
        exact absurd hnil hne
      · rename_i hparts
        rw [hparts]
        rfl

/-- The last line of a text needs no line feed behind it, unless it is empty. -/
theorem rawLines_of_splitOn {cs line : List Char} {before : List (List Char)} (hne : line ≠ [])
    (h : Text.splitOn '\n' cs = before ++ [line]) : Text.rawLines cs = before ++ [line] := by
  unfold Text.rawLines
  rw [h]
  dsimp only
  rw [List.getLast?_concat]
  split
  · rename_i hlast
    exact absurd (Option.some.inj hlast) hne
  · rfl

theorem rawLines_singleton {line : List Char} (hne : line ≠ []) (hline : '\n' ∉ line) :
    Text.rawLines line = [line] := by
  have hsplit : Text.splitOn '\n' line = [] ++ [line] := by
    rw [splitOn_eq, List.splitOn_eq_singleton hline]
    rfl
  exact rawLines_of_splitOn hne hsplit

/-- A text that starts and ends with something else than a blank has nothing to trim. -/
theorem trim_eq_self {cs : List Char} (hhead : ∀ c ∈ cs.head?, Text.isBlank c = false)
    (hlast : ∀ c ∈ cs.getLast?, Text.isBlank c = false) : Text.trim cs = cs := by
  have hdrop {ds : List Char} (h : ∀ c ∈ ds.head?, Text.isBlank c = false) :
      ds.dropWhile Text.isBlank = ds := by
    cases ds with
    | nil => rfl
    | cons d ds => rw [List.dropWhile_cons_of_neg (by rw [h d rfl]; exact Bool.false_ne_true)]
  unfold Text.trim
  rw [hdrop hhead, hdrop (by rw [List.head?_reverse]; exact hlast), List.reverse_reverse]

theorem byteCount_eq_length {cs : List Char} (h : ∀ c ∈ cs, c.utf8Size = 1) :
    Text.byteCount cs = cs.length := by
  have hfold (n : Nat) : cs.foldl (fun n c => n + c.utf8Size) n = n + cs.length := by
    induction cs generalizing n with
    | nil => rfl
    | cons c cs ih =>
      rw [List.foldl_cons, h c List.mem_cons_self, List.length_cons,
        ih fun d hd => h d (List.mem_cons_of_mem _ hd)]
      omega
  exact (hfold 0).trans (Nat.zero_add _)

theorem charLiteral?_of_ne {c : Char} (hc : c ≠ '\'') (cs : List Char) :
    charLiteral? (c :: cs) = none := by
  unfold charLiteral?
  split
  · rename_i heq
    exact absurd (List.cons.inj heq).1 hc
  · rename_i heq
    exact absurd (List.cons.inj heq).1 hc
  · rfl

/-- What stands before the first quote is kept. -/
theorem replaceChars_append {front : List Char} (h : '\'' ∉ front) (cs acc : List Char) :
    replaceChars 0 (front ++ cs) acc = replaceChars 0 cs (front.reverse ++ acc) := by
  induction front generalizing acc with
  | nil => rfl
  | cons c front ih =>
    have hc : c ≠ '\'' := fun hc => h (hc ▸ List.mem_cons_self)
    rw [List.cons_append, replaceChars, charLiteral?_of_ne hc]
    dsimp only
    rw [ih fun hmem => h (List.mem_cons_of_mem _ hmem), List.reverse_cons, List.append_assoc]
    rfl

theorem replaceChars_eq_self {cs : List Char} (h : '\'' ∉ cs) (acc : List Char) :
    replaceChars 0 cs acc = acc.reverse ++ cs := by
  have happend := replaceChars_append h [] acc
  rw [List.append_nil] at happend
  rw [happend, replaceChars, List.reverse_append, List.reverse_reverse]

theorem expression?_of_ne {c : Char} (hc : c ≠ '$') (cs : List Char) :
    expression? (c :: cs) = none := by
  unfold expression?
  split
  · rename_i heq
    exact absurd (List.cons.inj heq).1 hc
  · rfl

/-- What stands before the first dollar sign is kept. -/
theorem replaceExpressions_append (value : List Char → Except AsmError UInt32) {front : List Char}
    (h : '$' ∉ front) (cs acc : List Char) :
    replaceExpressions value 0 (front ++ cs) acc none =
      replaceExpressions value 0 cs (front.reverse ++ acc) none := by
  induction front generalizing acc with
  | nil => rfl
  | cons c front ih =>
    have hc : c ≠ '$' := fun hc => h (hc ▸ List.mem_cons_self)
    rw [List.cons_append, replaceExpressions, expression?_of_ne hc]
    dsimp only
    rw [ih fun hmem => h (List.mem_cons_of_mem _ hmem), List.reverse_cons, List.append_assoc]
    rfl

theorem replaceExpressions_eq_self (value : List Char → Except AsmError UInt32) {cs : List Char}
    (h : '$' ∉ cs) (acc : List Char) :
    replaceExpressions value 0 cs acc none = .ok (acc.reverse ++ cs) := by
  have happend := replaceExpressions_append value h [] acc
  rw [List.append_nil] at happend
  rw [happend, replaceExpressions, List.reverse_append, List.reverse_reverse]

/-! ## Reading a line -/

section Reading

variable {parts : List String} (hplain : ∀ part ∈ parts, Plain part)

include hplain

theorem words_text (hsome : parts ≠ []) :
    (Text.words (" ".intercalate parts).toList).map String.ofList = parts := by
  have hspace : ∀ cs ∈ parts.map String.toList, ' ' ∉ cs := by
    intro cs hcs
    obtain ⟨part, hpart, rfl⟩ := List.mem_map.mp hcs
    exact (hplain part hpart).not_mem (by decide)
  have hkept : ∀ cs ∈ parts.map String.toList, decide (cs ≠ []) = true := by
    intro cs hcs
    obtain ⟨part, hpart, rfl⟩ := List.mem_map.mp hcs
    exact decide_eq_true (hplain part hpart).nonempty
  have hjoined : (" ".intercalate parts).toList = [' '].intercalate (parts.map String.toList) :=
    String.toList_intercalate
  unfold Text.words
  rw [splitOn_eq, hjoined, List.splitOn_intercalate ' ' hspace (by simpa using hsome),
    List.filter_eq_self.mpr hkept, List.map_map]
  simp [Function.comp_def]

theorem wordsOf_text [Interpreter] (hsome : parts ≠ []) (equates : Table String) :
    wordsOf equates (" ".intercalate parts) = .ok parts := by
  unfold wordsOf
  rw [replaceChars_eq_self (not_mem_text hplain (by decide) (by decide)),
    replaceExpressions_eq_self _ (by
      rw [List.reverse_nil, List.nil_append]
      exact not_mem_text hplain (by decide) (by decide))]
  dsimp only
  rw [List.reverse_nil, List.nil_append, List.nil_append, words_text hplain hsome]

theorem stripped_text : stripped (" ".intercalate parts).toList = " ".intercalate parts := by
  have hcomment : Text.before ';' (" ".intercalate parts).toList =
      (" ".intercalate parts).toList := by
    refine List.takeWhile_eq_self_iff.mpr fun c hc => decide_eq_true ?_
    rintro rfl
    exact not_mem_text hplain (by decide) (by decide) hc
  obtain ⟨hhead, hlast⟩ := ends_text hplain
  unfold stripped
  rw [hcomment, trim_eq_self (fun c hc => isBlank_of_isPlain (hhead c hc))
    (fun c hc => isBlank_of_isPlain (hlast c hc)), String.ofList_toList]

/-- A few plain words are one line of a source. -/
theorem readLines_text (hsome : parts ≠ []) (hfew : parts.length ≤ 4) :
    Text.readLines (" ".intercalate parts).toList = [(" ".intercalate parts).toList] := by
  have hne := text_ne_nil hplain hsome
  have hraw : Text.rawLines (" ".intercalate parts).toList = [(" ".intercalate parts).toList] :=
    rawLines_singleton hne (not_mem_text hplain (by decide) (by decide))
  have hlimit : Text.byteCount (" ".intercalate parts).toList ≤ Text.lineLimit := by
    have hlength := length_text hplain
    rw [byteCount_eq_length]
    · unfold Text.lineLimit
      omega
    · intro c hc
      rcases mem_text hplain hc with rfl | hc
      · rfl
      · exact utf8Size_of_isPlain hc
  have hreturn : Text.dropReturn (" ".intercalate parts).toList =
      (" ".intercalate parts).toList := by
    unfold Text.dropReturn
    split
    · rename_i hlast
      cases (ends_text hplain).2 _ hlast
    · rfl
  unfold Text.readLines
  rw [hraw, List.takeWhile_cons, if_pos (decide_eq_true hlimit), List.takeWhile_nil, List.map_cons,
    hreturn, List.map_nil]

end Reading

/-- A plain word is none of the equates that every source has, whatever the current line is. -/
theorem find?_standardEquates {word : String} (h : Plain word) (value : String) :
    (standardEquates.insert lineEquate value).find? word = none := by
  have hentries : (standardEquates.insert lineEquate value).entries =
      [("INSTRUCTION_SIZE", "4"), (lineEquate, value)] := rfl
  have hcapital : isPlain 'I' = false := by decide
  unfold Table.find?
  rw [hentries, List.lookup_eq_none_iff]
  intro entry hentry
  rcases List.mem_pair.mp hentry with rfl | rfl
  · have hmem : 'I' ∈ "INSTRUCTION_SIZE".toList := by decide
    exact bne_iff_ne.mpr (h.ne hcapital hmem)
  · have hmem : 'I' ∈ lineEquate.toList := by decide
    exact bne_iff_ne.mpr (h.ne hcapital hmem)

theorem definedLabel?_plain {word : String} (h : Plain word) : definedLabel? word = none := by
  unfold definedLabel?
  split
  · rename_i hlast
    exact absurd (List.mem_of_getLast? hlast) (h.not_mem (by decide))
  · rfl

theorem assembleWords_of_ok {number : Nat} {head : String} {operands : List String}
    {s t : Assembly} {line : Line}
    (h : lineOf { number, pc := endOffset s.lines, words := head :: operands } head operands s =
      .ok line t) :
    assembleWords number (head :: operands) s = .ok () { t with lines := t.lines.push line } := by
  rw [assembleWords, bind_of_ok (currentPc_apply s), bind_of_ok h]
  rfl

theorem assembleWords_of_error {number : Nat} {head : String} {operands : List String}
    {s t : Assembly} {e : AsmError}
    (h : lineOf { number, pc := endOffset s.lines, words := head :: operands } head operands s =
      .error e t) :
    assembleWords number (head :: operands) s = .error e t := by
  rw [assembleWords, bind_of_ok (currentPc_apply s), bind_of_error h]

/-- The assembly in which the words of a line are assembled, when the source has defined nothing
before it. -/
def reached (s : Assembly) (number : Nat) : Assembly :=
  { s with equates := standardEquates.insert lineEquate (Numeral.decimalNat number) }

/-- The assembly in which the one line of a source is assembled. -/
def opened (a : Assembler) (text : String) : Assembly :=
  reached { a.start with log := a.start.log.note fun _ => "1: " ++ text } 1

theorem endOffset_opened (a : Assembler) (text : String) : endOffset (opened a text).lines = 0 :=
  rfl

section Source

variable [Interpreter] {head : String} {operands : List String}
  (hplain : ∀ part ∈ head :: operands, Plain part)

include hplain

theorem readLine_text (depth number : Nat) {s : Assembly} (hequates : s.equates = standardEquates)
    (hmacros : s.macros = {}) :
    readLine depth number (" ".intercalate (head :: operands)) s =
      .ok (head :: operands) (reached s number) := by
  have hhead := hplain head List.mem_cons_self
  have hkept : substituted (reached s number).equates (head :: operands) = head :: operands := by
    refine (List.map_congr_left (g := id) fun part hpart => ?_).trans (List.map_id _)
    rw [reached, find?_standardEquates (hplain part hpart)]
    rfl
  obtain ⟨nested, hnested⟩ := exists_readLineWith depth
  have hset : setEquate lineEquate (Numeral.decimalNat number) s = .ok () (reached s number) := by
    unfold reached
    rw [← hequates]
    rfl
  rw [hnested]
  unfold readLineWith
  rw [bind_of_ok hset, get_bind_apply, wordsOf_text hplain (List.cons_ne_nil _ _)]
  dsimp only
  rw [if_neg (hhead.ne (c := '.') (by decide) (by decide)),
    if_neg (hhead.ne (c := '.') (by decide) (by decide)),
    get_bind_apply, hkept, takeLabels, definedLabel?_plain hhead]
  dsimp only
  rw [pure_bind]
  dsimp only
  rw [get_bind_apply]
  have hnone : (reached s number).macros.find? head = none := by
    rw [reached, hmacros]
    rfl
  rw [hnone]
  rfl

theorem takeLine_text (number : Nat) {s : Assembly} (hequates : s.equates = standardEquates)
    (hmacros : s.macros = {}) :
    takeLine number (" ".intercalate (head :: operands)) none s =
      (do assembleWords number (head :: operands); return none) (reached s number) := by
  have hhead := hplain head List.mem_cons_self
  have hwords := words_text hplain (List.cons_ne_nil head operands)
  have hopens (rest : List String) : head :: operands ≠ ".macro" :: rest := by
    rintro heq
    cases heq
    exact absurd hhead (by decide)
  have hcloses (rest : List String) : head :: operands ≠ ".endm" :: rest := by
    rintro heq
    cases heq
    exact absurd hhead (by decide)
  rw [← hwords] at hopens hcloses
  rw [takeLine_of_code hopens hcloses,
    bind_of_ok (readLine_text hplain macroDepthLimit number hequates hmacros)]

/-- Reading a source of a few plain words is assembling them. -/
theorem takeLines_text (hfew : operands.length ≤ 3) {a : Assembler} (ha : a.predefined = {}) :
    takeLines 1 "" none (Text.readLines (" ".intercalate (head :: operands)).toList) a.start =
      wrapping (.located 1 (" ".intercalate (head :: operands)))
        (assembleWords 1 (head :: operands)) (opened a (" ".intercalate (head :: operands))) := by
  rw [readLines_text hplain (List.cons_ne_nil _ _) (Nat.succ_le_succ hfew)]
  change (do
    note fun _ => "1: " ++ String.ofList (" ".intercalate (head :: operands)).toList
    let next ← wrapping (.located 1 (stripped (" ".intercalate (head :: operands)).toList))
      (takeLine 1 (stripped (" ".intercalate (head :: operands)).toList) none)
    takeLines 2 (stripped (" ".intercalate (head :: operands)).toList) next []) a.start = _
  rw [stripped_text hplain, String.ofList_toList]
  generalize htext : " ".intercalate (head :: operands) = text
  have hequates : a.start.equates = standardEquates := by
    unfold Assembler.start
    rw [ha]
    rfl
  have hline := takeLine_text hplain 1
    (s := { a.start with log := a.start.log.note fun _ => "1: " ++ text }) hequates rfl
  rw [htext, ← opened] at hline
  rw [bind_of_ok (show note _ a.start = .ok () { a.start with log := _ } from rfl)]
  cases hwork : assembleWords 1 (head :: operands) (opened a text) with
  | ok u t =>
    rw [bind_of_ok hwork] at hline
    rw [bind_of_ok (wrapping_of_ok hline), wrapping_of_ok hwork]
    rfl
  | error e t =>
    rw [bind_of_error hwork] at hline
    rw [bind_of_error (wrapping_of_error hline), wrapping_of_error hwork]

/-- Where the words of the line cannot be assembled, that is what is said of the source. -/
theorem parse_of_error (hfew : operands.length ≤ 3) {a : Assembler} (ha : a.predefined = {})
    {e : AsmError} {t : Assembly}
    (h : lineOf { number := 1, pc := 0, words := head :: operands } head operands
      (opened a (" ".intercalate (head :: operands))) = .error e t) :
    (a.parse (" ".intercalate (head :: operands))).2 =
      .error (.located 1 (" ".intercalate (head :: operands)) e) := by
  have hread := takeLines_text hplain hfew ha
  rw [← endOffset_opened a (" ".intercalate (head :: operands))] at h
  rw [wrapping_of_error (assembleWords_of_error h)] at hread
  unfold Assembler.parse source
  rw [bind_of_error hread]

/-- Where they are assembled to a line that waits for no label, the program is that line. -/
theorem parse_of_ok (hfew : operands.length ≤ 3) {a : Assembler} (ha : a.predefined = {})
    {line : Line} {t : Assembly}
    (h : lineOf { number := 1, pc := 0, words := head :: operands } head operands
      (opened a (" ".intercalate (head :: operands))) = .ok line t) (htarget : line.target = none) :
    ∃ p, (a.parse (" ".intercalate (head :: operands))).2 = .ok p ∧ p.image = line.codes := by
  have hread := takeLines_text hplain hfew ha
  rw [← endOffset_opened a (" ".intercalate (head :: operands))] at h
  rw [wrapping_of_ok (assembleWords_of_ok h)] at hread
  have hlines : t.lines = #[] := (lineOf_quiet _ _ _ _ _ _ h).lines
  have hresolve : resolve line { t with lines := t.lines.push line } =
      .ok line { t with lines := t.lines.push line } := by
    unfold resolve
    rw [htarget]
    rfl
  have hall : resolveAll 0 (t.lines.push line).toList { t with lines := t.lines.push line } =
      .ok () { t with lines := #[line] } := by
    rw [hlines] at hresolve ⊢
    change (wrapping _ (resolve line) >>= _) _ = _
    rw [bind_of_ok (wrapping_of_ok hresolve)]
    rfl
  refine ⟨_, by rw [parse_of_read hread, hall], ?_⟩
  unfold Program.image Program.codes
  simp [map_snd_addressed]

end Source

end TaskMachine.PlainText
