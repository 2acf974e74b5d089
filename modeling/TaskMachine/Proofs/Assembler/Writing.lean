import TaskMachine.Proofs.Assembler.CodeLines

/-!
# Arguments written into a line

A line is cut into words where it has spaces, after the characters in quotes
have been replaced in it. A word without quotes comes through that as it is, even
where quotes stand around it, and so does any other word in its place. So writing
arguments into the line in the place of parameters replaces them in its words.
-/

namespace TaskMachine.Writing

open Rewriting CodeLines PlainText

/-! ## Quoted characters -/

/-- A text with its quoted characters replaced. -/
def unquoted (cs : List Char) : List Char := replaceChars 0 cs []

theorem unquoted_append {front : List Char} (h : '\'' ∉ front) (cs : List Char) :
    unquoted (front ++ cs) = front ++ unquoted cs := by
  unfold unquoted
  rw [replaceChars_append h, replaceChars_acc, List.append_nil, List.reverse_reverse]

theorem unquoted_space (cs : List Char) : unquoted (' ' :: cs) = ' ' :: unquoted cs :=
  unquoted_append (show '\'' ∉ [' '] by decide) cs

theorem replaceChars_skip (skip : Nat) (cs acc : List Char) :
    replaceChars skip cs acc = replaceChars 0 (cs.drop skip) acc := by
  induction cs generalizing skip with
  | nil => rw [replaceChars, List.drop_nil, replaceChars]
  | cons c cs ih =>
    cases skip with
    | zero => rfl
    | succ k =>
      rw [replaceChars, List.drop_succ_cons]
      exact ih k

/-- What stands in the place of a literal, which is kept if it has no code. -/
def replacement (literal : List Char) : Option Nat → List Char
  | some code => Nat.toDigits 10 code
  | none => literal

theorem unquoted_literal {c : Char} {cs : List Char} {code : Option Nat} {n : Nat}
    (h : charLiteral? (c :: cs) = some (code, n + 1)) :
    unquoted (c :: cs) = replacement (c :: cs.take n) code ++ unquoted (cs.drop n) := by
  unfold unquoted
  rw [replaceChars, h]
  cases code
  all_goals
    dsimp only
    rw [replaceChars_acc, replaceChars_skip, List.append_nil, List.reverse_reverse]
    rfl

theorem unquoted_of_none {c : Char} {cs : List Char} (h : charLiteral? (c :: cs) = none) :
    unquoted (c :: cs) = c :: unquoted cs := by
  unfold unquoted
  rw [replaceChars, h]
  exact replaceChars_acc 0 cs [c]

theorem charLiteral?_eq (c₁ c₂ : Char) (cs : List Char) :
    charLiteral? ('\'' :: c₁ :: c₂ :: cs) =
      if c₂ = '\'' then if c₁ = '\'' then none else some (plainCode? c₁, 3)
      else if c₁ = '\\' ∧ cs.head? = some '\'' then some (escapeCode? c₂, 4) else none := by
  unfold charLiteral?
  split
  · rename_i heq
    simp only [List.cons.injEq, true_and] at heq
    obtain ⟨rfl, rfl, rfl⟩ := heq
    by_cases h : c₂ = '\''
    · subst h
      rfl
    · rw [if_neg h, if_neg h]
      rfl
  · rename_i heq
    simp only [List.cons.injEq, true_and] at heq
    obtain ⟨rfl, rfl, rfl⟩ := heq
    rfl
  · rename_i hescape hplain
    rw [if_neg fun h => hplain c₁ cs (by rw [h]), if_neg]
    rintro ⟨rfl, h⟩
    obtain ⟨tail, rfl⟩ := List.head?_eq_some_iff.mp h
    exact hescape c₂ tail rfl

theorem charLiteral?_short (c : Char) : charLiteral? ['\'', c] = none := by
  unfold charLiteral?
  split <;> simp_all

theorem charLiteral?_space (cs : List Char) :
    charLiteral? ('\'' :: ' ' :: cs) =
      if cs.head? = some '\'' then some (some 32, 3) else none := by
  cases cs with
  | nil => rfl
  | cons c cs =>
    rw [charLiteral?_eq, List.head?_cons]
    by_cases hc : c = '\''
    · subst hc
      rfl
    · rw [if_neg hc, if_neg fun h => absurd h.1 (by decide), if_neg fun h => hc (Option.some.inj h)]

/-! ## Parts of a line -/

/-- The word has no spaces or quotes in it, and none of the marks around an expression. -/
def IsBare (word : String) : Prop := word ≠ "" ∧ ∀ c ∈ [' ', '\'', '$', ')'], c ∉ word.toList

instance (word : String) : Decidable (IsBare word) :=
  have : Decidable (∀ c ∈ [' ', '\'', '$', ')'], c ∉ word.toList) := List.decidableBAll _ _
  inferInstanceAs (Decidable (_ ∧ _))

/-- Parameters and arguments are words. -/
def AreWords (arguments : List (String × String)) : Prop :=
  ∀ entry ∈ arguments, IsBare entry.1 ∧ IsBare entry.2

instance (arguments : List (String × String)) : Decidable (AreWords arguments) :=
  inferInstanceAs (Decidable (∀ _ ∈ arguments, _))

/-- A part of a line, or the argument if it is a parameter. -/
def writtenPart (arguments : List (String × String)) (part : List Char) : List Char :=
  (((Table.ofList arguments).find? (String.ofList part)).map String.toList).getD part

/-- The line with every word that is a parameter replaced by its argument, where it stands. -/
def written (arguments : List (String × String)) (line : String) : List Char :=
  [' '].intercalate ((Text.splitOn ' ' line.toList).map (writtenPart arguments))

/-- Texts behind a space each. -/
def spaced (parts : List (List Char)) : List Char := parts.flatMap (' ' :: ·)

theorem spaced_cons (part : List Char) (parts : List (List Char)) :
    spaced (part :: parts) = ' ' :: (part ++ spaced parts) :=
  rfl

theorem length_spaced_cons (part : List Char) (parts : List (List Char)) :
    (spaced (part :: parts)).length = part.length + (spaced parts).length + 1 := by
  rw [spaced_cons, List.length_cons, List.length_append]

theorem head?_append_spaced (part : List Char) (parts : List (List Char)) :
    (part ++ spaced parts).head? = some '\'' ↔ part.head? = some '\'' := by
  cases part with
  | cons c part => exact Iff.rfl
  | nil =>
    cases parts with
    | nil => exact Iff.rfl
    | cons next parts => exact iff_of_false (fun h => absurd (Option.some.inj h) (by decide)) nofun

theorem ofList_writtenPart (arguments : List (String × String)) (part : List Char) :
    String.ofList (writtenPart arguments part) =
      ((Table.ofList arguments).find? (String.ofList part)).getD (String.ofList part) := by
  unfold writtenPart
  cases (Table.ofList arguments).find? (String.ofList part) with
  | none => rfl
  | some arg => exact String.ofList_toList

/-- A part that is changed is a parameter. -/
theorem writtenPart_cases (arguments : List (String × String)) (part : List Char) :
    writtenPart arguments part = part ∨
      ∃ entry ∈ arguments, part = entry.1.toList ∧ writtenPart arguments part = entry.2.toList := by
  unfold writtenPart
  cases harg : (Table.ofList arguments).find? (String.ofList part) with
  | none => exact .inl rfl
  | some arg => exact .inr ⟨_, mem_of_find?_ofList harg, String.toList_ofList.symm, rfl⟩

section Written

variable {arguments : List (String × String)} (h : AreWords arguments)

include h

theorem writtenPart_ne_nil (part : List Char) : writtenPart arguments part ≠ [] ↔ part ≠ [] := by
  rcases writtenPart_cases arguments part with hsame | ⟨entry, hentry, hpart, harg⟩
  · rw [hsame]
  · rw [harg, hpart]
    refine iff_of_true (fun hnil => ?_) fun hnil => ?_
    · exact (h entry hentry).2.1 (String.toList_eq_nil_iff.mp hnil)
    · exact (h entry hentry).1.1 (String.toList_eq_nil_iff.mp hnil)

/-- No marks come into a line with the arguments. -/
theorem not_mem_writtenPart {c : Char} (hc : c ∈ [' ', '\'', '$', ')']) {part : List Char}
    (hpart : c ∉ part) : c ∉ writtenPart arguments part := by
  rcases writtenPart_cases arguments part with hsame | ⟨entry, hentry, -, harg⟩
  · rwa [hsame]
  · rw [harg]
    exact (h entry hentry).2.2 c hc

theorem writtenPart_of_quote {part : List Char} (hpart : '\'' ∈ part) :
    writtenPart arguments part = part := by
  rcases writtenPart_cases arguments part with hsame | ⟨entry, hentry, rfl, -⟩
  · exact hsame
  · exact absurd hpart ((h entry hentry).1.2 '\'' (by decide))

theorem head?_writtenPart (part : List Char) :
    (writtenPart arguments part).head? = some '\'' ↔ part.head? = some '\'' := by
  by_cases hquote : '\'' ∈ part
  · rw [writtenPart_of_quote h hquote]
  · refine iff_of_false (fun hhead => ?_) fun hhead => hquote (List.mem_of_head? hhead)
    exact not_mem_writtenPart h (by decide) hquote (List.mem_of_head? hhead)

/-- A literal ends in the part that it begins in, or holds one space and ends right behind it. The
same literal is there when arguments are written into the parts behind. -/
theorem literal_cases (part : List Char) (parts : List (List Char)) :
    (charLiteral? ('\'' :: (part ++ spaced parts)) = none ∧
      charLiteral? ('\'' :: (part ++ spaced (parts.map (writtenPart arguments)))) = none) ∨
    (∃ code n, n ≤ part.length ∧
      charLiteral? ('\'' :: (part ++ spaced parts)) = some (code, n + 1) ∧
      charLiteral? ('\'' :: (part ++ spaced (parts.map (writtenPart arguments)))) =
        some (code, n + 1)) ∨
    ∃ next rest, parts = ('\'' :: next) :: rest ∧ (part = [] ∨ part = ['\\']) := by
  match part, parts with
  | [], [] => exact .inl ⟨rfl, rfl⟩
  | [c], [] => exact .inl ⟨charLiteral?_short c, charLiteral?_short c⟩
  | [], next :: rest =>
    by_cases hnext : next.head? = some '\''
    · obtain ⟨next, rfl⟩ := List.head?_eq_some_iff.mp hnext
      exact .inr (.inr ⟨next, rest, rfl, .inl rfl⟩)
    · simp only [List.map_cons, spaced_cons, List.nil_append, charLiteral?_space,
        head?_append_spaced, head?_writtenPart h]
      exact .inl ⟨if_neg hnext, if_neg hnext⟩
  | [c], next :: rest =>
    have hspace (cs : List Char) : charLiteral? ('\'' :: c :: ' ' :: cs) =
        if c = '\\' ∧ cs.head? = some '\'' then some (none, 4) else none :=
      charLiteral?_eq c ' ' cs
    by_cases hnext : c = '\\' ∧ next.head? = some '\''
    · obtain ⟨rfl, hnext⟩ := hnext
      obtain ⟨next, rfl⟩ := List.head?_eq_some_iff.mp hnext
      exact .inr (.inr ⟨next, rest, rfl, .inr rfl⟩)
    · simp only [List.map_cons, spaced_cons, List.singleton_append, hspace, head?_append_spaced,
        head?_writtenPart h]
      exact .inl ⟨if_neg hnext, if_neg hnext⟩
  | c₁ :: c₂ :: part, parts =>
    simp only [List.cons_append, charLiteral?_eq, head?_append_spaced]
    split
    · split
      · exact .inl ⟨rfl, rfl⟩
      · exact .inr (.inl ⟨_, 2, by simp, rfl, rfl⟩)
    · split
      · rename_i hescape
        obtain ⟨part, rfl⟩ := List.head?_eq_some_iff.mp hescape.2
        exact .inr (.inl ⟨_, 3, by simp, rfl, rfl⟩)
      · exact .inl ⟨rfl, rfl⟩

end Written

/-! ## Pieces of a line -/

/-- A piece with arguments written into it, if it comes from a part without quotes. -/
def writtenPiece (arguments : List (String × String)) : Bool × List Char → List Char
  | (true, piece) => writtenPart arguments piece
  | (false, piece) => piece

/-- What a part of a line and the parts behind it become when quoted characters are replaced, with
and without arguments written into the parts behind. The pieces are marked as to whether they are
parts without quotes, which stay as they are. -/
structure Pieces (arguments : List (String × String)) (part : List Char)
    (parts : List (List Char)) (head : List Char) (pieces : List (Bool × List Char)) : Prop where
  text : unquoted (part ++ spaced parts) = head ++ spaced (pieces.map Prod.snd)
  written : unquoted (part ++ spaced (parts.map (writtenPart arguments))) =
    head ++ spaced (pieces.map (writtenPiece arguments))
  kept : (pieces.filter Prod.fst).map Prod.snd = parts.filter ('\'' ∉ ·)
  start : part = [] → head = []
  space : ' ' ∉ head ∧ ∀ piece ∈ pieces, ' ' ∉ piece.2

namespace Pieces

variable {arguments : List (String × String)} {part head : List Char} {parts : List (List Char)}
  {pieces : List (Bool × List Char)}

theorem nil : Pieces arguments [] [] [] [] where
  text := rfl
  written := rfl
  kept := rfl
  start _ := rfl
  space := ⟨nofun, nofun⟩

theorem filter_of_quote {next : List Char} (hquote : '\'' ∈ next) (parts : List (List Char)) :
    (next :: parts).filter ('\'' ∉ ·) = parts.filter ('\'' ∉ ·) := by
  rw [List.filter_cons, if_neg]
  exact fun hkept => of_decide_eq_true hkept hquote

/-- The next part has no quotes. -/
theorem plain (h : AreWords arguments) {next : List Char} (hquote : '\'' ∉ next)
    (hspace : ' ' ∉ next) (hrest : Pieces arguments [] parts head pieces) :
    Pieces arguments [] (next :: parts) [] ((true, next) :: pieces) where
  text := by
    have htext := hrest.text
    rw [hrest.start rfl, List.nil_append, List.nil_append] at htext
    rw [spaced_cons, List.nil_append, unquoted_space, unquoted_append hquote, htext]
    rfl
  written := by
    have hwritten := hrest.written
    rw [hrest.start rfl, List.nil_append, List.nil_append] at hwritten
    rw [List.map_cons, spaced_cons, List.nil_append, unquoted_space,
      unquoted_append (not_mem_writtenPart h (by decide) hquote), hwritten]
    rfl
  kept := by
    rw [List.filter_cons, if_pos rfl, List.map_cons, hrest.kept, List.filter_cons,
      if_pos (decide_eq_true hquote)]
  start _ := rfl
  space := ⟨nofun, List.forall_mem_cons.mpr ⟨hspace, hrest.space.2⟩⟩

/-- The next part has quotes, so that it is no parameter. -/
theorem quoted (h : AreWords arguments) {next : List Char} (hquote : '\'' ∈ next)
    (hrest : Pieces arguments next parts head pieces) :
    Pieces arguments [] (next :: parts) [] ((false, head) :: pieces) where
  text := by
    rw [spaced_cons, List.nil_append, unquoted_space, hrest.text]
    rfl
  written := by
    rw [List.map_cons, spaced_cons, List.nil_append, unquoted_space, writtenPart_of_quote h hquote,
      hrest.written]
    rfl
  kept := by
    rw [List.filter_cons, if_neg Bool.false_ne_true, hrest.kept, filter_of_quote hquote]
  start _ := rfl
  space := ⟨nofun, List.forall_mem_cons.mpr hrest.space⟩

/-- A character that begins no literal. -/
theorem char {c : Char} (hc : c ≠ ' ')
    (hliteral : charLiteral? (c :: (part ++ spaced parts)) = none)
    (hwritten : charLiteral? (c :: (part ++ spaced (parts.map (writtenPart arguments)))) = none)
    (hrest : Pieces arguments part parts head pieces) :
    Pieces arguments (c :: part) parts (c :: head) pieces where
  text := by
    rw [List.cons_append, unquoted_of_none hliteral, hrest.text]
    rfl
  written := by
    rw [List.cons_append, unquoted_of_none hwritten, hrest.written]
    rfl
  kept := hrest.kept
  start := nofun
  space := ⟨List.not_mem_cons_of_ne_of_not_mem hc.symm hrest.space.1, hrest.space.2⟩

theorem space_not_mem_replacement {literal : List Char} (hspace : ' ' ∉ literal)
    (code : Option Nat) : ' ' ∉ replacement literal code := by
  cases code with
  | none => exact hspace
  | some code =>
    intro hmem
    have hdigit := Nat.isDigit_of_mem_toDigits (by decide) (by decide) hmem
    exact absurd hdigit (by decide)

/-- A literal within the part. -/
theorem literal {c : Char} {code : Option Nat} {n : Nat} (hn : n ≤ part.length)
    (hspace : ' ' ∉ c :: part)
    (hliteral : charLiteral? (c :: (part ++ spaced parts)) = some (code, n + 1))
    (hwritten : charLiteral? (c :: (part ++ spaced (parts.map (writtenPart arguments)))) =
      some (code, n + 1))
    (hrest : Pieces arguments (part.drop n) parts head pieces) :
    Pieces arguments (c :: part) parts (replacement (c :: part.take n) code ++ head) pieces where
  text := by
    rw [List.cons_append, unquoted_literal hliteral, List.take_append_of_le_length hn,
      List.drop_append_of_le_length hn, hrest.text, List.append_assoc]
  written := by
    rw [List.cons_append, unquoted_literal hwritten, List.take_append_of_le_length hn,
      List.drop_append_of_le_length hn, hrest.written, List.append_assoc]
  kept := hrest.kept
  start := nofun
  space := by
    refine ⟨fun hmem => ?_, hrest.space.2⟩
    rcases List.mem_append.mp hmem with hmem | hmem
    · have hprefix : ' ' ∉ c :: part.take n := fun hmem =>
        hspace ((List.cons_subset_cons c (List.take_subset n part)) hmem)
      exact space_not_mem_replacement hprefix code hmem
    · exact hrest.space.1 hmem

theorem unquoted_quoted_space (cs : List Char) :
    unquoted ('\'' :: ' ' :: '\'' :: cs) = Nat.toDigits 10 32 ++ unquoted cs :=
  unquoted_literal (show charLiteral? _ = some (some 32, 2 + 1) from rfl)

theorem unquoted_escaped_space (cs : List Char) :
    unquoted ('\'' :: '\\' :: ' ' :: '\'' :: cs) =
      ['\'', '\\'] ++ ' ' :: '\'' :: unquoted cs :=
  unquoted_literal (show charLiteral? _ = some (none, 3 + 1) from rfl)

/-- A space in quotes is replaced by its code, and two parts become one. -/
theorem joined (h : AreWords arguments) (hrest : Pieces arguments part parts head pieces) :
    Pieces arguments ['\''] (('\'' :: part) :: parts) (Nat.toDigits 10 32 ++ head) pieces where
  text := by
    rw [spaced_cons, List.singleton_append, List.cons_append, unquoted_quoted_space, hrest.text,
      List.append_assoc]
  written := by
    rw [List.map_cons, writtenPart_of_quote h List.mem_cons_self, spaced_cons,
      List.singleton_append, List.cons_append, unquoted_quoted_space, hrest.written,
      List.append_assoc]
  kept := hrest.kept.trans (filter_of_quote List.mem_cons_self parts).symm
  start := nofun
  space := by
    refine ⟨fun hmem => ?_, hrest.space.2⟩
    rcases List.mem_append.mp hmem with hmem | hmem
    · exact absurd hmem (by decide)
    · exact hrest.space.1 hmem

/-- A space behind a backslash in quotes has no code and is kept. -/
theorem escaped (h : AreWords arguments) (hrest : Pieces arguments part parts head pieces) :
    Pieces arguments ['\'', '\\'] (('\'' :: part) :: parts) ['\'', '\\']
      ((false, '\'' :: head) :: pieces) where
  text := by
    rw [spaced_cons, List.cons_append, List.singleton_append, List.cons_append,
      unquoted_escaped_space, hrest.text]
    rfl
  written := by
    rw [List.map_cons, writtenPart_of_quote h List.mem_cons_self, spaced_cons, List.cons_append,
      List.singleton_append, List.cons_append, unquoted_escaped_space, hrest.written]
    rfl
  kept := by
    rw [List.filter_cons, if_neg Bool.false_ne_true, hrest.kept,
      filter_of_quote List.mem_cons_self]
  start := nofun
  space := by
    refine ⟨by decide, List.forall_mem_cons.mpr ⟨?_, hrest.space.2⟩⟩
    exact List.not_mem_cons_of_ne_of_not_mem (by decide) hrest.space.1

end Pieces

/-- The pieces of a line, by induction on its length. -/
theorem exists_pieces {arguments : List (String × String)} (h : AreWords arguments)
    (part : List Char) (parts : List (List Char)) (hpart : ' ' ∉ part)
    (hparts : ∀ next ∈ parts, ' ' ∉ next) :
    ∃ head pieces, Pieces arguments part parts head pieces := by
  induction hn : part.length + (spaced parts).length using Nat.strong_induction_on
    generalizing part parts with
  | h n ih =>
    have hshorter (part' : List Char) (parts' : List (List Char))
        (hlt : part'.length + (spaced parts').length < part.length + (spaced parts).length) :
        ' ' ∉ part' → (∀ next ∈ parts', ' ' ∉ next) →
          ∃ head pieces, Pieces arguments part' parts' head pieces :=
      fun hpart' hparts' => ih _ (hn ▸ hlt) part' parts' hpart' hparts' rfl
    cases part with
    | nil =>
      cases parts with
      | nil => exact ⟨[], [], .nil⟩
      | cons next parts =>
        obtain ⟨hnext, hparts⟩ := List.forall_mem_cons.mp hparts
        rw [length_spaced_cons, List.length_nil] at hshorter
        by_cases hquote : '\'' ∈ next
        · obtain ⟨head, pieces, hrest⟩ := hshorter next parts (by omega) hnext hparts
          exact ⟨[], _, hrest.quoted h hquote⟩
        · obtain ⟨head, pieces, hrest⟩ := hshorter [] parts (by rw [List.length_nil]; omega)
            nofun hparts
          exact ⟨[], _, hrest.plain h hquote hnext⟩
    | cons c part =>
      have hc : c ≠ ' ' := fun hc => hpart (hc ▸ List.mem_cons_self)
      have hbehind : ' ' ∉ part := fun hmem => hpart (List.mem_cons_of_mem c hmem)
      rw [List.length_cons] at hshorter
      by_cases hquote : c = '\''
      · subst hquote
        rcases literal_cases h part parts with ⟨hliteral, hwritten⟩ |
          ⟨code, k, hk, hliteral, hwritten⟩ | ⟨next, rest, rfl, hfirst⟩
        · obtain ⟨head, pieces, hrest⟩ := hshorter part parts (by omega) hbehind hparts
          exact ⟨_, pieces, hrest.char hc hliteral hwritten⟩
        · obtain ⟨head, pieces, hrest⟩ := hshorter (part.drop k) parts
            (by rw [List.length_drop]; omega) (fun hmem => hbehind (List.mem_of_mem_drop hmem))
            hparts
          exact ⟨_, pieces, hrest.literal hk hpart hliteral hwritten⟩
        · obtain ⟨hnext, hparts⟩ := List.forall_mem_cons.mp hparts
          rw [length_spaced_cons, List.length_cons] at hshorter
          obtain ⟨head, pieces, hrest⟩ := hshorter next rest (by omega)
            (fun hmem => hnext (List.mem_cons_of_mem _ hmem)) hparts
          rcases hfirst with rfl | rfl
          · exact ⟨_, pieces, hrest.joined h⟩
          · exact ⟨_, _, hrest.escaped h⟩
      · obtain ⟨head, pieces, hrest⟩ := hshorter part parts (by omega) hbehind hparts
        exact ⟨_, pieces, hrest.char hc (charLiteral?_of_ne hquote _) (charLiteral?_of_ne hquote _)⟩

theorem spaced_eq (part : List Char) (parts : List (List Char)) :
    spaced (part :: parts) = ' ' :: [' '].intercalate (part :: parts) := by
  rw [intercalate_cons]
  rfl

theorem exists_intercalate {pieces : List (List Char)} {cs : List Char}
    (h : ' ' :: cs = spaced pieces) : pieces ≠ [] ∧ cs = [' '].intercalate pieces := by
  cases pieces with
  | nil => cases h
  | cons piece pieces =>
    rw [spaced_eq] at h
    exact ⟨List.cons_ne_nil _ _, (List.cons.inj h).2⟩

/-- A line as the parts between its spaces. -/
theorem eq_spaced (line : String) : ' ' :: line.toList = spaced (Text.splitOn ' ' line.toList) := by
  obtain ⟨part, parts, hsplit⟩ := exists_splitOn line.toList
  have hjoined : [' '].intercalate (Text.splitOn ' ' line.toList) = line.toList := by
    rw [splitOn_eq]
    exact List.intercalate_splitOn ' '
  rw [hsplit] at hjoined ⊢
  rw [spaced_eq, hjoined]

theorem written_eq_spaced (arguments : List (String × String)) (line : String) :
    ' ' :: written arguments line =
      spaced ((Text.splitOn ' ' line.toList).map (writtenPart arguments)) := by
  obtain ⟨part, parts, hsplit⟩ := exists_splitOn line.toList
  rw [written, hsplit, List.map_cons, spaced_eq]

/-! ## Words -/

theorem words_intercalate {parts : List (List Char)} (hne : parts ≠ [])
    (hspace : ∀ part ∈ parts, ' ' ∉ part) :
    Text.words ([' '].intercalate parts) = parts.filter (· ≠ []) := by
  unfold Text.words
  rw [splitOn_eq, List.splitOn_intercalate ' ' hspace hne]

/-- If a piece is counted as often among those that are kept as among all, it is kept. -/
theorem kept_of_count {pieces : List (Bool × List Char)} {x : List Char}
    (h : (pieces.map Prod.snd).count x = ((pieces.filter Prod.fst).map Prod.snd).count x) :
    ∀ piece ∈ pieces, piece.2 = x → piece.1 = true := by
  let like := pieces.filter fun piece => piece.2 == x
  have hall : like.filter Prod.fst = like := by
    refine List.filter_sublist.eq_of_length ?_
    rw [List.count_eq_countP, List.count_eq_countP, List.countP_map, List.countP_map,
      List.countP_filter, List.countP_eq_length_filter, List.countP_eq_length_filter] at h
    rw [List.filter_filter]
    refine (h.trans (congrArg _ (List.filter_congr fun piece _ => ?_))).symm
    exact Bool.and_comm _ _
  intro piece hpiece hx
  exact List.filter_eq_self.mp hall piece (List.mem_filter.mpr ⟨hpiece, beq_iff_eq.mpr hx⟩)

/-- The words of a line, once the quoted characters in it have been replaced. -/
def lineWords (line : String) : List String :=
  (Text.words (unquoted line.toList)).map String.ofList

/-- No parameter comes out of quoted characters. -/
def Original (arguments : List (String × String)) (line : String) : Prop :=
  ∀ entry ∈ arguments, (Text.words (unquoted line.toList)).count entry.1.toList =
    (Text.words line.toList).count entry.1.toList

instance (arguments : List (String × String)) (line : String) :
    Decidable (Original arguments line) :=
  inferInstanceAs (Decidable (∀ _ ∈ arguments, _))

namespace Pieces

variable {arguments : List (String × String)} {line : String} {head : List Char}
  {pieces : List (Bool × List Char)}
  (hpieces : Pieces arguments [] (Text.splitOn ' ' line.toList) head pieces)

include hpieces

theorem unquoted_line :
    pieces.map Prod.snd ≠ [] ∧ unquoted line.toList = [' '].intercalate (pieces.map Prod.snd) := by
  have htext := hpieces.text
  rw [hpieces.start rfl, List.nil_append, List.nil_append, ← eq_spaced, unquoted_space] at htext
  exact exists_intercalate htext

theorem unquoted_written :
    unquoted (Writing.written arguments line) =
      [' '].intercalate (pieces.map (writtenPiece arguments)) := by
  have hwritten := hpieces.written
  rw [hpieces.start rfl, List.nil_append, List.nil_append, ← written_eq_spaced, unquoted_space]
    at hwritten
  exact (exists_intercalate hwritten).2

theorem space_not_mem : ∀ piece ∈ pieces.map Prod.snd, ' ' ∉ piece := by
  intro piece hpiece
  obtain ⟨piece', hpiece', rfl⟩ := List.mem_map.mp hpiece
  exact hpieces.space.2 piece' hpiece'

/-- A parameter is counted among the words of the line, so that it is no other piece. -/
theorem writtenPiece_eq (h : AreWords arguments) (horiginal : Original arguments line) :
    ∀ piece ∈ pieces, writtenPiece arguments piece = writtenPart arguments piece.2 := by
  rintro ⟨kept, piece⟩ hmem
  cases kept with
  | true => rfl
  | false =>
    rcases writtenPart_cases arguments piece with hsame | ⟨entry, hentry, rfl, -⟩
    · exact hsame.symm
    · have hfilled (parts : List (List Char)) :
          (parts.filter (· ≠ [])).count entry.1.toList = parts.count entry.1.toList :=
        List.count_filter (decide_eq_true fun hnil =>
          (h entry hentry).1.1 (String.toList_eq_nil_iff.mp hnil))
      have hbare (parts : List (List Char)) :
          (parts.filter ('\'' ∉ ·)).count entry.1.toList = parts.count entry.1.toList :=
        List.count_filter (decide_eq_true ((h entry hentry).1.2 '\'' (by decide)))
      have hwords : Text.words line.toList = (Text.splitOn ' ' line.toList).filter (· ≠ []) := rfl
      obtain ⟨hne, hline⟩ := hpieces.unquoted_line
      have hcount := horiginal entry hentry
      rw [hline, words_intercalate hne hpieces.space_not_mem, hwords, hfilled, hfilled,
        ← hbare (Text.splitOn _ _), ← hpieces.kept] at hcount
      cases kept_of_count hcount _ hmem rfl

end Pieces

section Written

variable {arguments : List (String × String)} (h : AreWords arguments) {line : String}

include h

/-- The parts of the line with its quoted characters replaced are those of the line with arguments
written into it, up to the arguments. -/
theorem unquoted_written (horiginal : Original arguments line) :
    ∃ parts, parts ≠ [] ∧ (∀ part ∈ parts, ' ' ∉ part) ∧
      unquoted line.toList = [' '].intercalate parts ∧
      unquoted (written arguments line) =
        [' '].intercalate (parts.map (writtenPart arguments)) := by
  have hspace : ∀ part ∈ Text.splitOn ' ' line.toList, ' ' ∉ part :=
    fun part hpart => Truncation.not_mem_of_mem_splitOn hpart
  obtain ⟨head, pieces, hpieces⟩ := exists_pieces h [] _ nofun hspace
  obtain ⟨hne, hline⟩ := hpieces.unquoted_line
  refine ⟨pieces.map Prod.snd, hne, hpieces.space_not_mem, hline, ?_⟩
  rw [hpieces.unquoted_written, List.map_map]
  exact congrArg _ (List.map_congr_left (hpieces.writtenPiece_eq h horiginal))

/-- The words of the line are its words with arguments in the place of parameters. -/
theorem words_written (horiginal : Original arguments line) :
    (Text.words (unquoted (written arguments line))).map String.ofList =
      substituted (.ofList arguments) (lineWords line) := by
  obtain ⟨parts, hne, hspace, hline, hwritten⟩ := unquoted_written h horiginal
  have hspaceWritten : ∀ part ∈ parts.map (writtenPart arguments), ' ' ∉ part := by
    intro part hpart
    obtain ⟨part', hpart', rfl⟩ := List.mem_map.mp hpart
    exact not_mem_writtenPart h (by decide) (hspace part' hpart')
  unfold lineWords substituted
  rw [hline, hwritten, words_intercalate hne hspace,
    words_intercalate (by simpa using hne) hspaceWritten, List.filter_map, List.map_map,
    List.map_map]
  have hkept : ((fun part => decide (part ≠ [])) ∘ writtenPart arguments) =
      fun part : List Char => decide (part ≠ []) :=
    funext fun part => decide_eq_decide.mpr (writtenPart_ne_nil h part)
  rw [hkept]
  exact List.map_congr_left fun part _ => ofList_writtenPart arguments part

end Written

/-! ## Expressions -/

/-- The text has no expression in it. -/
def NoExpression (cs : List Char) : Prop := ∀ suffix, suffix <:+ cs → expression? suffix = none

instance (cs : List Char) : Decidable (NoExpression cs) :=
  decidable_of_iff (∀ suffix ∈ cs.tails, expression? suffix = none)
    ⟨fun h suffix hsuffix => h suffix ((List.mem_tails suffix cs).mpr hsuffix),
      fun h suffix hsuffix => h suffix ((List.mem_tails suffix cs).mp hsuffix)⟩

theorem noExpression_cons {c : Char} {cs : List Char} :
    NoExpression (c :: cs) ↔ expression? (c :: cs) = none ∧ NoExpression cs := by
  constructor
  · intro h
    exact ⟨h _ List.suffix_rfl, fun suffix hsuffix =>
      h suffix (hsuffix.trans (List.suffix_cons c cs))⟩
  · rintro ⟨hfirst, hrest⟩ suffix hsuffix
    rcases List.suffix_cons_iff.mp hsuffix with rfl | hsuffix
    · exact hfirst
    · exact hrest suffix hsuffix

theorem noExpression_append {front : List Char} (h : '$' ∉ front) {cs : List Char} :
    NoExpression (front ++ cs) ↔ NoExpression cs := by
  induction front with
  | nil => exact Iff.rfl
  | cons c front ih =>
    have hc : c ≠ '$' := fun hc => h (hc ▸ List.mem_cons_self)
    rw [List.cons_append, noExpression_cons, expression?_of_ne hc, eq_self, true_and]
    exact ih fun hmem => h (List.mem_cons_of_mem c hmem)

/-- A line without expressions comes to its words, whatever the equates are. -/
theorem readsAs_of_noExpression [Interpreter] {line : String} {words : List String}
    (h : NoExpression (unquoted line.toList)) (hwords : lineWords line = words) :
    ReadsAs line words := by
  intro equates
  rw [wordsOf_eq, ← hwords]
  unfold rewritten
  rw [show replaceChars 0 line.toList [] = unquoted line.toList from rfl,
    replaceExpressions_of_none h]
  rfl

/-- A line without expressions uses its words only. -/
theorem not_uses_of_noExpression [Interpreter] {name line : String}
    (h : NoExpression (unquoted line.toList)) (hwords : name ∉ lineWords line) :
    ¬ Renumbering.Uses name line := by
  rintro (⟨equates, words, hread, hmem⟩ | ⟨body, hbody, -⟩)
  · rw [readsAs_of_noExpression h rfl equates] at hread
    cases hread
    exact hwords hmem
  · obtain ⟨suffix, hsuffix, hexpr⟩ := List.mem_filterMap.mp hbody
    rw [h suffix ((List.mem_tails suffix _).mp hsuffix)] at hexpr
    cases hexpr

/-- A bracket closes before a further expression may begin. -/
def Closes (cs : List Char) : Prop := ')' ∈ cs.takeWhile (· ≠ '$')

instance (cs : List Char) : Decidable (Closes cs) := inferInstanceAs (Decidable (_ ∈ _))

theorem expression?_eq_none (cs : List Char) :
    expression? ('$' :: '(' :: cs) = none ↔ ¬ Closes cs := by
  have hdrop : (cs.takeWhile (· ≠ '$')).reverse.dropWhile (· ≠ ')') = [] ↔ ¬ Closes cs := by
    rw [List.dropWhile_eq_nil_iff]
    unfold Closes
    refine ⟨fun h hmem => ?_, fun h c hc => decide_eq_true ?_⟩
    · exact of_decide_eq_true (h ')' (List.mem_reverse.mpr hmem)) rfl
    · rintro rfl
      exact h (List.mem_reverse.mp hc)
  rw [← hdrop]
  change beforeLastClosing? (cs.takeWhile (· ≠ '$')) = none ↔ _
  unfold beforeLastClosing?
  split
  · rename_i hnil
    exact iff_of_true rfl hnil
  · rename_i hcons
    exact iff_of_false nofun (by rw [hcons]; exact List.cons_ne_nil _ _)

theorem expression?_of_not_open {c : Char} (hc : c ≠ '(') (cs : List Char) :
    expression? ('$' :: c :: cs) = none := by
  unfold expression?
  split
  · rename_i heq
    simp only [List.cons.injEq, true_and] at heq
    exact absurd heq.1 hc
  · rfl

theorem closes_append (cs ds : List Char) :
    Closes (cs ++ ds) ↔ Closes cs ∨ '$' ∉ cs ∧ Closes ds := by
  unfold Closes
  induction cs with
  | nil => simp
  | cons c cs ih =>
    by_cases hc : c = '$'
    · subst hc
      simp
    · have hcons (cs : List Char) :
          (c :: cs).takeWhile (· ≠ '$') = c :: cs.takeWhile (· ≠ '$') :=
        List.takeWhile_cons_of_pos (decide_eq_true hc)
      rw [List.cons_append, hcons, hcons, List.mem_cons, List.mem_cons, ih, List.mem_cons, not_or,
        or_assoc, and_iff_right (Ne.symm hc)]

section Written

variable {arguments : List (String × String)} (h : AreWords arguments)

include h

/-- Arguments bring in no bracket that closes. -/
theorem closes_of_written (front : List Char) (parts : List (List Char))
    (hcloses : Closes (front ++ spaced (parts.map (writtenPart arguments)))) :
    Closes (front ++ spaced parts) := by
  induction parts generalizing front with
  | nil => exact hcloses
  | cons part parts ih =>
    rw [List.map_cons, spaced_cons, ← List.cons_append, ← List.append_assoc] at hcloses
    rw [spaced_cons, ← List.cons_append, ← List.append_assoc]
    rcases writtenPart_cases arguments part with hsame | ⟨entry, hentry, hpart, harg⟩
    · rw [hsame] at hcloses
      exact ih _ hcloses
    · have hargument : ¬ Closes (' ' :: entry.2.toList) := fun hmem => by
        have hclosing := (List.takeWhile_prefix _).subset hmem
        rcases List.mem_cons.mp hclosing with hspace | hclosing
        · exact absurd hspace (by decide)
        · exact (h entry hentry).2.2 ')' (by decide) hclosing
      have hparameter : '$' ∉ ' ' :: part := by
        rw [hpart]
        exact List.not_mem_cons_of_ne_of_not_mem (by decide) ((h entry hentry).1.2 '$' (by decide))
      rw [harg] at hcloses
      rcases (closes_append _ _).mp hcloses with hfront | ⟨hfront, hbehind⟩
      · rcases (closes_append _ _).mp hfront with hfront | ⟨-, hmem⟩
        · exact (closes_append _ _).mpr (.inl ((closes_append _ _).mpr (.inl hfront)))
        · exact absurd hmem hargument
      · refine (closes_append _ _).mpr (.inr ⟨fun hmem => ?_, ih [] hbehind⟩)
        rcases List.mem_append.mp hmem with hmem | hmem
        · exact hfront (List.mem_append_left _ hmem)
        · exact hparameter hmem

/-- An expression that begins in the front would close in the parts as well. -/
theorem noExpression_front (front : List Char) (parts : List (List Char))
    (hparts : NoExpression (spaced (parts.map (writtenPart arguments))))
    (hall : NoExpression (front ++ spaced parts)) :
    NoExpression (front ++ spaced (parts.map (writtenPart arguments))) := by
  induction front with
  | nil => exact hparts
  | cons c front ih =>
    obtain ⟨hfirst, hrest⟩ := noExpression_cons.mp hall
    refine noExpression_cons.mpr ⟨?_, ih hrest⟩
    by_cases hc : c = '$'
    · subst hc
      cases front with
      | nil =>
        cases parts with
        | nil => rfl
        | cons part parts => exact expression?_of_not_open (by decide) _
      | cons d front =>
        by_cases hd : d = '('
        · subst hd
          have hopen (cs : List Char) :
              expression? ('$' :: ('(' :: front ++ cs)) = none ↔ ¬ Closes (front ++ cs) :=
            expression?_eq_none _
          refine (hopen _).mpr fun hcloses => ?_
          exact (hopen _).mp hfirst (closes_of_written h front parts hcloses)
        · exact expression?_of_not_open hd _
    · exact expression?_of_ne hc _

/-- Arguments bring in no expression. -/
theorem noExpression_written (parts : List (List Char)) (hall : NoExpression (spaced parts)) :
    NoExpression (spaced (parts.map (writtenPart arguments))) := by
  induction parts with
  | nil => exact hall
  | cons part parts ih =>
    have hspace : '$' ∉ [' '] := by decide
    have hbehind : NoExpression (part ++ spaced parts) :=
      (noExpression_append hspace).mp hall
    have hparts : NoExpression (spaced parts) := fun suffix hsuffix =>
      hbehind suffix (hsuffix.trans (List.suffix_append part _))
    refine (noExpression_append hspace).mpr ?_
    rcases writtenPart_cases arguments part with hsame | ⟨entry, hentry, -, harg⟩
    · rw [hsame]
      exact noExpression_front h part parts (ih hparts) hbehind
    · rw [harg]
      exact (noExpression_append ((h entry hentry).2.2 '$' (by decide))).mpr (ih hparts)

/-- The line with arguments written into it comes to its words with arguments in the place of
parameters. -/
theorem readsAs_written [Interpreter] {line : String} (horiginal : Original arguments line)
    (hno : NoExpression (unquoted line.toList)) :
    ReadsAs (String.ofList (written arguments line))
      (substituted (.ofList arguments) (lineWords line)) := by
  obtain ⟨parts, hne, -, hline, hwritten⟩ := unquoted_written h horiginal
  obtain ⟨part, parts, rfl⟩ := List.exists_cons_of_ne_nil hne
  have hspace : '$' ∉ [' '] := by decide
  have hparts : NoExpression (spaced (part :: parts)) := by
    rw [spaced_eq, ← hline]
    exact (noExpression_append hspace).mpr hno
  have hargs := noExpression_written h _ hparts
  rw [List.map_cons, spaced_eq, ← List.map_cons, ← hwritten] at hargs
  refine readsAs_of_noExpression ?_ ?_
  · rw [String.toList_ofList]
    exact (noExpression_append hspace).mp hargs
  · unfold lineWords
    rw [String.toList_ofList, words_written h horiginal]
    rfl

end Written

end TaskMachine.Writing
