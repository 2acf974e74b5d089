import TaskMachine.Expr.Script
import TaskMachine.Proofs.Assembler.Writing
import TaskMachine.Proofs.Numeral.Literals

/-!
# Numbers written into a line

An expression in a line is replaced by its value in hexadecimal digits, and a
character in quotes by its code in decimal ones. So a line with either is a line
in which the number stands in its place. The words that are numbers are those
that the grammar of literals describes, and the assembler writes nothing else:
what it has written is read as the number it was.
-/

namespace TaskMachine.ReadBack

open Numeral Literals PlainText Rewriting Writing CodeLines

/-- A line is read as any line with the same text after the replacements. -/
theorem wordsOf_congr [Interpreter] {equates : Table String} {cs ds : List Char}
    (h : rewritten equates cs = rewritten equates ds) :
    wordsOf equates (String.ofList cs) = wordsOf equates (String.ofList ds) := by
  rw [wordsOf_eq, wordsOf_eq, String.toList_ofList, String.toList_ofList, h]

/-! ## Expressions -/

theorem beforeLastClosing?_append {body cs : List Char} (h : ')' ∉ cs) :
    beforeLastClosing? (body ++ ')' :: cs) = some body := by
  have hrev : ∀ c ∈ cs.reverse, decide (c ≠ ')') = true := fun c hc =>
    decide_eq_true fun heq => h (heq ▸ List.mem_reverse.mp hc)
  have hdrop : (body ++ ')' :: cs).reverse.dropWhile (· ≠ ')') = ')' :: body.reverse := by
    rw [List.reverse_append, List.reverse_cons, List.append_assoc,
      List.dropWhile_append_of_pos hrev]
    rfl
  unfold beforeLastClosing?
  rw [hdrop]
  exact congrArg some (List.reverse_reverse body)

/-- An expression extends to its bracket, if no other one closes behind it. -/
theorem expression?_append {body back : List Char} (hbody : '$' ∉ body) (hback : ¬ Closes back) :
    expression? ('$' :: '(' :: (body ++ ')' :: back)) = some body := by
  have htake : (body ++ ')' :: back).takeWhile (· ≠ '$') =
      body ++ ')' :: back.takeWhile (· ≠ '$') := by
    have hpos : ∀ c ∈ body, decide (c ≠ '$') = true := by
      rintro c hc
      refine decide_eq_true ?_
      rintro rfl
      exact hbody hc
    rw [List.takeWhile_append_of_pos hpos]
    rfl
  change beforeLastClosing? ((body ++ ')' :: back).takeWhile (· ≠ '$')) = some body
  rw [htake]
  exact beforeLastClosing?_append hback

theorem replaceExpressions_skip (value : List Char → Except AsmError UInt32) (skip : Nat)
    (cs acc : List Char) (failure : Option AsmError) :
    replaceExpressions value skip cs acc failure =
      replaceExpressions value 0 (cs.drop skip) acc failure := by
  induction cs generalizing skip with
  | nil => cases failure <;> rw [List.drop_nil, replaceExpressions, replaceExpressions]
  | cons c cs ih =>
    cases skip with
    | zero => rfl
    | succ k =>
      rw [replaceExpressions, List.drop_succ_cons]
      exact ih k

/-- Neither mark of a replacement is in the number that an expression is replaced by. -/
theorem not_mem_hexLiteral {c : Char} (hc : c ∉ ['0', 'x', '_']) (hvalue : digitValue? c = none)
    (n : Nat) : c ∉ (hexLiteral n).toList := by
  obtain ⟨ds, hds, -⟩ := exists_spells_toDigits (show 1 < 16 by decide) n
  simp only [List.mem_cons, not_or] at hc
  rw [toList_hexLiteral]
  exact List.not_mem_cons_of_ne_of_not_mem hc.1
    (List.not_mem_cons_of_ne_of_not_mem hc.2.1 (hds.not_mem (by decide) hc.2.2.1 hvalue))

theorem replaceExpressions_body {value : List Char → Except AsmError UInt32} {body : List Char}
    {u : UInt32} (hbody : '$' ∉ body) (hvalue : value body = .ok u) {back : List Char}
    (hback : ¬ Closes back) (acc : List Char) :
    replaceExpressions value 0 ('$' :: '(' :: (body ++ ')' :: back)) acc none =
      replaceExpressions value 0 back ((hexLiteral u.toNat).toList.reverse ++ acc) none := by
  have hdrop : ('(' :: (body ++ ')' :: back)).drop (body.length + 2) = back := by
    rw [List.drop_succ_cons, ← List.drop_drop, List.drop_left]
    rfl
  rw [replaceExpressions, expression?_append hbody hback]
  dsimp only
  rw [hvalue]
  dsimp only
  rw [replaceExpressions_skip, hdrop]

/-- A line with an expression in it is the line with the value in its place. -/
theorem wordsOf_expression [Interpreter] {equates : Table String} {front body back : List Char}
    {u : UInt32} (hquote : '\'' ∉ front ++ body) (hdollar : '$' ∉ front ++ body)
    (hback : ¬ Closes (unquoted back)) (hvalue : expressionValue equates body = .ok u) :
    wordsOf equates (String.ofList (front ++ '$' :: '(' :: (body ++ ')' :: back))) =
      wordsOf equates (String.ofList (front ++ ((hexLiteral u.toNat).toList ++ back))) := by
  rw [List.mem_append, not_or] at hquote hdollar
  have hexpr : '\'' ∉ '$' :: '(' :: (body ++ [')']) := by simp [hquote.2]
  have hunquoted : unquoted ('$' :: '(' :: (body ++ ')' :: back)) =
      '$' :: '(' :: (body ++ ')' :: unquoted back) := by
    have happend := unquoted_append hexpr back
    simpa only [List.cons_append, List.append_assoc, List.nil_append] using happend
  have hnumber : unquoted ((hexLiteral u.toNat).toList ++ back) =
      (hexLiteral u.toNat).toList ++ unquoted back :=
    unquoted_append (not_mem_hexLiteral (by decide) (by decide) _) back
  refine wordsOf_congr ?_
  rw [rewritten_append equates hquote.1 hdollar.1, rewritten_append equates hquote.1 hdollar.1]
  refine congrArg (Except.map (front ++ ·)) ?_
  change replaceExpressions _ 0 (unquoted _) [] none = replaceExpressions _ 0 (unquoted _) [] none
  rw [hunquoted, hnumber, replaceExpressions_body hdollar.2 hvalue hback,
    replaceExpressions_append _ (not_mem_hexLiteral (by decide) (by decide) _)]

/-! ## Characters -/

theorem escapeCode?_lt {c : Char} {code : Nat} (h : escapeCode? c = some code) : code < 128 := by
  unfold escapeCode? at h
  split at h <;> cases h <;> decide

theorem plainCode?_lt {c : Char} {code : Nat} (h : plainCode? c = some code) : code < 128 := by
  unfold plainCode? at h
  split at h
  · rename_i hplain
    obtain rfl := Option.some.inj h
    have hsize := hplain.1
    rw [Char.utf8Size_eq_one_iff, UInt32.le_iff_toNat_le] at hsize
    exact Nat.lt_succ_of_le hsize
  · cases h

/-- The code of a character is one of ASCII. -/
theorem charLiteral?_lt {literal : List Char} {code n : Nat}
    (h : charLiteral? literal = some (some code, n)) : code < 128 := by
  unfold charLiteral? at h
  split at h
  · split at h
    · cases h
    · exact escapeCode?_lt (Prod.mk.inj (Option.some.inj h)).1
  · split at h
    · cases h
    · exact plainCode?_lt (Prod.mk.inj (Option.some.inj h)).1
  · cases h

/-- A line with a character in it is the line with its code in its place. -/
theorem wordsOf_charLiteral [Interpreter] (equates : Table String) {front literal back : List Char}
    {code : Nat} (hquote : '\'' ∉ front)
    (hcode : charLiteral? (literal ++ back) = some (some code, literal.length)) :
    wordsOf equates (String.ofList (front ++ (literal ++ back))) =
      wordsOf equates (String.ofList (front ++ ((decimalNat code).toList ++ back))) := by
  have hdigits : '\'' ∉ Nat.toDigits 10 code := fun hmem =>
    absurd (Nat.isDigit_of_mem_toDigits (by decide) (by decide) hmem) (by decide)
  have hliteral : unquoted (literal ++ back) = Nat.toDigits 10 code ++ unquoted back := by
    cases literal with
    | nil =>
      cases back with
      | nil => cases hcode
      | cons c back => exact absurd (charLiteral?_cases hcode).2 (Nat.lt_irrefl 0)
    | cons c literal =>
      have hreplaced : unquoted (c :: (literal ++ back)) =
          replacement (c :: (literal ++ back).take literal.length) (some code) ++
            unquoted ((literal ++ back).drop literal.length) := unquoted_literal hcode
      rwa [List.drop_left] at hreplaced
  refine wordsOf_congr ?_
  change replaceExpressions _ 0 (unquoted _) [] none = replaceExpressions _ 0 (unquoted _) [] none
  rw [Spelling.toList_decimalNat, unquoted_append hquote, unquoted_append hquote, hliteral,
    unquoted_append hdigits]

/-! ## Numbers -/

/-- The words that are numbers are those that denote one. A value or the code of a character is
read as itself where it stands in a line, and so is the number of a line. -/
theorem numbers_read_exactly [Interpreter] :
    (∀ (word : String) (v : UInt32), numberOf? word = some v ↔ Denotes word.toList v) ∧
    (∀ (equates : Table String) (front body back : List Char) (u : UInt32),
      '\'' ∉ front ++ body → '$' ∉ front ++ body → ¬ Closes (unquoted back) →
      expressionValue equates body = .ok u →
      wordsOf equates (String.ofList (front ++ '$' :: '(' :: (body ++ ')' :: back))) =
        wordsOf equates (String.ofList (front ++ ((hexLiteral u.toNat).toList ++ back)))) ∧
    (∀ u : UInt32, numberOf? (hexLiteral u.toNat) = some u) ∧
    (∀ (equates : Table String) (front literal back : List Char) (code : Nat),
      '\'' ∉ front → charLiteral? (literal ++ back) = some (some code, literal.length) →
      code < 128 ∧
      wordsOf equates (String.ofList (front ++ (literal ++ back))) =
        wordsOf equates (String.ofList (front ++ ((decimalNat code).toList ++ back)))) ∧
    (∀ (equates : Table String) (number : Nat),
      (onLine equates number).find? lineEquate = some (decimalNat number)) ∧
    ∀ n < 0x100000000, numberOf? (decimalNat n) = some (UInt32.ofNat n) := by
  refine ⟨numberOf?_iff, ?_, numberOf?_hexLiteral, ?_, ?_, fun n => numberOf?_decimalNat⟩
  · intro equates front body back u hquote hdollar hback hvalue
    exact wordsOf_expression hquote hdollar hback hvalue
  · intro equates front literal back code hquote hcode
    exact ⟨charLiteral?_lt hcode, wordsOf_charLiteral equates hquote hcode⟩
  · intro equates number
    rw [onLine, Tables.find?_insert, if_pos rfl]

/-- A literal in every part of the grammar, and a line that has a value and a character in it. -/
theorem numbers_read_exactly_line :
    numberOf? "~-0x_7F" = some 126 ∧
    wordsOf {} "add $(6*7) '\\n'" = wordsOf {} "add 0x2a '\\n'" ∧
    wordsOf {} "add 0x2a '\\n'" = wordsOf {} "add 0x2a 10" ∧
    numberOf? (hexLiteral 0x2a) = some 0x2a ∧ numberOf? (decimalNat 10) = some 10 ∧
    (onLine {} 7).find? lineEquate = some "7" := by
  obtain ⟨hiff, hexpression, hhex, hcharacter, hline, hdecimal⟩ := numbers_read_exactly
  have hdigits : Spells 16 ['_', '7', 'F'] [7, 15] :=
    .separated ⟨by decide, by decide⟩ (.digit ⟨by decide, by decide⟩ .nil)
  have hinteger : Integer ['-', '0', 'x', '_', '7', 'F'] (-127) :=
    .minus (.marked .x hdigits (List.cons_ne_nil _ _))
  have hholds : Holds (-127) (~~~126) := ⟨by decide, by decide, by decide⟩
  have hbody : expressionValue {} ['6', '*', '7'] = .ok 42 := by decide +kernel
  refine ⟨(hiff "~-0x_7F" 126).mpr (.complement hinteger hholds), ?_, ?_, hhex 42,
    hdecimal 10 (by decide), hline {} 7⟩
  · exact hexpression {} "add ".toList ['6', '*', '7'] " '\\n'".toList 42 (by decide) (by decide)
      (by decide +kernel) hbody
  · exact (hcharacter {} "add 0x2a ".toList "'\\n'".toList [] 10 (by decide) (by decide)).2

end TaskMachine.ReadBack
