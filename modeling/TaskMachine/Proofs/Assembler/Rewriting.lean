import Mathlib.Data.List.Infix
import TaskMachine.Proofs.Assembler.PlainText
import TaskMachine.Proofs.Text.Quoting

/-!
# What rewriting does to a line

Before a line is cut into words, quoted characters and expressions in it are
replaced by numbers. Either pass keeps the line as it is, or the first thing
that changes in it is a mark, in the place of which there is a digit then. Words
that are joined again are the line with every run of spaces squeezed to one.
-/

namespace TaskMachine.Rewriting

open Numeral PlainText Quoting

/-! ## First changes -/

/-- The first thing that changes between two texts is a mark, which becomes a digit. -/
def Overwrites (cs ds : List Char) : Prop :=
  ∃ front q d back back', isMark q = true ∧ d.isDigit = true ∧
    cs = front ++ q :: back ∧ ds = front ++ d :: back'

theorem digit_ne_mark {d q : Char} (hd : d.isDigit = true) (hq : isMark q = true) : d ≠ q := by
  rintro rfl
  have hnot := of_isMark (p := fun c => !c.isDigit) (by decide) hq
  rw [hd] at hnot
  cases hnot

theorem Overwrites.ne {cs ds : List Char} (h : Overwrites cs ds) : ds ≠ cs := by
  obtain ⟨front, q, d, back, back', hq, hd, rfl, rfl⟩ := h
  intro heq
  exact digit_ne_mark hd hq (List.cons.inj (List.append_cancel_left heq)).1

theorem Overwrites.append {cs ds : List Char} (h : Overwrites cs ds) (more : List Char) :
    Overwrites (cs ++ more) ds := by
  obtain ⟨front, q, d, back, back', hq, hd, rfl, rfl⟩ := h
  exact ⟨front, q, d, back ++ more, back', hq, hd, List.append_assoc _ _ _, rfl⟩

/-- Of two changes one after the other, the one nearer to the front is the first. -/
theorem Overwrites.trans {cs ds es : List Char} (h : Overwrites cs ds) (k : Overwrites ds es) :
    Overwrites cs es := by
  obtain ⟨front, q, d, back, back', hq, hd, rfl, rfl⟩ := h
  obtain ⟨front', q', d', tail, tail', hq', hd', heq, rfl⟩ := k
  obtain ⟨more, rfl, hmore⟩ | ⟨more, rfl, hmore⟩ := List.append_eq_append_iff.mp heq
  · cases more with
    | nil => exact absurd (List.cons.inj hmore).1 (digit_ne_mark hd hq')
    | cons c more =>
      obtain ⟨rfl, -⟩ := List.cons.inj hmore
      exact ⟨front, q, d, back, more ++ d' :: tail', hq, hd, rfl, List.append_assoc _ _ _⟩
  · cases more with
    | nil => exact absurd (List.cons.inj hmore).1.symm (digit_ne_mark hd hq')
    | cons c more =>
      obtain ⟨rfl, -⟩ := List.cons.inj hmore
      exact ⟨front', q', d', more ++ q :: back, tail', hq', hd', List.append_assoc _ _ _, rfl⟩

/-! ## Quoted characters -/

theorem charLiteral?_cases {c : Char} {cs : List Char} {code : Option Nat} {n : Nat}
    (h : charLiteral? (c :: cs) = some (code, n)) : c = '\'' ∧ 0 < n := by
  unfold charLiteral? at h
  split at h
  · rename_i heq
    obtain ⟨rfl, -⟩ := List.cons.inj heq
    split at h <;> cases h <;> exact ⟨rfl, by decide⟩
  · rename_i heq
    obtain ⟨rfl, -⟩ := List.cons.inj heq
    split at h
    · cases h
    · cases h
      exact ⟨rfl, by decide⟩
  · cases h

theorem replaceChars_acc (skip : Nat) (cs acc : List Char) :
    replaceChars skip cs acc = acc.reverse ++ replaceChars skip cs [] := by
  induction cs generalizing skip acc with
  | nil => rw [replaceChars, replaceChars, List.reverse_nil, List.append_nil]
  | cons c cs ih =>
    cases skip with
    | succ k =>
      rw [replaceChars, replaceChars]
      exact ih k acc
    | zero =>
      rw [replaceChars, replaceChars]
      split
      · rw [ih, ih _ ((Nat.toDigits 10 _).reverse ++ [])]
        simp
      · rw [ih, ih _ (((c :: cs).take _).reverse ++ [])]
        simp
      · rw [ih, ih _ [c]]
        simp

/-- Quoted characters that have a code are replaced by it, and all else is kept. -/
theorem replaceChars_cases (skip : Nat) (cs acc : List Char) :
    replaceChars skip cs acc = acc.reverse ++ cs.drop skip ∨
      Overwrites (acc.reverse ++ cs.drop skip) (replaceChars skip cs acc) := by
  induction cs generalizing skip acc with
  | nil =>
    rw [replaceChars, List.drop_nil, List.append_nil]
    exact .inl rfl
  | cons c cs ih =>
    cases skip with
    | succ k =>
      rw [replaceChars]
      exact ih k acc
    | zero =>
      rw [replaceChars, List.drop_zero]
      split
      · rename_i code n hliteral
        obtain ⟨rfl, -⟩ := charLiteral?_cases hliteral
        have hdigits (d : Char) (hd : d ∈ Nat.toDigits 10 code) : d.isDigit = true :=
          Nat.isDigit_of_mem_toDigits (by decide) (by decide) hd
        rw [replaceChars_acc, List.reverse_append, List.reverse_reverse]
        cases hcode : Nat.toDigits 10 code with
        | nil => exact absurd hcode Nat.toDigits_ne_nil
        | cons d ds =>
          rw [hcode] at hdigits
          refine .inr ⟨acc.reverse, '\'', d, cs, ds ++ _, by decide, hdigits d List.mem_cons_self,
            rfl, List.append_assoc _ _ _⟩
      · rename_i n hliteral
        obtain ⟨-, hn⟩ := charLiteral?_cases hliteral
        obtain ⟨k, rfl⟩ := Nat.exists_eq_succ_of_ne_zero (Nat.pos_iff_ne_zero.mp hn)
        have hrest := ih k (((c :: cs).take (k + 1)).reverse ++ acc)
        rw [List.reverse_append, List.reverse_reverse, List.append_assoc, List.take_succ_cons,
          List.cons_append, List.take_append_drop] at hrest
        exact hrest
      · have hrest := ih 0 (c :: acc)
        rw [List.reverse_cons, List.append_assoc] at hrest
        exact hrest

/-! ## Expressions -/

section Expressions

variable {value : List Char → Except AsmError UInt32}

theorem expression?_cases {c : Char} {cs body : List Char}
    (h : expression? (c :: cs) = some body) : c = '$' := by
  unfold expression? at h
  split at h
  · rename_i heq
    exact (List.cons.inj heq).1
  · cases h

/-- An expression that has failed is not forgotten. -/
theorem replaceExpressions_failed (skip : Nat) (cs acc : List Char) (e : AsmError)
    (ds : List Char) : replaceExpressions value skip cs acc (some e) ≠ .ok ds := by
  induction cs generalizing skip acc e with
  | nil =>
    intro h
    cases h
  | cons c cs ih =>
    cases skip with
    | succ k =>
      rw [replaceExpressions]
      exact ih k acc e
    | zero =>
      rw [replaceExpressions]
      split
      · exact ih _ _ _
      · split
        · exact ih _ _ _
        · exact ih _ _ _

/-- What has been written is kept. -/
theorem replaceExpressions_acc (skip : Nat) (cs acc : List Char) (failure : Option AsmError) :
    replaceExpressions value skip cs acc failure =
      (replaceExpressions value skip cs [] failure).map (acc.reverse ++ ·) := by
  induction cs generalizing skip acc failure with
  | nil =>
    cases failure with
    | none =>
      rw [replaceExpressions, replaceExpressions, Except.map, List.reverse_nil, List.append_nil]
    | some e => rfl
  | cons c cs ih =>
    cases skip with
    | succ k =>
      rw [replaceExpressions, replaceExpressions]
      exact ih k acc failure
    | zero =>
      have hmore (skip : Nat) (more : List Char) (failure : Option AsmError) :
          replaceExpressions value skip cs (more ++ acc) failure =
            (replaceExpressions value skip cs (more ++ []) failure).map (acc.reverse ++ ·) := by
        rw [ih, ih _ (more ++ [])]
        cases replaceExpressions value skip cs [] failure with
        | ok ds => simp [Except.map]
        | error e => rfl
      rw [replaceExpressions, replaceExpressions]
      split
      · exact hmore 0 [c] failure
      · split
        · exact hmore _ _ failure
        · exact hmore _ [] _

/-- A text that is rewritten has no expression and is kept, or the first of its expressions is
replaced by a number. -/
theorem replaceExpressions_cases {cs acc ds : List Char}
    (h : replaceExpressions value 0 cs acc none = .ok ds) :
    (ds = acc.reverse ++ cs ∧ ∀ suffix, suffix <:+ cs → expression? suffix = none) ∨
      Overwrites (acc.reverse ++ cs) ds := by
  induction cs generalizing acc with
  | nil =>
    rw [replaceExpressions] at h
    cases h
    refine .inl ⟨(List.append_nil _).symm, fun suffix hsuffix => ?_⟩
    rw [List.suffix_nil.mp hsuffix]
    rfl
  | cons c cs ih =>
    rw [replaceExpressions] at h
    split at h
    · rename_i hnone
      have hrest := ih h
      rw [List.reverse_cons, List.append_assoc] at hrest
      rcases hrest with ⟨hds, hall⟩ | hover
      · refine .inl ⟨hds, fun suffix hsuffix => ?_⟩
        rcases List.suffix_cons_iff.mp hsuffix with rfl | hsuffix
        · exact hnone
        · exact hall suffix hsuffix
      · exact .inr hover
    · rename_i body hbody
      obtain rfl := expression?_cases hbody
      split at h
      · rename_i v hv
        have hliteral : (hexLiteral v.toNat).toList =
            '0' :: 'x' :: (String.ofList (Nat.toDigits 16 v.toNat)).toList :=
          String.toList_append
        rw [replaceExpressions_acc] at h
        cases hrest : replaceExpressions value (body.length + 2) cs [] none with
        | error e =>
          rw [hrest] at h
          cases h
        | ok rest =>
          rw [hrest] at h
          cases h
          dsimp only
          rw [List.reverse_append, List.reverse_reverse, List.append_assoc, hliteral]
          exact .inr ⟨acc.reverse, '$', '0', cs, _, by decide, by decide, rfl, rfl⟩
      · exact absurd h (replaceExpressions_failed _ _ _ _ ds)

/-- A text without expressions is kept. -/
theorem replaceExpressions_of_none {cs : List Char}
    (h : ∀ suffix, suffix <:+ cs → expression? suffix = none) (acc : List Char) :
    replaceExpressions value 0 cs acc none = .ok (acc.reverse ++ cs) := by
  induction cs generalizing acc with
  | nil => rw [replaceExpressions, List.append_nil]
  | cons c cs ih =>
    rw [replaceExpressions, h (c :: cs) List.suffix_rfl]
    dsimp only
    rw [ih fun suffix hsuffix => h suffix (hsuffix.trans (List.suffix_cons c cs)),
      List.reverse_cons, List.append_assoc]
    rfl

end Expressions

/-! ## Both passes -/

section

variable [Interpreter]

/-- A text after its quoted characters and then its expressions have been replaced. -/
def rewritten (equates : Table String) (cs : List Char) : Except AsmError (List Char) :=
  replaceExpressions (expressionValue equates) 0 (replaceChars 0 cs []) [] none

theorem wordsOf_eq (equates : Table String) (line : String) :
    wordsOf equates line =
      (rewritten equates line.toList).map fun cs => (Text.words cs).map String.ofList := by
  unfold wordsOf rewritten
  split <;> rename_i h <;> rw [h] <;> rfl

/-- What stands before the first mark of either kind is kept. -/
theorem rewritten_append (equates : Table String) {front : List Char} (hquote : '\'' ∉ front)
    (hdollar : '$' ∉ front) (cs : List Char) :
    rewritten equates (front ++ cs) = (rewritten equates cs).map (front ++ ·) := by
  unfold rewritten
  rw [replaceChars_append hquote, replaceChars_acc, List.append_nil, List.reverse_reverse,
    replaceExpressions_append _ hdollar, replaceExpressions_acc, List.append_nil,
    List.reverse_reverse]

end

/-- No part of a text would be replaced. -/
structure Settled (cs : List Char) : Prop where
  chars : replaceChars 0 cs [] = cs
  expressions : ∀ suffix, suffix <:+ cs → expression? suffix = none

instance (cs : List Char) : Decidable (Settled cs) :=
  decidable_of_iff (replaceChars 0 cs [] = cs ∧ ∀ suffix ∈ cs.tails, expression? suffix = none)
    ⟨fun h => ⟨h.1, fun suffix hsuffix => h.2 suffix ((List.mem_tails suffix cs).mpr hsuffix)⟩,
      fun h => ⟨h.chars, fun suffix hsuffix =>
        h.expressions suffix ((List.mem_tails suffix cs).mp hsuffix)⟩⟩

theorem Settled.rewritten_eq [Interpreter] {cs : List Char} (h : Settled cs)
    (equates : Table String) : rewritten equates cs = .ok cs := by
  unfold rewritten
  rw [h.chars, replaceExpressions_of_none h.expressions]
  rfl

theorem rewritten_cases [Interpreter] {equates : Table String} {cs ds : List Char}
    (h : rewritten equates cs = .ok ds) : (ds = cs ∧ Settled cs) ∨ Overwrites cs ds := by
  rcases replaceChars_cases 0 cs [] with hchars | hchars
  · rw [rewritten, hchars] at h
    rcases replaceExpressions_cases h with ⟨hds, hnone⟩ | hover
    · exact .inl ⟨hds, hchars, hnone⟩
    · exact .inr hover
  · rcases replaceExpressions_cases h with ⟨rfl, -⟩ | hexpressions
    · exact .inr hchars
    · exact .inr (hchars.trans hexpressions)

/-! ## Words -/

theorem words_append (cs ds : List Char) :
    Text.words (cs ++ ' ' :: ds) = Text.words cs ++ Text.words ds := by
  unfold Text.words
  rw [splitOn_eq, splitOn_eq, splitOn_eq, List.splitOn_append_cons_self, List.filter_append]

theorem words_singleton {cs : List Char} (hne : cs ≠ []) (hspace : ' ' ∉ cs) :
    Text.words cs = [cs] := by
  unfold Text.words
  rw [splitOn_eq, List.splitOn_eq_singleton hspace]
  exact List.filter_eq_self.mpr (List.forall_mem_singleton.mpr (decide_eq_true hne))

theorem exists_splitOn (cs : List Char) : ∃ part parts, Text.splitOn ' ' cs = part :: parts := by
  refine List.exists_cons_of_ne_nil ?_
  rw [splitOn_eq]
  exact List.splitOn_ne_nil ' ' cs

theorem splitOn_cons {c : Char} (hc : c ≠ ' ') {cs part : List Char} {parts : List (List Char)}
    (h : Text.splitOn ' ' cs = part :: parts) :
    Text.splitOn ' ' (c :: cs) = (c :: part) :: parts := by
  change (if c = ' ' then _ else _) = _
  unfold Text.splitOn at h
  rw [if_neg hc, h]

/-- The text with every run of spaces squeezed to one, and without the spaces at its end: a space
is held back until something comes after it. -/
def squeeze : Bool → List Char → List Char
  | _, [] => []
  | pending, c :: cs =>
    if c = ' ' then squeeze true cs
    else if pending then ' ' :: c :: squeeze false cs
    else c :: squeeze false cs

theorem squeeze_space (pending : Bool) (cs : List Char) :
    squeeze pending (' ' :: cs) = squeeze true cs := by
  rw [squeeze, if_pos rfl]

/-- What has no spaces is kept, behind the space that was held back. -/
theorem squeeze_append {word : List Char} (hne : word ≠ []) (hspace : ' ' ∉ word) (pending : Bool)
    (cs : List Char) :
    squeeze pending (word ++ cs) = (if pending then [' '] else []) ++ (word ++ squeeze false cs) := by
  induction word generalizing pending with
  | nil => exact absurd rfl hne
  | cons c word ih =>
    have hc : c ≠ ' ' := fun hc => hspace (hc ▸ List.mem_cons_self)
    have hrest : squeeze false (word ++ cs) = word ++ squeeze false cs := by
      by_cases hnil : word = []
      · rw [hnil, List.nil_append, List.nil_append]
      · exact ih hnil (fun hmem => hspace (List.mem_cons_of_mem _ hmem)) false
    rw [List.cons_append, squeeze, if_neg hc, hrest]
    cases pending <;> rfl

theorem intercalate_cons (word : List Char) (words : List (List Char)) :
    [' '].intercalate (word :: words) = word ++ words.flatMap (' ' :: ·) := by
  induction words generalizing word with
  | nil => simp [List.intercalate]
  | cons next words ih =>
    have hnext := ih next
    simp only [List.intercalate] at hnext ⊢
    simp [hnext]

/-- The words of a text behind a space each. The first part goes on with a word that has begun
before the text. -/
theorem flatMap_words {cs part : List Char} {parts : List (List Char)}
    (h : Text.splitOn ' ' cs = part :: parts) :
    part ++ (parts.filter (· ≠ [])).flatMap (' ' :: ·) = squeeze false cs ∧
      (Text.words cs).flatMap (' ' :: ·) = squeeze true cs := by
  induction cs generalizing part parts with
  | nil =>
    cases h
    exact ⟨rfl, rfl⟩
  | cons c cs ih =>
    obtain ⟨first, rest, hsplit⟩ := exists_splitOn cs
    obtain ⟨hjoined, hbehind⟩ := ih hsplit
    by_cases hc : c = ' '
    · subst hc
      have hcons : Text.splitOn ' ' (' ' :: cs) = [] :: Text.splitOn ' ' cs := rfl
      obtain ⟨rfl, rfl⟩ := List.cons.inj (hcons.symm.trans h)
      rw [squeeze_space, squeeze_space, ← hbehind]
      exact ⟨rfl, rfl⟩
    · have hcons := splitOn_cons hc hsplit
      obtain ⟨rfl, rfl⟩ := List.cons.inj (hcons.symm.trans h)
      rw [squeeze, squeeze, if_neg hc, if_neg hc, ← hjoined]
      refine ⟨rfl, ?_⟩
      unfold Text.words
      rw [hcons]
      rfl

/-- Words that are joined again are the text with its spaces squeezed. -/
theorem intercalate_words {c : Char} (hc : c ≠ ' ') (cs : List Char) :
    [' '].intercalate (Text.words (c :: cs)) = c :: squeeze false cs := by
  obtain ⟨part, parts, hsplit⟩ := exists_splitOn cs
  have hwords : Text.words (c :: cs) = (c :: part) :: parts.filter (· ≠ []) := by
    unfold Text.words
    rw [splitOn_cons hc hsplit]
    rfl
  rw [hwords, intercalate_cons, List.cons_append, (flatMap_words hsplit).1]

/-- No space stands next to another. -/
def Tidy (cs : List Char) : Prop := cs.IsChain fun a b => a = ' ' → b ≠ ' '

instance (cs : List Char) : Decidable (Tidy cs) :=
  inferInstanceAs (Decidable (cs.IsChain _))

theorem Tidy.tail {c : Char} {cs : List Char} (h : Tidy (c :: cs)) : Tidy cs :=
  List.IsChain.of_cons h

theorem not_tidy_spaces (cs : List Char) : ¬ Tidy (' ' :: ' ' :: cs) := by
  intro htidy
  exact (List.isChain_cons_cons.mp htidy).1 rfl rfl

theorem tidy_cons {c : Char} (hc : c ≠ ' ') {cs : List Char} (h : Tidy cs) : Tidy (c :: cs) := by
  cases cs with
  | nil => exact .singleton c
  | cons d cs => exact List.isChain_cons_cons.mpr ⟨fun hspace => absurd hspace hc, h⟩

/-- Nothing that comes before a space stands next to another. -/
theorem tidy_append {word : List Char} (hspace : ' ' ∉ word) {cs : List Char} (h : Tidy cs) :
    Tidy (word ++ cs) := by
  induction word with
  | nil => exact h
  | cons c word ih =>
    exact tidy_cons (fun hc => hspace (hc ▸ List.mem_cons_self))
      (ih fun hmem => hspace (List.mem_cons_of_mem _ hmem))

theorem tidy_space_cons {c : Char} (hc : c ≠ ' ') {cs : List Char} (h : Tidy (c :: cs)) :
    Tidy (' ' :: c :: cs) :=
  List.isChain_cons_cons.mpr ⟨fun _ => hc, h⟩

/-- Tidy text that ends in something else than a space is kept. -/
theorem squeeze_eq_self {e : Char} (he : e ≠ ' ') (cs : List Char) :
    (Tidy (cs ++ [e]) → squeeze false (cs ++ [e]) = cs ++ [e]) ∧
      (Tidy (' ' :: (cs ++ [e])) → squeeze true (cs ++ [e]) = ' ' :: (cs ++ [e])) := by
  induction cs with
  | nil =>
    have hlast (pending : Bool) :
        squeeze pending [e] = (if pending then [' '] else []) ++ [e] :=
      squeeze_append (List.cons_ne_nil e []) (fun h => he (List.mem_singleton.mp h).symm) pending []
    exact ⟨fun _ => hlast false, fun _ => hlast true⟩
  | cons c cs ih =>
    obtain ⟨hkept, hpending⟩ := ih
    by_cases hc : c = ' '
    · subst hc
      constructor
      · intro htidy
        rw [List.cons_append, squeeze_space]
        exact hpending htidy
      · intro htidy
        exact absurd htidy (not_tidy_spaces _)
    · constructor
      · intro htidy
        rw [List.cons_append, squeeze, if_neg hc, hkept htidy.tail]
        rfl
      · intro htidy
        rw [List.cons_append, squeeze, if_neg hc, hkept htidy.tail.tail]
        rfl

end TaskMachine.Rewriting
