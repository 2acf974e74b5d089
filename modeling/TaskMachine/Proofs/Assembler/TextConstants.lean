import Mathlib.Data.List.DropRight
import TaskMachine.Expr.Script
import TaskMachine.Proofs.Assembler.Rewriting
import TaskMachine.Proofs.Assembler.Truncation

/-!
# Text constants

A text constant stands in quotes in the source, but the line is cut at a comment,
rewritten and cut into words without regard to quotes. What the constant is made
from in the end follows its quoted form up to a mark that has been cut away,
replaced or squeezed, and from there on it reads as something else. So a text
gets into the pool exactly if none of this happens to its quoted form.
-/

namespace TaskMachine.TextConstants

open Stateful Constants Reading Linkage PlainText Truncation Rewriting Quoting Tables Asm
open Text.Quoted
open Text.Utf8 (Piece pieces)

/-! ## Following the quoted form -/

/-- A text follows the quoted form of some pieces: to its end, or to where it has been cut off, or
to a mark that has been replaced by a number. -/
inductive Follows : List Piece → List Char → Prop
  | whole : Follows [] ['"']
  | cut {ps : List Piece} : Follows ps []
  | replaced {q d : Char} {ps : List Piece} {rest : List Char} (hq : isMark q = true)
    (hd : d.isDigit = true) : Follows (.char q :: ps) (d :: rest)
  | piece {p : Piece} {ps : List Piece} {rest : List Char} (h : Follows ps rest) :
    Follows (p :: ps) (escapePiece p ++ rest)

theorem Follows.append {ps : List Piece} {cs : List Char} (h : Follows ps cs) (front : List Piece) :
    Follows (front ++ ps) (front.flatMap escapePiece ++ cs) := by
  induction front with
  | nil => exact h
  | cons p front ih =>
    rw [List.flatMap_cons, List.append_assoc]
    exact .piece ih

theorem follows_quoted (ps : List Piece) : Follows ps (quoted ps) := by
  have h := Follows.whole.append ps
  rw [List.append_nil] at h
  exact h

theorem escapePiece_ne_nil (p : Piece) : escapePiece p ≠ [] := by
  have hstands := stands_escapePiece p
  intro hnil
  rw [hnil] at hstands
  nomatch hstands

theorem space_not_mem {p : Piece} (h : p ≠ .char ' ') : ' ' ∉ escapePiece p :=
  fun hmem => h (eq_char_of_mark (by decide) hmem).1

theorem escapePiece_digit {d : Char} (h : d.isDigit = true) : escapePiece (.char d) = [d] := by
  have hrange := toNat_of_isDigit h
  have hall : ∀ n < 0x40, 0x30 ≤ n → escapeChar (Char.ofNat n) = [Char.ofNat n] := by
    decide +kernel
  have hd := hall d.toNat (by omega) hrange.1
  rw [Char.ofNat_toNat] at hd
  exact hd

theorem toNat_of_isMark {q : Char} (h : isMark q = true) : q.toNat < 0x80 :=
  of_decide_eq_true (of_isMark (p := fun c => c.toNat < 0x80) (by decide) h)

/-- A digit in the place of a mark reads as something else. -/
theorem astray_digit {q d : Char} (hq : isMark q = true) (hd : d.isDigit = true) (ps : List Piece)
    (rest : List Char) : Astray (.char q :: ps) (d :: rest) := by
  have hother : (bytesOf (.char d)).head? ≠ (bytesOf (.char q)).head? := by
    intro hhead
    cases eq_char_of_head (p := .char d) trivial (toNat_of_isMark hq) hhead
    exact digit_ne_mark hd hq rfl
  have hastray := @Astray.other (.char q) (.char d) ps rest hother
  rw [escapePiece_digit hd] at hastray
  exact hastray

theorem astray_space {cs : List Char} {ps : List Piece} (h : Astray ps cs) :
    Astray (.char ' ' :: ps) (' ' :: cs) :=
  Astray.further (p := .char ' ') h

theorem astray_piece {p : Piece} (hp : Regular p) (hspace : p ≠ .char ' ') (ps : List Piece)
    (rest : List Char) : Astray (.char ' ' :: ps) (escapePiece p ++ rest) :=
  .other fun hhead => hspace (eq_char_of_head hp (by decide) hhead)

/-- After a space that is held back, no second one comes. -/
theorem Follows.astray_spaces {ps : List Piece} {cs : List Char} (h : Follows ps cs)
    (hps : ∀ p ∈ ps, Regular p) (others : List Piece) :
    Astray (.char ' ' :: .char ' ' :: others) (squeeze true cs) := by
  induction h with
  | whole => exact astray_space .closed
  | cut => exact .ended
  | @replaced q d ps rest hq hd =>
    rw [squeeze, if_neg (digit_ne_mark hd (by decide)), if_pos rfl]
    exact astray_space (astray_digit (by decide) hd others _)
  | @piece p ps rest h ih =>
    obtain ⟨hp, hrest⟩ := List.forall_mem_cons.mp hps
    by_cases hspace : p = .char ' '
    · subst hspace
      exact ih hrest
    · rw [squeeze_append (escapePiece_ne_nil p) (space_not_mem hspace)]
      exact astray_space (astray_piece hp hspace others _)

/-- A text that follows the quoted form is all of it and has no runs of spaces, or it goes astray
when its spaces are squeezed. -/
theorem Follows.kept_or_astray {ps : List Piece} {cs : List Char} (h : Follows ps cs)
    (hps : ∀ p ∈ ps, Regular p) :
    ((cs = quoted ps ∧ Tidy cs) ∨ Astray ps (squeeze false cs)) ∧
      ((cs = quoted ps ∧ Tidy (' ' :: cs)) ∨
        Astray (.char ' ' :: ps) (squeeze true cs)) := by
  -- Both states of the squeezing go together, as a space leads from the first to the second.
  induction h with
  | whole => exact ⟨.inl ⟨rfl, by decide⟩, .inl ⟨rfl, by decide⟩⟩
  | cut => exact ⟨.inr .ended, .inr .ended⟩
  | @replaced q d ps rest hq hd =>
    have hspace : d ≠ ' ' := digit_ne_mark hd (by decide)
    rw [squeeze, squeeze, if_neg hspace, if_neg hspace]
    exact ⟨.inr (astray_digit hq hd ps _), .inr (astray_space (astray_digit hq hd ps _))⟩
  | @piece p ps rest h ih =>
    obtain ⟨hp, hrest⟩ := List.forall_mem_cons.mp hps
    obtain ⟨hkept, hpending⟩ := ih hrest
    by_cases hspace : p = .char ' '
    · subst hspace
      refine ⟨?_, .inr (h.astray_spaces hrest ps)⟩
      rcases hpending with ⟨hall, htidy⟩ | hastray
      · exact .inl ⟨by rw [quoted_cons, hall], htidy⟩
      · exact .inr hastray
    · have hnone := space_not_mem hspace
      rw [squeeze_append (escapePiece_ne_nil p) hnone, squeeze_append (escapePiece_ne_nil p) hnone]
      rcases hkept with ⟨hall, htidy⟩ | hastray
      · have htidy := tidy_append hnone htidy
        refine ⟨.inl ⟨by rw [quoted_cons, hall], htidy⟩, .inl ⟨by rw [quoted_cons, hall], ?_⟩⟩
        cases hcs : escapePiece p with
        | nil => exact absurd hcs (escapePiece_ne_nil p)
        | cons c cs =>
          rw [hcs] at htidy hnone
          exact tidy_space_cons (fun hc => hnone (hc ▸ List.mem_cons_self)) htidy
      · exact ⟨.inr (.further hastray), .inr (astray_space (.further hastray))⟩

/-! ## What is left of the quoted form -/

/-- What is left of a text before a comment in it, without blanks at its end. -/
def uncommented (cs : List Char) : List Char := (Text.before ';' cs).rdropWhile Text.isBlank

/-- Printable text is kept or cut off at a mark. -/
theorem uncommented_cases {cs : List Char} (hprintable : ∀ c ∈ cs, Text.isPrintable c = true) :
    (uncommented cs = cs ∧ ';' ∉ cs) ∨
      ∃ m back, isMark m = true ∧ cs = uncommented cs ++ m :: back := by
  have hbefore : Text.before ';' cs ++ cs.dropWhile (· ≠ ';') = cs := List.takeWhile_append_dropWhile
  have hblanks : uncommented cs ++ (Text.before ';' cs).rtakeWhile Text.isBlank =
      Text.before ';' cs := List.rdropWhile_append_rtakeWhile
  cases htail : (Text.before ';' cs).rtakeWhile Text.isBlank with
  | cons b blanks =>
    have hb : b ∈ (Text.before ';' cs).rtakeWhile Text.isBlank := htail ▸ List.mem_cons_self
    have hmem : b ∈ cs := by
      rw [← hbefore, ← hblanks]
      exact List.mem_append_left _ (List.mem_append_right _ hb)
    obtain rfl := eq_space_of_isBlank (List.mem_rtakeWhile_imp hb) (hprintable b hmem)
    rw [htail] at hblanks
    refine .inr ⟨' ', blanks ++ cs.dropWhile (· ≠ ';'), by decide, ?_⟩
    rw [← List.cons_append, ← List.append_assoc, hblanks, hbefore]
  | nil =>
    rw [htail, List.append_nil] at hblanks
    rw [hblanks]
    cases hcomment : cs.dropWhile (· ≠ ';') with
    | nil =>
      rw [hcomment, List.append_nil] at hbefore
      refine .inl ⟨hbefore, fun hmem => ?_⟩
      rw [← hbefore] at hmem
      exact absurd (List.mem_takeWhile_imp hmem) (by decide)
    | cons m back =>
      have hm := List.head?_dropWhile_not (fun c : Char => decide (c ≠ ';')) cs
      rw [hcomment] at hm
      obtain rfl := of_not_not (of_decide_eq_false hm)
      exact .inr ⟨';', back, by decide, by rw [← hcomment, hbefore]⟩

theorem uncommented_eq_self {cs : List Char} (hcomment : ';' ∉ cs)
    (hlast : ∀ c ∈ cs.getLast?, Text.isBlank c = false) : uncommented cs = cs := by
  have hbefore : Text.before ';' cs = cs :=
    List.takeWhile_eq_self_iff.mpr fun c hc => decide_eq_true fun h => hcomment (h ▸ hc)
  unfold uncommented
  rw [hbefore]
  refine List.rdropWhile_eq_self_iff.mpr fun hne => ?_
  rw [hlast _ (List.getLast?_eq_some_getLast hne)]
  exact Bool.false_ne_true

theorem uncommented_cons {c : Char} (hcomment : c ≠ ';') (hblank : Text.isBlank c = false)
    (cs : List Char) : ∃ ds, uncommented (c :: cs) = c :: ds := by
  have hbefore : Text.before ';' (c :: cs) = c :: Text.before ';' cs :=
    List.takeWhile_cons_of_pos (decide_eq_true hcomment)
  have hne : uncommented (c :: cs) ≠ [] := by
    intro hnil
    have hall := List.rdropWhile_eq_nil_iff.mp hnil c (hbefore ▸ List.mem_cons_self)
    rw [hblank] at hall
    cases hall
  have hkept : uncommented (c :: cs) <+: c :: Text.before ';' cs := by
    rw [← hbefore]
    exact List.rdropWhile_prefix _ _
  obtain ⟨d, ds, hds⟩ := List.exists_cons_of_ne_nil hne
  rw [hds, List.cons_prefix_cons] at hkept
  exact ⟨ds, hkept.1 ▸ hds⟩

/-- A line counts up to its comment. -/
theorem stripped_append {c : Char} {front cs : List Char} (hfront : ';' ∉ c :: front)
    (hblank : Text.isBlank c = false) (hne : uncommented cs ≠ []) :
    stripped (c :: front ++ cs) = String.ofList (c :: front ++ uncommented cs) := by
  have hbefore : Text.before ';' (c :: front ++ cs) = c :: front ++ Text.before ';' cs :=
    List.takeWhile_append_of_pos fun d hd => decide_eq_true fun h => hfront (h ▸ hd)
  have hleft : (c :: front ++ Text.before ';' cs).dropWhile Text.isBlank =
      c :: front ++ Text.before ';' cs :=
    List.dropWhile_cons_of_neg (by rw [hblank]; exact Bool.false_ne_true)
  have hright : ((Text.before ';' cs).reverse.dropWhile Text.isBlank).isEmpty = false := by
    rw [List.isEmpty_eq_false_iff]
    exact fun hnil => hne (List.reverse_eq_nil_iff.mpr hnil)
  unfold stripped Text.trim
  rw [hbefore, hleft, List.reverse_append, List.dropWhile_append, hright, if_neg Bool.false_ne_true,
    List.reverse_append, List.reverse_reverse]
  rfl

/-- A text in quotes of which no part is taken for something else: nothing in it is a comment, a
quoted character with a code or an expression, and no space is lost between words. -/
structure Intact (cs : List Char) : Prop where
  comment : ';' ∉ cs
  settled : Settled cs
  tidy : Tidy cs

instance (cs : List Char) : Decidable (Intact cs) :=
  decidable_of_iff (';' ∉ cs ∧ Settled cs ∧ Tidy cs)
    ⟨fun h => ⟨h.1, h.2.1, h.2.2⟩, fun h => ⟨h.comment, h.settled, h.tidy⟩⟩

section Literal

variable {bytes : List UInt8} {equates : Table String} {ds : List Char}

/-- What comes of a literal is all of it, or it ends before a mark, or a mark is the first thing
that has changed in it. -/
theorem rewritten_literal_cases [Interpreter]
    (h : rewritten equates (uncommented (encode bytes).toList) = .ok ds) :
    (ds = (encode bytes).toList ∧ ';' ∉ (encode bytes).toList ∧ Settled (encode bytes).toList) ∨
      (∃ m back, isMark m = true ∧ (encode bytes).toList = ds ++ m :: back) ∨
      Overwrites (encode bytes).toList ds := by
  rcases uncommented_cases fun _ hc => isPrintable_of_mem_encode hc with
    ⟨hall, hcomment⟩ | ⟨m, back, hm, hcut⟩
  · rw [hall] at h
    rcases rewritten_cases h with ⟨hds, hsettled⟩ | hover
    · exact .inl ⟨hds, hcomment, hsettled⟩
    · exact .inr (.inr hover)
  · rcases rewritten_cases h with ⟨hds, -⟩ | hover
    · exact .inr (.inl ⟨m, back, hm, hds ▸ hcut⟩)
    · rw [hcut]
      exact .inr (.inr (hover.append _))

theorem split_literal {q : Char} {front back : List Char} (hq : isMark q = true)
    (h : (encode bytes).toList = front ++ q :: back) :
    ∃ before after, pieces bytes = before ++ .char q :: after ∧
      front = '"' :: before.flatMap escapePiece := by
  rw [toList_encode] at h
  cases front with
  | nil =>
    obtain ⟨rfl, -⟩ := List.cons.inj h
    cases hq
  | cons c front =>
    obtain ⟨rfl, hbody⟩ := List.cons.inj h
    obtain ⟨before, after, hps, rfl⟩ := split_at_mark hq hbody
    exact ⟨before, after, hps, rfl⟩

/-- What comes of a literal follows it. -/
theorem follows_of_rewritten [Interpreter]
    (h : rewritten equates (uncommented (encode bytes).toList) = .ok ds) :
    ∃ cs, ds = '"' :: cs ∧ Follows (pieces bytes) cs := by
  rcases rewritten_literal_cases h with
    ⟨rfl, -, -⟩ | ⟨m, back, hm, hcut⟩ | ⟨front, q, d, back, back', hq, hd, hold, rfl⟩
  · exact ⟨_, toList_encode bytes, follows_quoted _⟩
  · obtain ⟨before, after, hps, rfl⟩ := split_literal hm hcut
    refine ⟨_, rfl, ?_⟩
    rw [hps, ← List.append_nil (before.flatMap escapePiece)]
    exact Follows.cut.append before
  · obtain ⟨before, after, hps, rfl⟩ := split_literal hq hold
    refine ⟨_, rfl, ?_⟩
    rw [hps]
    exact (Follows.replaced hq hd).append before

theorem intact_of_rewritten [Interpreter]
    (h : rewritten equates (uncommented (encode bytes).toList) = .ok ds)
    (hds : ds = (encode bytes).toList) (htidy : Tidy ds) : Intact (encode bytes).toList := by
  rcases rewritten_literal_cases h with ⟨-, hcomment, hsettled⟩ | ⟨m, back, -, hcut⟩ | hover
  · exact ⟨hcomment, hsettled, hds ▸ htidy⟩
  · rw [← hds] at hcut
    exact absurd (List.self_eq_append_right.mp hcut) (List.cons_ne_nil m back)
  · exact absurd hds hover.ne

theorem Intact.rewritten_eq [Interpreter] (h : Intact (encode bytes).toList)
    (equates : Table String) :
    rewritten equates (uncommented (encode bytes).toList) = .ok (encode bytes).toList := by
  have hlast : ∀ c ∈ (encode bytes).toList.getLast?, Text.isBlank c = false := by
    rw [toList_encode, quoted, ← List.cons_append, List.getLast?_concat]
    rintro c hc
    cases hc
    decide
  rw [uncommented_eq_self h.comment hlast]
  exact h.settled.rewritten_eq equates

theorem intercalate_literal (h : Tidy (encode bytes).toList) :
    [' '].intercalate (Text.words (encode bytes).toList) = (encode bytes).toList := by
  rw [toList_encode] at h ⊢
  rw [intercalate_words (by decide), quoted, (squeeze_eq_self (by decide) _).1 h.tail]

/-- Exactly a literal that is intact is read as the text that it was made from. -/
theorem decode_rewritten_iff [Interpreter]
    (h : rewritten equates (uncommented (encode bytes).toList) = .ok ds) :
    decode ([' '].intercalate (Text.words ds)) = some bytes ↔ Intact (encode bytes).toList := by
  constructor
  · intro hdecode
    obtain ⟨cs, rfl, hfollows⟩ := follows_of_rewritten h
    rw [intercalate_words (by decide)] at hdecode
    rcases (hfollows.kept_or_astray (regular_pieces bytes)).1 with ⟨hall, htidy⟩ | hastray
    · exact intact_of_rewritten h (by rw [toList_encode, hall]) (tidy_cons (by decide) htidy)
    · exact absurd hdecode hastray.decode_ne
  · intro hintact
    rw [hintact.rewritten_eq] at h
    cases h
    rw [intercalate_literal hintact.tidy, decode_encode]

end Literal

/-! ## Reading the line -/

/-- A name that a constant can be given: a word of one line without marks. -/
structure IsName (name : String) : Prop where
  nonempty : name.toList ≠ []
  marks : ∀ c ∈ name.toList, isMark c = false
  line : '\n' ∉ name.toList

instance (name : String) : Decidable (IsName name) :=
  decidable_of_iff
    (name.toList ≠ [] ∧ name.toList.all (fun c => isMark c = false) = true ∧ '\n' ∉ name.toList)
    ⟨fun h => ⟨h.1, fun c hc => of_decide_eq_true (List.all_eq_true.mp h.2.1 c hc), h.2.2⟩,
      fun h => ⟨h.nonempty, List.all_eq_true.mpr fun c hc => decide_eq_true (h.marks c hc), h.line⟩⟩

/-- The line that defines a text constant. -/
def poolLine (name : String) (bytes : List UInt8) : String :=
  ".pool " ++ name ++ " str " ++ encode bytes

/-- What the line starts with, before the text. -/
def lead (name : String) : List Char := ".pool ".toList ++ (name.toList ++ " str ".toList)

/-- The constant that a literal in a source is taken for. -/
def constantAt [Interpreter] (equates : Table String) (literal : List Char) :
    Except AsmError PoolItem :=
  match rewritten equates (uncommented literal) with
  | .error e => .error e
  | .ok cs =>
    match decode ([' '].intercalate (Text.words cs)) with
    | some bytes => .ok (.text bytes)
    | none => .error .poolSyntax

theorem constantAt_eq_text_iff [Interpreter] (equates : Table String) (bytes : List UInt8) :
    constantAt equates (encode bytes).toList = .ok (.text bytes) ↔ Intact (encode bytes).toList := by
  constructor
  · intro h
    unfold constantAt at h
    split at h
    · cases h
    · rename_i hrewritten
      split at h
      · rename_i hdecode
        cases h
        exact (decode_rewritten_iff hrewritten).mp hdecode
      · cases h
  · intro hintact
    have hrewritten := hintact.rewritten_eq equates
    unfold constantAt
    rw [hrewritten]
    dsimp only
    rw [(decode_rewritten_iff hrewritten).mpr hintact]

section Line

variable {name : String} (hname : IsName name) {bytes : List UInt8}

theorem toList_poolLine : (poolLine name bytes).toList = lead name ++ (encode bytes).toList := by
  unfold poolLine lead
  rw [String.toList_append, String.toList_append, String.toList_append, List.append_assoc,
    List.append_assoc, List.append_assoc, List.append_assoc]

include hname

theorem IsName.not_mem_lead {c : Char} (hc : isMark c = true ∨ c = '\n') (hspace : c ≠ ' ') :
    c ∉ lead name := by
  have hfixed {cs : List Char}
      (h : cs.all (fun c => c = ' ' ∨ ¬ (isMark c = true ∨ c = '\n')) = true) (hmem : c ∈ cs) :
      False :=
    (of_decide_eq_true (List.all_eq_true.mp h c hmem)).elim hspace fun hnot => hnot hc
  intro hmem
  rcases List.mem_append.mp hmem with hmem | hmem
  · exact hfixed (by decide) hmem
  rcases List.mem_append.mp hmem with hmem | hmem
  · rcases hc with hc | rfl
    · rw [hname.marks c hmem] at hc
      cases hc
    · exact hname.line hmem
  · exact hfixed (by decide) hmem

theorem IsName.words_lead (cs : List Char) :
    (Text.words (lead name ++ cs)).map String.ofList =
      ".pool" :: name :: "str" :: (Text.words cs).map String.ofList := by
  have hspace : ' ' ∉ name.toList := by
    intro hmem
    cases hname.marks ' ' hmem
  have hparts : lead name ++ cs =
      ".pool".toList ++ ' ' :: (name.toList ++ ' ' :: ("str".toList ++ ' ' :: cs)) := by
    unfold lead
    rw [List.append_assoc, List.append_assoc]
    rfl
  rw [hparts, words_append, words_append, words_append, words_singleton (by decide) (by decide),
    words_singleton hname.nonempty hspace, words_singleton (by decide) (by decide)]
  simp

theorem IsName.stripped_poolLine :
    stripped (poolLine name bytes).toList =
      String.ofList (lead name ++ uncommented (encode bytes).toList) := by
  obtain ⟨ds, hds⟩ := uncommented_cons (c := '"') (by decide) (by decide) (quoted (pieces bytes))
  rw [← toList_encode] at hds
  rw [toList_poolLine]
  refine stripped_append (hname.not_mem_lead (.inl (by decide)) (by decide)) (by decide) ?_
  rw [hds]
  exact List.cons_ne_nil _ _

theorem IsName.readLines_poolLine (hfits : Fits (poolLine name bytes).toList) :
    Text.readLines (poolLine name bytes).toList = [(poolLine name bytes).toList] := by
  have hline : '\n' ∉ (poolLine name bytes).toList := by
    rw [toList_poolLine, List.mem_append]
    rintro (hmem | hmem)
    · exact hname.not_mem_lead (.inr rfl) (by decide) hmem
    · cases isPrintable_of_mem_encode hmem
  have hlast : (poolLine name bytes).toList.getLast? = some '"' := by
    rw [toList_poolLine, toList_encode, quoted, ← List.cons_append, ← List.append_assoc,
      List.getLast?_concat]
  have hne : (poolLine name bytes).toList ≠ [] := by
    intro hnil
    rw [hnil] at hlast
    cases hlast
  have hraw := rawLines_singleton hne hline
  have hreturn : Text.dropReturn (poolLine name bytes).toList = (poolLine name bytes).toList := by
    unfold Text.dropReturn
    rw [hlast]
    rfl
  rw [readLines_of_fits (by rw [hraw]; exact List.forall_mem_singleton.mpr hfits), hraw,
    List.map_singleton, hreturn]

end Line

/-! ## Assembling the line -/

/-- The number of the current line is an equate in every source. -/
theorem ne_lineEquate {a : Assembler} {name : String} (h : a.start.equates.find? name = none) :
    name ≠ lineEquate := by
  rintro rfl
  have hsome : (a.start.equates.find? lineEquate).isSome = true :=
    isSome_find?_insertAll (by decide) a.predefined.entries
  rw [h] at hsome
  cases hsome

/-- The assembly behind the definition of a constant. -/
def defined (s : Assembly) (name : String) (item : PoolItem) : Assembly :=
  { s with
    pool := (s.pool.intern item).1
    equates := s.equates.insert name (poolReference (s.pool.intern item).2) }

theorem defineConstant_of_new {name kind value : String} {more : List String} {s : Assembly}
    (hnew : s.equates.find? name = none) :
    defineConstant (name :: kind :: value :: more) s =
      match constantOf kind value more with
      | .ok item => .ok () (defined s name item)
      | .error e => .error e s := by
  rw [defineConstant, bind_of_ok (Lines.equate?_apply name s), hnew]
  cases constantOf kind value more with
  | ok item => rfl
  | error e => rfl

theorem constantOf_text {words : List (List Char)} {value : String} {more : List String}
    (h : words.map String.ofList = value :: more) :
    constantOf "str" value more =
      match decode ([' '].intercalate words) with
      | some bytes => .ok (.text bytes)
      | none => .error .poolSyntax := by
  have hjoined : (" ".intercalate (value :: more)).toList = [' '].intercalate words := by
    rw [← h, String.toList_intercalate, List.map_map]
    simp [Function.comp_def]
  rw [← hjoined]
  unfold constantOf
  exact (if_neg (by decide)).trans ((if_neg (by decide)).trans (if_pos rfl))

section Source

variable {name : String} (hname : IsName name) (bytes : List UInt8)

/-- The assembly in which the words of a line are looked at. -/
def onLine (s : Assembly) (number : Nat) : Assembly :=
  { s with equates := s.equates.insert lineEquate (Numeral.decimalNat number) }

include hname

variable [Interpreter]

theorem IsName.wordsOf_poolLine (equates : Table String) :
    wordsOf equates (stripped (poolLine name bytes).toList) =
      (rewritten equates (uncommented (encode bytes).toList)).map
        fun cs => ".pool" :: name :: "str" :: (Text.words cs).map String.ofList := by
  rw [hname.stripped_poolLine, wordsOf_eq, String.toList_ofList,
    rewritten_append equates (hname.not_mem_lead (.inl (by decide)) (by decide))
      (hname.not_mem_lead (.inl (by decide)) (by decide))]
  cases rewritten equates (uncommented (encode bytes).toList) with
  | error e => rfl
  | ok cs => exact congrArg Except.ok (hname.words_lead cs)

theorem IsName.readLine_poolLine (depth number : Nat) {s : Assembly}
    (hnew : (onLine s number).equates.find? name = none) :
    readLine depth number (stripped (poolLine name bytes).toList) s =
      match constantAt (onLine s number).equates (encode bytes).toList with
      | .ok item => .ok [] (defined (onLine s number) name item)
      | .error e => .error e (onLine s number) := by
  obtain ⟨nested, hnested⟩ := exists_readLineWith depth
  have hset : setEquate lineEquate (Numeral.decimalNat number) s = .ok () (onLine s number) := rfl
  rw [hnested]
  unfold readLineWith
  rw [bind_of_ok hset, get_bind_apply, hname.wordsOf_poolLine]
  unfold constantAt
  cases hrewritten : rewritten (onLine s number).equates (uncommented (encode bytes).toList) with
  | error e => rfl
  | ok ds =>
    obtain ⟨cs, rfl, -⟩ := follows_of_rewritten hrewritten
    obtain ⟨value, more, hwords⟩ : ∃ value more,
        (Text.words ('"' :: cs)).map String.ofList = value :: more := by
      refine List.exists_cons_of_ne_nil fun hnil => ?_
      have hjoined := intercalate_words (c := '"') (by decide) cs
      rw [List.map_eq_nil_iff.mp hnil] at hjoined
      cases hjoined
    rw [Except.map, hwords]
    dsimp only
    rw [if_neg (by decide), if_pos rfl]
    have hdefine := @defineConstant_of_new name "str" value more _ hnew
    rw [constantOf_text hwords] at hdefine
    cases hdecode : decode ([' '].intercalate (Text.words ('"' :: cs))) with
    | none =>
      rw [hdecode] at hdefine
      rw [bind_of_error hdefine]
    | some found =>
      rw [hdecode] at hdefine
      rw [bind_of_ok hdefine]
      rfl

theorem IsName.takeLine_poolLine (number : Nat) {s : Assembly}
    (hnew : (onLine s number).equates.find? name = none) :
    takeLine number (stripped (poolLine name bytes).toList) none s =
      match constantAt (onLine s number).equates (encode bytes).toList with
      | .ok item => .ok none (defined (onLine s number) name item)
      | .error e => .error e (onLine s number) := by
  have hwords := hname.words_lead (uncommented (encode bytes).toList)
  rw [← String.toList_ofList (l := lead name ++ _), ← hname.stripped_poolLine] at hwords
  have hread := hname.readLine_poolLine bytes macroDepthLimit number hnew
  have hcode {directive : String} (hne : ".pool" ≠ directive) (rest : List String) :
      (Text.words (stripped (poolLine name bytes).toList).toList).map String.ofList ≠
        directive :: rest := by
    rw [hwords]
    exact fun heq => hne (List.cons.inj heq).1
  rw [takeLine_of_code (hcode (by decide)) (hcode (by decide))]
  cases hconstant : constantAt (onLine s number).equates (encode bytes).toList with
  | error e =>
    rw [hconstant] at hread
    rw [bind_of_error hread]
  | ok item =>
    rw [hconstant] at hread
    rw [bind_of_ok hread]
    rfl

theorem IsName.takeLines_poolLine (hfits : Fits (poolLine name bytes).toList) {s : Assembly}
    (hnew : (onLine s 1).equates.find? name = none) :
    takeLines 1 "" none (Text.readLines (poolLine name bytes).toList) s =
      match constantAt (onLine s 1).equates (encode bytes).toList with
      | .ok item =>
        .ok () (defined (onLine (noted s 1 (poolLine name bytes).toList) 1) name item)
      | .error e =>
        .error (.located 1 (stripped (poolLine name bytes).toList) e)
          (onLine (noted s 1 (poolLine name bytes).toList) 1) := by
  have hline := hname.takeLine_poolLine bytes 1 (s := noted s 1 (poolLine name bytes).toList) hnew
  have hequates : (onLine (noted s 1 (poolLine name bytes).toList) 1).equates =
      (onLine s 1).equates := rfl
  rw [hequates] at hline
  rw [hname.readLines_poolLine hfits, takeLines_cons_apply]
  cases hconstant : constantAt (onLine s 1).equates (encode bytes).toList with
  | error e =>
    rw [hconstant] at hline
    rw [bind_of_error (wrapping_of_error hline)]
  | ok item =>
    rw [hconstant] at hline
    rw [bind_of_ok (wrapping_of_ok hline)]
    rfl

/-- A source that defines a text constant is assembled to a program with one constant, if its
literal can be read. -/
theorem IsName.parse_poolLine {a : Assembler} (hnew : a.start.equates.find? name = none)
    (hfits : Fits (poolLine name bytes).toList) :
    (a.parse (poolLine name bytes)).2 =
      match constantAt (onLine a.start 1).equates (encode bytes).toList with
      | .ok item => .ok { origin := a.origin, pool := ⟨#[item]⟩ }
      | .error e => .error (.located 1 (stripped (poolLine name bytes).toList) e) := by
  have hother : (onLine a.start 1).equates.find? name = none := by
    rw [onLine, find?_insert, if_neg (ne_lineEquate hnew), hnew]
  have hread := hname.takeLines_poolLine bytes hfits hother
  cases hconstant : constantAt (onLine a.start 1).equates (encode bytes).toList with
  | error e =>
    rw [hconstant] at hread
    unfold Assembler.parse source
    rw [bind_of_error hread]
  | ok item =>
    rw [hconstant] at hread
    have hpool : (a.start.pool.intern item).1 = ⟨#[item]⟩ := congrArg Prod.fst (intern_empty item)
    rw [parse_of_read hread]
    dsimp only
    rw [← hpool]
    rfl

end Source

/-- A text reaches the pool by its quoted form exactly if that is intact: it has no semicolon, no
two spaces in a row, and in it no quoted character and no expression that is replaced. -/
theorem text_reaches_pool_iff_intact [Interpreter] (a : Assembler) (bytes : List UInt8)
    (name : String) (hname : IsName name) (hnew : a.start.equates.find? name = none)
    (hfits : Fits (poolLine name bytes).toList) :
    (∃ p, (a.parse (poolLine name bytes)).2 = .ok p ∧ p.pool = ⟨#[.text bytes]⟩) ↔
      Intact (encode bytes).toList := by
  rw [hname.parse_poolLine bytes hnew hfits,
    ← constantAt_eq_text_iff (onLine a.start 1).equates bytes]
  constructor
  · rintro ⟨p, hp, hpool⟩
    cases hconstant : constantAt (onLine a.start 1).equates (encode bytes).toList with
    | error e =>
      rw [hconstant] at hp
      cases hp
    | ok item =>
      rw [hconstant] at hp
      cases hp
      cases hpool
      rfl
  · intro hconstant
    rw [hconstant]
    exact ⟨_, rfl, rfl⟩

/-- A single space between two words does no harm. -/
theorem text_reaches_pool_spaced :
    IsName "MSG" ∧ ({} : Assembler).start.equates.find? "MSG" = none ∧
      Fits (poolLine "MSG" (Text.Utf8.encode "hi there".toList)).toList ∧
      ∃ p, (({} : Assembler).parse (poolLine "MSG" (Text.Utf8.encode "hi there".toList))).2 = .ok p ∧
        p.pool = ⟨#[.text (Text.Utf8.encode "hi there".toList)]⟩ := by
  have hname : IsName "MSG" := by decide
  have hnew : ({} : Assembler).start.equates.find? "MSG" = none := by decide
  have hfits : Fits (poolLine "MSG" (Text.Utf8.encode "hi there".toList)).toList := by decide +kernel
  have hintact : Intact (encode (Text.Utf8.encode "hi there".toList)).toList := by decide +kernel
  exact ⟨hname, hnew, hfits, (text_reaches_pool_iff_intact {} _ "MSG" hname hnew hfits).mpr hintact⟩

/-- Of two spaces in a row only one reaches the pool. -/
theorem text_squeezed_in_pool :
    IsName "X" ∧ ({} : Assembler).start.equates.find? "X" = none ∧
      Fits (poolLine "X" (Text.Utf8.encode "a  b".toList)).toList ∧
      ∃ p, (({} : Assembler).parse (poolLine "X" (Text.Utf8.encode "a  b".toList))).2 = .ok p ∧
        p.pool = ⟨#[.text (Text.Utf8.encode "a b".toList)]⟩ ∧
        p.pool ≠ ⟨#[.text (Text.Utf8.encode "a  b".toList)]⟩ := by
  refine ⟨by decide, by decide, by decide +kernel, { origin := 0, pool := ⟨#[_]⟩ }, ?_, rfl, ?_⟩
  · decide +kernel
  · decide +kernel

end TaskMachine.TextConstants
