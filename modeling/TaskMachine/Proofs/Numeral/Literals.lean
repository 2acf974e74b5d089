import Mathlib.Data.Nat.Digits.Defs
import TaskMachine.Proofs.Numeral.Spelling

/-!
# The grammar of integer literals

A literal is read digit by digit, and its underscores are looked at in a second
pass over it. Here the literals are described by a grammar instead: which
characters are the digits of a base, where an underscore may stand, how the base
is marked, and which number the digits stand for. The reader accepts the literals
of the grammar up to its bound, with these numbers, and nothing else.
-/

namespace TaskMachine.Literals

open Numeral

/-! ## The grammar -/

/-- The character is the digit with the given value, as a small or a capital letter from ten on. -/
def IsDigit (base : Nat) (c : Char) (d : Nat) : Prop :=
  d < base ∧ (c = Nat.digitChar d ∨ c = (Nat.digitChar d).toUpper)

/-- Digits of a base, the highest first. There may be an underscore before each of them. -/
inductive Spells (base : Nat) : List Char → List Nat → Prop
  | nil : Spells base [] []
  | digit {c : Char} {d : Nat} {cs : List Char} {ds : List Nat} (first : IsDigit base c d)
    (rest : Spells base cs ds) : Spells base (c :: cs) (d :: ds)
  | separated {c : Char} {d : Nat} {cs : List Char} {ds : List Nat} (first : IsDigit base c d)
    (rest : Spells base cs ds) : Spells base ('_' :: c :: cs) (d :: ds)

/-- The letter behind a leading zero that marks a base. -/
inductive Marks : Char → Nat → Prop
  | b : Marks 'b' 2
  | B : Marks 'B' 2
  | o : Marks 'o' 8
  | O : Marks 'O' 8
  | x : Marks 'x' 16
  | X : Marks 'X' 16

/-- The number with given digits, the highest first. -/
def value (base : Nat) (ds : List Nat) : Nat := Nat.ofDigits base ds.reverse

/-- An unsigned literal and its number: a decimal one begins with a digit other than zero, an octal
one with a zero, and any other with a zero and the mark of its base, behind which there must be a
digit. -/
inductive Literal : List Char → Nat → Prop
  | decimal {c : Char} {d : Nat} {cs : List Char} {ds : List Nat} (first : IsDigit 10 c d)
    (nonzero : d ≠ 0) (rest : Spells 10 cs ds) : Literal (c :: cs) (value 10 (d :: ds))
  | octal {cs : List Char} {ds : List Nat} (digits : Spells 8 cs ds) :
    Literal ('0' :: cs) (value 8 ds)
  | marked {m : Char} {base : Nat} {cs : List Char} {ds : List Nat} (mark : Marks m base)
    (digits : Spells base cs ds) (nonempty : ds ≠ []) : Literal ('0' :: m :: cs) (value base ds)

/-- An integer: a literal behind at most one sign. -/
inductive Integer : List Char → Int → Prop
  | plain {cs : List Char} {n : Nat} (literal : Literal cs n) : Integer cs n
  | plus {cs : List Char} {n : Nat} (literal : Literal cs n) : Integer ('+' :: cs) n
  | minus {cs : List Char} {n : Nat} (literal : Literal cs n) : Integer ('-' :: cs) (-n)

/-! ## Digits -/

theorem digitValue?_digitChar : ∀ d < 16, digitValue? (Nat.digitChar d) = some d ∧
    digitValue? (Nat.digitChar d).toUpper = some d := by
  decide

theorem eq_of_digitValue? {c : Char} {d : Nat} (hd : d < 16) (h : digitValue? c = some d) :
    c = Nat.digitChar d ∨ c = (Nat.digitChar d).toUpper := by
  have hdecimal : ∀ k < 10, Char.ofNat (48 + k) = Nat.digitChar k := by decide
  have hsmall : ∀ k < 6, Char.ofNat (97 + k) = Nat.digitChar (k + 10) := by decide
  have hcapital : ∀ k < 6, Char.ofNat (65 + k) = (Nat.digitChar (k + 10)).toUpper := by decide
  have hc : c = Char.ofNat c.toNat := (Char.ofNat_toNat c).symm
  unfold digitValue? at h
  split at h
  · rename_i hrange
    obtain ⟨hlow, hhigh⟩ : 48 ≤ c.toNat ∧ c.toNat ≤ 57 := hrange
    obtain rfl : c.toNat - 48 = d := Option.some.inj h
    refine .inl (hc.trans ?_)
    rw [← hdecimal _ (by omega), Nat.add_sub_of_le hlow]
  · split at h
    · rename_i hrange
      obtain ⟨hlow, hhigh⟩ : 97 ≤ c.toNat ∧ c.toNat ≤ 122 := hrange
      obtain rfl : c.toNat - 97 + 10 = d := Option.some.inj h
      refine .inl (hc.trans ?_)
      rw [← hsmall _ (by omega), Nat.add_sub_of_le hlow]
    · split at h
      · rename_i hrange
        obtain ⟨hlow, hhigh⟩ : 65 ≤ c.toNat ∧ c.toNat ≤ 90 := hrange
        obtain rfl : c.toNat - 65 + 10 = d := Option.some.inj h
        refine .inr (hc.trans ?_)
        rw [← hcapital _ (by omega), Nat.add_sub_of_le hlow]
      · cases h

section Base

variable {base : Nat} (hbase : base ≤ 16)

include hbase

theorem isDigit_iff (c : Char) (d : Nat) :
    IsDigit base c d ↔ digitValue? c = some d ∧ d < base := by
  constructor
  · rintro ⟨hd, rfl | rfl⟩
    · exact ⟨(digitValue?_digitChar d (by omega)).1, hd⟩
    · exact ⟨(digitValue?_digitChar d (by omega)).2, hd⟩
  · rintro ⟨hvalue, hd⟩
    exact ⟨hd, eq_of_digitValue? (by omega) hvalue⟩

theorem IsDigit.ne_underscore {c : Char} {d : Nat} (h : IsDigit base c d) : c ≠ '_' := by
  rintro rfl
  cases ((isDigit_iff hbase _ _).mp h).1

end Base

/-- What the look at underscores takes for a digit. -/
def CountsAsDigit (hex : Bool) (c : Char) : Prop :=
  ('0' ≤ c ∧ c ≤ '9') ∨ (hex = true ∧ (('a' ≤ c ∧ c ≤ 'f') ∨ ('A' ≤ c ∧ c ≤ 'F')))

instance (hex : Bool) (c : Char) : Decidable (CountsAsDigit hex c) :=
  inferInstanceAs (Decidable (_ ∨ _))

/-- The digits of the base are taken for digits. -/
def Suits (hex : Bool) (base : Nat) : Prop := base ≤ 10 ∨ base ≤ 16 ∧ hex = true

theorem Suits.le {hex : Bool} {base : Nat} (h : Suits hex base) : base ≤ 16 := by
  rcases h with h | ⟨h, -⟩ <;> omega

theorem Suits.counts {hex : Bool} {base : Nat} (h : Suits hex base) {c : Char} {d : Nat}
    (hdigit : IsDigit base c d) : CountsAsDigit hex c := by
  have hdecimal : ∀ hex, ∀ d < 10, CountsAsDigit hex (Nat.digitChar d) ∧
      CountsAsDigit hex (Nat.digitChar d).toUpper := by decide
  have hall : ∀ d < 16, CountsAsDigit true (Nat.digitChar d) ∧
      CountsAsDigit true (Nat.digitChar d).toUpper := by decide
  obtain ⟨hd, hc⟩ := hdigit
  rcases h with hbase | ⟨hbase, rfl⟩
  · obtain ⟨hsmall, hcapital⟩ := hdecimal hex d (by omega)
    rcases hc with rfl | rfl
    · exact hsmall
    · exact hcapital
  · obtain ⟨hsmall, hcapital⟩ := hall d (by omega)
    rcases hc with rfl | rfl
    · exact hsmall
    · exact hcapital

theorem separates_digit {hex : Bool} {c : Char} (h : CountsAsDigit hex c) (before : Before)
    (cs : List Char) : separates hex before (c :: cs) = separates hex .digit cs := by
  rw [separates]
  exact if_pos h

theorem separates_underscore (hex : Bool) (before : Before) (cs : List Char) :
    separates hex before ('_' :: cs) = (decide (before = .digit) && separates hex .underscore cs) := by
  have hnot : ¬ CountsAsDigit hex '_' := by cases hex <;> decide
  rw [separates]
  exact (if_neg hnot).trans (if_pos rfl)

/-! ## Reading digits -/

theorem value_eq_foldl (base : Nat) (ds : List Nat) :
    value base ds = ds.foldl (fun n d => n * base + d) 0 := by
  unfold value
  rw [Nat.ofDigits_eq_foldr, List.foldr_reverse]
  congr 1
  funext n d
  rw [Nat.cast_id, Nat.mul_comm, Nat.add_comm]

/-- Reading further digits makes a number no smaller. -/
theorem le_foldl {base : Nat} (hbase : 0 < base) (ds : List Nat) (n : Nat) :
    n ≤ ds.foldl (fun n d => n * base + d) n := by
  induction ds generalizing n with
  | nil => exact Nat.le_refl n
  | cons d ds ih =>
    calc n ≤ n * base := Nat.le_mul_of_pos_right n hbase
      _ ≤ n * base + d := Nat.le_add_right _ _
      _ ≤ _ := ih _

theorem readDigits_digit {base bound n d : Nat} {c : Char} (hbase : base ≤ 16)
    (hdigit : IsDigit base c d) (cs : List Char) :
    readDigits base bound (c :: cs) n =
      if bound < n * base + d then .error .outOfRange else readDigits base bound cs (n * base + d) := by
  obtain ⟨hvalue, hd⟩ := (isDigit_iff hbase c d).mp hdigit
  rw [readDigits, if_neg (hdigit.ne_underscore hbase), hvalue]
  exact if_neg (Nat.not_le.mpr hd)

theorem readDigits_underscore (base bound n : Nat) (cs : List Char) :
    readDigits base bound ('_' :: cs) n = readDigits base bound cs n := by
  rw [readDigits, if_pos rfl]

theorem isDigit_of_readDigits {base bound n m : Nat} (hbase : base ≤ 16) {c : Char}
    {cs : List Char} (hc : c ≠ '_') (h : readDigits base bound (c :: cs) n = .ok m) :
    ∃ d, IsDigit base c d ∧ n * base + d ≤ bound ∧
      readDigits base bound cs (n * base + d) = .ok m := by
  rw [readDigits, if_neg hc] at h
  cases hvalue : digitValue? c with
  | none =>
    rw [hvalue] at h
    cases h
  | some d =>
    rw [hvalue] at h
    dsimp only at h
    split at h
    · cases h
    · rename_i hd
      split at h
      · cases h
      · rename_i hbound
        exact ⟨d, (isDigit_iff hbase c d).mpr ⟨hvalue, by omega⟩, by omega, h⟩

section Reading

variable {hex : Bool} {base : Nat} (hsuits : Suits hex base)

include hsuits

/-- What is read is spelled by the grammar, if the underscores stand in allowed places. An underscore
and the digit behind it are taken together. -/
theorem spells_of_readDigits {bound m : Nat} :
    ∀ (cs : List Char) (n : Nat), n ≤ bound → readDigits base bound cs n = .ok m →
      ('_' ∈ cs → separates hex .digit cs = true) →
      m ≤ bound ∧ ∃ ds, Spells base cs ds ∧ ds.foldl (fun n d => n * base + d) n = m
  | [], n, hn, hread, _ => by
    cases hread
    exact ⟨hn, [], .nil, rfl⟩
  | c :: cs, n, hn, hread, hseparates => by
    by_cases hc : c = '_'
    · subst hc
      have hbehind := hseparates List.mem_cons_self
      rw [separates_underscore] at hbehind
      rw [readDigits_underscore] at hread
      match cs with
      | [] => cases hbehind
      | '_' :: cs =>
        rw [separates_underscore] at hbehind
        cases hbehind
      | c :: cs =>
        by_cases hc : c = '_'
        · subst hc
          rw [separates_underscore] at hbehind
          cases hbehind
        · obtain ⟨d, hdigit, hbound, hrest⟩ := isDigit_of_readDigits hsuits.le hc hread
          rw [separates_digit (hsuits.counts hdigit)] at hbehind
          obtain ⟨hm, ds, hds, hvalue⟩ :=
            spells_of_readDigits cs (n * base + d) hbound hrest fun _ => hbehind
          exact ⟨hm, d :: ds, .separated hdigit hds, hvalue⟩
    · obtain ⟨d, hdigit, hbound, hrest⟩ := isDigit_of_readDigits hsuits.le hc hread
      rw [separates_digit (hsuits.counts hdigit)] at hseparates
      obtain ⟨hm, ds, hds, hvalue⟩ := spells_of_readDigits cs (n * base + d) hbound hrest
        fun hmem => hseparates (List.mem_cons_of_mem c hmem)
      exact ⟨hm, d :: ds, .digit hdigit hds, hvalue⟩

theorem separates_of_spells {cs : List Char} {ds : List Nat} (h : Spells base cs ds) :
    separates hex .digit cs = true := by
  induction h with
  | nil => rfl
  | digit hdigit _ ih =>
    rw [separates_digit (hsuits.counts hdigit)]
    exact ih
  | separated hdigit _ ih =>
    rw [separates_underscore, separates_digit (hsuits.counts hdigit)]
    exact ih

theorem readDigits_of_spells (hpos : 0 < base) {bound : Nat} {cs : List Char} {ds : List Nat}
    (h : Spells base cs ds) (n : Nat) (hbound : ds.foldl (fun n d => n * base + d) n ≤ bound) :
    readDigits base bound cs n = .ok (ds.foldl (fun n d => n * base + d) n) := by
  induction h generalizing n with
  | nil => rfl
  | @digit c d cs ds hdigit _ ih =>
    have hfirst := le_foldl hpos ds (n * base + d)
    rw [List.foldl_cons] at hbound ⊢
    rw [readDigits_digit hsuits.le hdigit, if_neg (by omega)]
    exact ih _ hbound
  | @separated c d cs ds hdigit _ ih =>
    have hfirst := le_foldl hpos ds (n * base + d)
    rw [List.foldl_cons] at hbound ⊢
    rw [readDigits_underscore, readDigits_digit hsuits.le hdigit, if_neg (by omega)]
    exact ih _ hbound

/-- The digits that are read are those that the grammar has. -/
theorem readDigits_iff (hpos : 0 < base) (bound n : Nat) (cs : List Char) :
    (readDigits base bound cs 0 = .ok n ∧ ('_' ∈ cs → separates hex .digit cs = true)) ↔
      ∃ ds, Spells base cs ds ∧ value base ds = n ∧ n ≤ bound := by
  constructor
  · rintro ⟨hread, hseparates⟩
    obtain ⟨hbound, ds, hds, hvalue⟩ :=
      spells_of_readDigits hsuits cs 0 (Nat.zero_le _) hread hseparates
    exact ⟨ds, hds, (value_eq_foldl base ds).trans hvalue, hbound⟩
  · rintro ⟨ds, hds, rfl, hbound⟩
    rw [value_eq_foldl] at hbound ⊢
    exact ⟨readDigits_of_spells hsuits hpos hds 0 hbound,
      fun _ => separates_of_spells hsuits hds⟩

end Reading

/-! ## Literals -/

theorem unsignedLiteral_eq_ok_iff {bound n : Nat} {cs : List Char} :
    unsignedLiteral bound cs = .ok n ↔ cs ≠ [] ∧
      readDigits (splitBase cs).1 bound (splitBase cs).2 0 = .ok n ∧
      ('_' ∈ cs → underscoresSeparate cs = true) := by
  unfold unsignedLiteral
  by_cases hnil : cs = []
  · rw [if_pos hnil]
    exact iff_of_false nofun fun h => h.1 hnil
  · rw [if_neg hnil, and_iff_right hnil]
    dsimp only
    cases readDigits (splitBase cs).1 bound (splitBase cs).2 0 with
    | error e => exact iff_of_false nofun fun h => nomatch h.1
    | ok m =>
      dsimp only
      by_cases hmem : '_' ∈ cs
      · rw [List.contains_iff_mem.mpr hmem]
        cases underscoresSeparate cs <;> simp [hmem]
      · have hcontains : cs.contains '_' = false := by simpa using hmem
        rw [hcontains]
        simp [hmem]

theorem splitBase_marked {m : Char} {base : Nat} (h : Marks m base) {cs : List Char}
    (hcs : cs ≠ []) : splitBase ('0' :: m :: cs) = (base, cs) := by
  obtain ⟨d, cs, rfl⟩ := List.exists_cons_of_ne_nil hcs
  cases h <;> rfl

theorem underscoresSeparate_marked {m : Char} {base : Nat} (h : Marks m base) (cs : List Char) :
    underscoresSeparate ('0' :: m :: cs) = separates (decide (base = 16)) .digit cs := by
  cases h <;> rfl

theorem Marks.suits {m : Char} {base : Nat} (h : Marks m base) :
    Suits (decide (base = 16)) base ∧ 0 < base ∧ m ≠ '_' := by
  cases h <;> exact ⟨by unfold Suits; decide, by decide, by decide⟩

/-- A second character that marks no base is a digit like those behind it. -/
theorem splitBase_zero {cs : List Char} (h : ∀ m base, Marks m base → cs.head? ≠ some m) :
    splitBase ('0' :: cs) = (8, cs) ∧
      underscoresSeparate ('0' :: cs) = separates false .digit cs := by
  match cs with
  | [] => exact ⟨rfl, rfl⟩
  | m :: cs =>
    have hmark (c : Char) (base : Nat) (hc : Marks c base) : m ≠ c := fun heq =>
      h c base hc (congrArg some heq)
    have hb : ¬ (m = 'b' ∨ m = 'B') := not_or.mpr ⟨hmark _ _ .b, hmark _ _ .B⟩
    have ho : ¬ (m = 'o' ∨ m = 'O') := not_or.mpr ⟨hmark _ _ .o, hmark _ _ .O⟩
    have hx : ¬ (m = 'x' ∨ m = 'X') := not_or.mpr ⟨hmark _ _ .x, hmark _ _ .X⟩
    constructor
    · cases cs with
      | nil => rfl
      | cons c cs => rw [splitBase, if_neg hb, if_neg ho, if_neg hx]
    · have hbo : ¬ (m = 'b' ∨ m = 'B' ∨ m = 'o' ∨ m = 'O') :=
        fun hm => (or_assoc.mpr hm).elim hb ho
      rw [underscoresSeparate, if_neg hx, if_neg hbo]
      exact separates_digit (.inl (by decide)) .start (m :: cs)

/-- Octal digits begin with no mark of a base. -/
theorem Spells.head?_ne {cs : List Char} {ds : List Nat} (h : Spells 8 cs ds) {m : Char}
    {base : Nat} (hm : Marks m base) : cs.head? ≠ some m := by
  intro hhead
  cases h with
  | nil => cases hhead
  | separated _ _ => cases hhead; cases hm
  | digit hdigit _ =>
    cases hhead
    obtain ⟨hvalue, hd⟩ := (isDigit_iff (by decide) _ _).mp hdigit
    cases hm <;> (cases hvalue; exact absurd hd (by decide))

theorem Spells.eq_nil {base : Nat} {cs : List Char} (h : Spells base cs []) : cs = [] := by
  cases h
  rfl

/-- How a literal is read once its base is known. -/
theorem unsignedLiteral_of_split {hex : Bool} {base : Nat} {cs rest : List Char}
    (hsuits : Suits hex base) (hpos : 0 < base) (hne : cs ≠ [])
    (hsplit : splitBase cs = (base, rest))
    (hseparates : underscoresSeparate cs = separates hex .digit rest)
    (hmem : '_' ∈ cs ↔ '_' ∈ rest) (bound n : Nat) :
    unsignedLiteral bound cs = .ok n ↔ ∃ ds, Spells base rest ds ∧ value base ds = n ∧ n ≤ bound := by
  rw [unsignedLiteral_eq_ok_iff, hsplit, hseparates, hmem, and_iff_right hne]
  exact readDigits_iff hsuits hpos bound n rest

theorem unsignedLiteral_marked {m : Char} {base : Nat} (h : Marks m base) {cs : List Char}
    (hcs : cs ≠ []) (bound n : Nat) :
    unsignedLiteral bound ('0' :: m :: cs) = .ok n ↔
      ∃ ds, Spells base cs ds ∧ value base ds = n ∧ n ≤ bound := by
  obtain ⟨hsuits, hpos, hm⟩ := h.suits
  refine unsignedLiteral_of_split hsuits hpos (List.cons_ne_nil _ _) (splitBase_marked h hcs)
    (underscoresSeparate_marked h cs) ?_ bound n
  rw [List.mem_cons, List.mem_cons, or_iff_right (by decide), or_iff_right (Ne.symm hm)]

theorem unsignedLiteral_zero {cs : List Char}
    (h : ∀ m base, Marks m base → cs.head? ≠ some m) (bound n : Nat) :
    unsignedLiteral bound ('0' :: cs) = .ok n ↔
      ∃ ds, Spells 8 cs ds ∧ value 8 ds = n ∧ n ≤ bound := by
  obtain ⟨hsplit, hseparates⟩ := splitBase_zero h
  refine unsignedLiteral_of_split (.inl (by decide)) (by decide) (List.cons_ne_nil _ _) hsplit
    hseparates ?_ bound n
  rw [List.mem_cons, or_iff_right (by decide)]

/-- A mark without digits behind it is no octal digit. -/
theorem unsignedLiteral_mark_ne {m : Char} {base : Nat} (h : Marks m base) (bound n : Nat) :
    unsignedLiteral bound ['0', m] ≠ .ok n := by
  intro hread
  obtain ⟨-, hdigits, -⟩ := unsignedLiteral_eq_ok_iff.mp hread
  have hsplit : splitBase ['0', m] = (8, [m]) := rfl
  rw [hsplit] at hdigits
  obtain ⟨d, hdigit, -⟩ :=
    isDigit_of_readDigits (show 8 ≤ 16 by decide) h.suits.2.2 hdigits
  exact (Spells.digit hdigit .nil).head?_ne h rfl

theorem splitBase_of_ne {c : Char} (hc : c ≠ '0') (cs : List Char) :
    splitBase (c :: cs) = (10, c :: cs) := by
  unfold splitBase
  split
  · rename_i heq
    exact absurd (List.cons.inj heq).1 hc
  · rename_i heq
    exact absurd (List.cons.inj heq).1 hc
  · rfl

theorem underscoresSeparate_of_ne {c : Char} (hc : c ≠ '0') (cs : List Char) :
    underscoresSeparate (c :: cs) = separates false .start (c :: cs) := by
  unfold underscoresSeparate
  split
  · rename_i heq
    exact absurd (List.cons.inj heq).1 hc
  · rfl

theorem unsignedLiteral_decimal {c : Char} {d : Nat} (hc : c ≠ '0') (hdigit : IsDigit 10 c d)
    (cs : List Char) (bound n : Nat) :
    unsignedLiteral bound (c :: cs) = .ok n ↔
      ∃ ds, Spells 10 (c :: cs) ds ∧ value 10 ds = n ∧ n ≤ bound := by
  have hsuits : Suits false 10 := .inl (by decide)
  have hcounts := hsuits.counts hdigit
  refine unsignedLiteral_of_split hsuits (by decide) (List.cons_ne_nil _ _) (splitBase_of_ne hc cs)
    ?_ Iff.rfl bound n
  rw [underscoresSeparate_of_ne hc, separates_digit hcounts, separates_digit hcounts]

theorem IsDigit.ne_zero {c : Char} {d : Nat} (h : IsDigit 10 c d) (hd : d ≠ 0) : c ≠ '0' := by
  rintro rfl
  cases ((isDigit_iff (by decide) _ _).mp h).1
  exact hd rfl

theorem IsDigit.value_ne_zero {c : Char} {d : Nat} (h : IsDigit 10 c d) (hc : c ≠ '0') :
    d ≠ 0 := by
  rintro rfl
  rcases h.2 with rfl | rfl <;> exact hc rfl

/-- A literal without a zero in front begins with a digit. -/
theorem isDigit_of_unsignedLiteral {bound n : Nat} {c : Char} {cs : List Char} (hc : c ≠ '0')
    (h : unsignedLiteral bound (c :: cs) = .ok n) : ∃ d, IsDigit 10 c d := by
  obtain ⟨-, hread, hseparates⟩ := unsignedLiteral_eq_ok_iff.mp h
  rw [splitBase_of_ne hc] at hread
  by_cases hunderscore : c = '_'
  · subst hunderscore
    cases hseparates List.mem_cons_self
  · obtain ⟨d, hdigit, -, -⟩ :=
      isDigit_of_readDigits (show 10 ≤ 16 by decide) hunderscore hread
    exact ⟨d, hdigit⟩

theorem literal_of_zero {bound n : Nat} {cs : List Char}
    (h : unsignedLiteral bound ('0' :: cs) = .ok n) : Literal ('0' :: cs) n ∧ n ≤ bound := by
  by_cases hmark : ∃ m base, Marks m base ∧ cs.head? = some m
  · obtain ⟨m, base, hm, hhead⟩ := hmark
    obtain ⟨cs, rfl⟩ := List.head?_eq_some_iff.mp hhead
    have hcs : cs ≠ [] := by
      rintro rfl
      exact unsignedLiteral_mark_ne hm bound n h
    obtain ⟨ds, hds, rfl, hbound⟩ := (unsignedLiteral_marked hm hcs bound n).mp h
    refine ⟨.marked hm hds ?_, hbound⟩
    rintro rfl
    exact hcs hds.eq_nil
  · have hplain : ∀ m base, Marks m base → cs.head? ≠ some m :=
      fun m base hm hhead => hmark ⟨m, base, hm, hhead⟩
    obtain ⟨ds, hds, rfl, hbound⟩ := (unsignedLiteral_zero hplain bound n).mp h
    exact ⟨.octal hds, hbound⟩

/-- The literals that are read are those of the grammar, up to the bound. -/
theorem unsignedLiteral_iff (bound n : Nat) (cs : List Char) :
    unsignedLiteral bound cs = .ok n ↔ Literal cs n ∧ n ≤ bound := by
  constructor
  · intro h
    match cs with
    | [] => cases h
    | c :: cs =>
      by_cases hc : c = '0'
      · subst hc
        exact literal_of_zero h
      · obtain ⟨d, hdigit⟩ := isDigit_of_unsignedLiteral hc h
        obtain ⟨ds, hds, rfl, hbound⟩ := (unsignedLiteral_decimal hc hdigit cs bound n).mp h
        cases hds with
        | digit first rest => exact ⟨.decimal first (first.value_ne_zero hc) rest, hbound⟩
        | separated _ _ => exact absurd rfl (hdigit.ne_underscore (by decide))
  · rintro ⟨hliteral, hbound⟩
    cases hliteral with
    | decimal first nonzero rest =>
      exact (unsignedLiteral_decimal (first.ne_zero nonzero) first _ bound _).mpr
        ⟨_, .digit first rest, rfl, hbound⟩
    | octal digits =>
      exact (unsignedLiteral_zero (fun _ _ hm => digits.head?_ne hm) bound _).mpr
        ⟨_, digits, rfl, hbound⟩
    | marked mark digits nonempty =>
      refine (unsignedLiteral_marked mark ?_ bound _).mpr ⟨_, digits, rfl, hbound⟩
      rintro rfl
      cases digits
      exact nonempty rfl

/-! ## Integers -/

/-- The first character of a literal is no sign. -/
theorem Literal.splitSign {cs : List Char} {n : Nat} (h : Literal cs n) :
    Numeral.splitSign cs = (false, cs) := by
  cases h with
  | octal _ => rfl
  | marked _ _ _ => rfl
  | @decimal c d cs ds first _ _ =>
    unfold Numeral.splitSign
    have hvalue := ((isDigit_iff (show 10 ≤ 16 by decide) c d).mp first).1
    split
    · rename_i heq
      rw [(List.cons.inj heq).1] at hvalue
      cases hvalue
    · rename_i heq
      rw [(List.cons.inj heq).1] at hvalue
      cases hvalue
    · rfl

theorem integer_iff (cs : List Char) (i : Int) :
    Integer cs i ↔ ∃ n : Nat, Literal (splitSign cs).2 n ∧
      i = if (splitSign cs).1 then -(n : Int) else n := by
  constructor
  · intro h
    cases h with
    | plain literal =>
      rw [literal.splitSign]
      exact ⟨_, literal, rfl⟩
    | plus literal => exact ⟨_, literal, rfl⟩
    | minus literal => exact ⟨_, literal, rfl⟩
  · rintro ⟨n, hliteral, rfl⟩
    unfold splitSign at hliteral ⊢
    split at hliteral
    · exact .plus hliteral
    · exact .minus hliteral
    · exact .plain hliteral

theorem signedLiteral_eq_ok_iff (bits : Nat) (cs : List Char) (i : Int) :
    signedLiteral bits cs = .ok i ↔ ∃ n : Nat,
      unsignedLiteral (twoPow bits - 1) (splitSign cs).2 = .ok n ∧
      i = (if (splitSign cs).1 then -(n : Int) else n) ∧
      -(twoPow (bits - 1) : Int) ≤ i ∧ i < twoPow (bits - 1) := by
  unfold signedLiteral
  obtain ⟨negative, magnitude⟩ := splitSign cs
  dsimp only
  cases unsignedLiteral (twoPow bits - 1) magnitude with
  | error e => exact iff_of_false nofun fun ⟨_, hn, _⟩ => nomatch hn
  | ok n =>
    have hpos : 0 < twoPow (bits - 1) := Nat.pow_pos (by decide)
    cases negative
    all_goals
      simp only [Bool.false_eq_true, if_false, if_true]
      split
      · refine iff_of_false nofun ?_
        rintro ⟨_, hn, rfl, hlow, hhigh⟩
        cases hn
        omega
      · constructor
        · rintro h
          cases h
          exact ⟨n, rfl, rfl, by omega, by omega⟩
        · rintro ⟨_, hn, rfl, -, -⟩
          cases hn
          rfl

/-- The integers that are read are those of the grammar that fit. -/
theorem signedLiteral_iff {bits : Nat} (hbits : 0 < bits) (cs : List Char) (i : Int) :
    signedLiteral bits cs = .ok i ↔
      Integer cs i ∧ -(twoPow (bits - 1) : Int) ≤ i ∧ i < twoPow (bits - 1) := by
  have hpow : twoPow bits = 2 * twoPow (bits - 1) := by
    obtain ⟨k, rfl⟩ : ∃ k, bits = k + 1 := ⟨bits - 1, by omega⟩
    exact Nat.pow_succ'
  have hpos : 0 < twoPow (bits - 1) := Nat.pow_pos (by decide)
  rw [signedLiteral_eq_ok_iff, integer_iff]
  constructor
  · rintro ⟨n, hread, hi, hrange⟩
    exact ⟨⟨n, ((unsignedLiteral_iff _ n _).mp hread).1, hi⟩, hrange⟩
  · rintro ⟨⟨n, hliteral, hi⟩, hlow, hhigh⟩
    have hbound : n ≤ twoPow bits - 1 := by
      split at hi <;> omega
    exact ⟨n, (unsignedLiteral_iff _ n _).mpr ⟨hliteral, hbound⟩, hi, hlow, hhigh⟩

/-! ## Words -/

/-- The integer is one that a word can hold, signed or unsigned, and the word is what is left of it. -/
structure Holds (i : Int) (u : UInt32) : Prop where
  low : -0x80000000 ≤ i
  high : i ≤ 0xffffffff
  value : (u.toNat : Int) = i % 0x100000000

theorem holds_iff (i : Int) (u : UInt32) :
    Holds i u ↔ (-0x80000000 ≤ i ∧ i < 0x100000000) ∧ u = UInt32.ofInt i := by
  have hvalue : (u.toNat : Int) = i % 0x100000000 ↔ u = UInt32.ofInt i := by
    rw [← UInt32.toNat_inj, UInt32.ofInt, UInt32.toNat_ofNat']
    omega
  constructor
  · rintro ⟨hlow, hhigh, hu⟩
    exact ⟨⟨hlow, by omega⟩, hvalue.mp hu⟩
  · rintro ⟨⟨hlow, hhigh⟩, hu⟩
    exact ⟨hlow, by omega, hvalue.mpr hu⟩

/-- The integer of a text that a word can hold is read. -/
theorem signedLiteral_of_holds {cs : List Char} {i : Int} {u : UInt32} (h : Integer cs i)
    (hu : Holds i u) : signedLiteral 34 cs = .ok i := by
  have hpow : (twoPow (34 - 1) : Int) = 0x200000000 := rfl
  have hlow := hu.low
  have hhigh := hu.high
  exact (signedLiteral_iff (by decide) cs i).mpr ⟨h, by omega, by omega⟩

/-- How a number is read behind the mark of a complement, or without it. -/
theorem numberOf?_eq_some_iff (word : String) (v : UInt32) :
    numberOf? word = some v ↔ ∃ i, Integer (splitComplement word).2 i ∧
      Holds i (if (splitComplement word).1 then ~~~v else v) := by
  unfold numberOf?
  obtain ⟨complement, cs⟩ := splitComplement word
  dsimp only
  have hresult (i : Int) : some (if complement then ~~~(UInt32.ofInt i) else UInt32.ofInt i) =
      some v ↔ (if complement then ~~~v else v) = UInt32.ofInt i := by
    rw [Option.some.injEq]
    cases complement with
    | false => exact eq_comm
    | true => exact ⟨fun h => by rw [← h]; exact UInt32.not_not, fun h => by rw [← h]; exact UInt32.not_not⟩
  cases hread : signedLiteral 34 cs with
  | error e =>
    refine iff_of_false nofun ?_
    rintro ⟨i, hi, hu⟩
    rw [signedLiteral_of_holds hi hu] at hread
    cases hread
  | ok i =>
    have hunique : ∀ j, Integer cs j → Holds j (if complement then ~~~v else v) → j = i := by
      intro j hj hu
      rw [signedLiteral_of_holds hj hu] at hread
      cases hread
      rfl
    dsimp only
    split
    · rename_i hrange
      rw [hresult]
      constructor
      · intro hv
        exact ⟨i, ((signedLiteral_iff (by decide) cs i).mp hread).1, (holds_iff _ _).mpr ⟨hrange, hv⟩⟩
      · rintro ⟨j, hj, hu⟩
        obtain rfl := hunique j hj hu
        exact ((holds_iff _ _).mp hu).2
    · rename_i hrange
      refine iff_of_false nofun ?_
      rintro ⟨j, hj, hu⟩
      obtain rfl := hunique j hj hu
      exact hrange ((holds_iff _ _).mp hu).1

/-- What a word denotes: what is left of an integer, or the complement of that. -/
inductive Denotes : List Char → UInt32 → Prop
  | plain {cs : List Char} {i : Int} {u : UInt32} (integer : Integer cs i) (holds : Holds i u) :
    Denotes cs u
  | complement {cs : List Char} {i : Int} {u : UInt32} (integer : Integer cs i)
    (holds : Holds i u) : Denotes ('~' :: cs) (~~~u)

/-- The mark of a complement is no part of an integer. -/
theorem Integer.head?_ne {cs : List Char} {i : Int} (h : Integer cs i) : cs.head? ≠ some '~' := by
  intro hhead
  obtain ⟨cs, rfl⟩ := List.head?_eq_some_iff.mp hhead
  cases h with
  | plain literal =>
    cases literal with
    | decimal first _ _ => cases ((isDigit_iff (show 10 ≤ 16 by decide) _ _).mp first).1

/-- The words that are numbers are those that denote one, which they are read as. -/
theorem numberOf?_iff (word : String) (v : UInt32) :
    numberOf? word = some v ↔ Denotes word.toList v := by
  rw [numberOf?_eq_some_iff]
  by_cases hhead : word.toList.head? = some '~'
  · obtain ⟨cs, hcs⟩ := List.head?_eq_some_iff.mp hhead
    have hsplit : splitComplement word = (true, cs) := by
      unfold splitComplement
      rw [hcs]
      rfl
    rw [hsplit, hcs]
    constructor
    · rintro ⟨i, hi, hu⟩
      have hdenotes := Denotes.complement hi hu
      rwa [if_pos rfl, UInt32.not_not] at hdenotes
    · intro h
      cases h with
      | plain integer _ => exact absurd rfl integer.head?_ne
      | @complement _ i u integer holds =>
        refine ⟨i, integer, ?_⟩
        rwa [if_pos rfl, UInt32.not_not]
  · rw [Spelling.splitComplement_of_ne hhead]
    constructor
    · rintro ⟨i, hi, hu⟩
      exact .plain hi hu
    · intro h
      generalize word.toList = cs at h hhead
      cases h with
      | plain integer holds => exact ⟨_, integer, holds⟩
      | complement _ _ => exact absurd rfl hhead

/-! ## Literals of numbers -/

theorem Spells.concat {base : Nat} {cs : List Char} {ds : List Nat} (h : Spells base cs ds)
    {c : Char} {d : Nat} (hdigit : IsDigit base c d) : Spells base (cs ++ [c]) (ds ++ [d]) := by
  induction h with
  | nil => exact .digit hdigit .nil
  | digit first _ ih => exact .digit first ih
  | separated first _ ih => exact .separated first ih

theorem value_concat (base : Nat) (ds : List Nat) (d : Nat) :
    value base (ds ++ [d]) = value base ds * base + d := by
  rw [value_eq_foldl, value_eq_foldl, List.foldl_append]
  rfl

/-- The digits that a number is written with spell it: the last is its rest, and those before it
are the digits of the quotient. -/
theorem exists_spells_toDigits {base : Nat} (hbase : 1 < base) (n : Nat) :
    ∃ ds, Spells base (Nat.toDigits base n) ds ∧ value base ds = n ∧ ds ≠ [] := by
  induction n using Nat.strongRecOn with
  | ind n ih =>
    by_cases hsmall : n < base
    · refine ⟨[n], ?_, ?_, List.cons_ne_nil _ _⟩
      · rw [Nat.toDigits_of_lt_base hsmall]
        exact .digit ⟨hsmall, .inl rfl⟩ .nil
      · rw [value_eq_foldl, List.foldl_cons, List.foldl_nil, Nat.zero_mul, Nat.zero_add]
    · have hle := Nat.not_lt.mp hsmall
      obtain ⟨ds, hds, hvalue, -⟩ := ih (n / base) (Nat.div_lt_self (by omega) hbase)
      refine ⟨ds ++ [n % base], ?_, ?_, List.concat_ne_nil _ _⟩
      · rw [Nat.toDigits_of_base_le hbase hle]
        exact hds.concat ⟨Nat.mod_lt n (by omega), .inl rfl⟩
      · rw [value_concat, hvalue, Nat.mul_comm]
        exact Nat.div_add_mod n base

/-- Digits are made of characters that have a value. -/
theorem Spells.not_mem {base : Nat} (hbase : base ≤ 16) {cs : List Char} {ds : List Nat}
    (h : Spells base cs ds) {c : Char} (hc : c ≠ '_') (hvalue : digitValue? c = none) :
    c ∉ cs := by
  have hdigit {e : Char} {d : Nat} (he : IsDigit base e d) : c ≠ e := by
    rintro rfl
    rw [((isDigit_iff hbase c d).mp he).1] at hvalue
    cases hvalue
  induction h with
  | nil => exact List.not_mem_nil
  | digit first _ ih => exact List.not_mem_cons_of_ne_of_not_mem (hdigit first) ih
  | separated first _ ih =>
    exact List.not_mem_cons_of_ne_of_not_mem hc
      (List.not_mem_cons_of_ne_of_not_mem (hdigit first) ih)

theorem toList_hexLiteral (n : Nat) :
    (hexLiteral n).toList = '0' :: 'x' :: Nat.toDigits 16 n := by
  rw [hexLiteral, String.toList_append]
  exact congrArg ('0' :: 'x' :: ·) String.toList_ofList

theorem integer_hexLiteral (n : Nat) : Integer (hexLiteral n).toList n := by
  obtain ⟨ds, hds, hvalue, hne⟩ := exists_spells_toDigits (show 1 < 16 by decide) n
  have hliteral := Literal.marked .x hds hne
  rw [hvalue] at hliteral
  rw [toList_hexLiteral]
  exact .plain hliteral

/-- A number that fits a word is what is left of it. -/
theorem holds_toNat (u : UInt32) : Holds u.toNat u := by
  have hlt := u.toNat_lt
  exact ⟨by omega, by omega, by omega⟩

theorem numberOf?_hexLiteral (u : UInt32) : numberOf? (hexLiteral u.toNat) = some u :=
  (numberOf?_iff _ u).mpr (.plain (integer_hexLiteral u.toNat) (holds_toNat u))

theorem numberOf?_decimalNat {n : Nat} (h : n < 0x100000000) :
    numberOf? (decimalNat n) = some (UInt32.ofNat n) := by
  have hplain : decimal n = decimalNat n := if_neg (by omega)
  have hread : numberOf? (decimal n) = some (UInt32.ofInt n) :=
    Spelling.numberOf?_decimal (by omega) (by omega)
  have hcast : UInt32.ofInt n = UInt32.ofNat n := by
    rw [← UInt32.toNat_inj, UInt32.ofInt, UInt32.toNat_ofNat', UInt32.toNat_ofNat']
    omega
  rw [← hplain, hread, hcast]

end TaskMachine.Literals
