import TaskMachine.Assembler.Operand

/-!
# Numbers are read back from their spelling

The decimal digits of a number have no zero in front, so that no base marker is
seen in them, and no separator, so that they are read as the number they spell.
An integer keeps its value with or without a plus sign in front, as long as it
fits the literals of the assembler.
-/

namespace TaskMachine.Spelling

open Numeral

/-! ## Digits -/

theorem digitValue?_digitChar : ∀ d < 10, digitValue? (Nat.digitChar d) = some d := by decide

theorem digitChar_ne_underscore : ∀ d < 10, Nat.digitChar d ≠ '_' := by decide

theorem digitChar_ne_zero : ∀ d < 10, d ≠ 0 → Nat.digitChar d ≠ '0' := by decide

theorem readDigits_append {base bound n m : Nat} {cs : List Char}
    (h : readDigits base bound cs n = .ok m) (ds : List Char) :
    readDigits base bound (cs ++ ds) n = readDigits base bound ds m := by
  induction cs generalizing n with
  | nil =>
    cases h
    rfl
  | cons c cs ih =>
    rw [List.cons_append, readDigits]
    rw [readDigits] at h
    split at h
    · rename_i hc
      rw [if_pos hc]
      exact ih h
    · rename_i hc
      rw [if_neg hc]
      split at h
      · cases h
      · rename_i d hd
        split at h
        · cases h
        · rename_i hbase
          split at h
          · cases h
          · rename_i hbound
            simp only [if_neg hbase, if_neg hbound]
            exact ih h

theorem readDigits_digitChar {bound n d : Nat} (hd : d < 10) (hbound : n * 10 + d ≤ bound) :
    readDigits 10 bound [Nat.digitChar d] n = .ok (n * 10 + d) := by
  unfold readDigits
  rw [if_neg (digitChar_ne_underscore d hd), digitValue?_digitChar d hd]
  simp only [if_neg (Nat.not_le.mpr hd), if_neg (Nat.not_lt.mpr hbound)]
  rfl

/-- Digits are read as the number they spell; the last digit is read last, and what stands before
it spells a tenth of the number. -/
theorem readDigits_toDigits {bound n : Nat} (h : n ≤ bound) :
    readDigits 10 bound (Nat.toDigits 10 n) 0 = .ok n := by
  induction n using Nat.strongRecOn with
  | ind n ih =>
    by_cases hsmall : n < 10
    · rw [Nat.toDigits_of_lt_base hsmall, readDigits_digitChar hsmall (by omega)]
      simp
    · have hdigits := Nat.toDigits_of_base_le (b := 10) (by decide) (Nat.not_lt.mp hsmall)
      rw [hdigits, readDigits_append (ih (n / 10) (by omega) (by omega)),
        readDigits_digitChar (by omega) (by omega)]
      congr 1
      omega

theorem head_toDigits {n : Nat} (h : n ≠ 0) (ds : List Char) : Nat.toDigits 10 n ≠ '0' :: ds := by
  induction n using Nat.strongRecOn generalizing ds with
  | ind n ih =>
    by_cases hsmall : n < 10
    · rw [Nat.toDigits_of_lt_base hsmall]
      intro heq
      exact digitChar_ne_zero n hsmall h (List.cons.inj heq).1
    · have hdigits := Nat.toDigits_of_base_le (b := 10) (by decide) (Nat.not_lt.mp hsmall)
      rw [hdigits]
      intro heq
      cases hfront : Nat.toDigits 10 (n / 10) with
      | nil => exact Nat.toDigits_ne_nil hfront
      | cons c cs =>
        rw [hfront] at heq
        obtain ⟨rfl, -⟩ := List.cons.inj heq
        exact ih (n / 10) (by omega) (by omega) cs hfront

theorem splitBase_toDigits {n : Nat} (h : n ≠ 0) :
    splitBase (Nat.toDigits 10 n) = (10, Nat.toDigits 10 n) := by
  unfold splitBase
  split
  · exact absurd ‹_› (head_toDigits h _)
  · exact absurd ‹_› (head_toDigits h _)
  · rfl

theorem not_contains_underscore (n : Nat) : (Nat.toDigits 10 n).contains '_' = false := by
  rw [Bool.eq_false_iff]
  exact fun h => Nat.underscore_not_in_toDigits (List.contains_iff_mem.mp h)

theorem unsignedLiteral_toDigits {bound n : Nat} (h : n ≤ bound) :
    unsignedLiteral bound (Nat.toDigits 10 n) = .ok n := by
  unfold unsignedLiteral
  rw [if_neg Nat.toDigits_ne_nil, not_contains_underscore]
  by_cases hzero : n = 0
  · subst hzero
    rfl
  · rw [splitBase_toDigits hzero]
    dsimp only
    rw [readDigits_toDigits h]
    rfl

/-! ## Integers -/

theorem toList_decimalNat (n : Nat) : (decimalNat n).toList = Nat.toDigits 10 n :=
  String.toList_ofList

theorem toList_decimal (i : Int) :
    (decimal i).toList =
      if i < 0 then '-' :: Nat.toDigits 10 i.natAbs else Nat.toDigits 10 i.natAbs := by
  unfold decimal
  split
  · rw [String.toList_append, toList_decimalNat]
    rfl
  · exact toList_decimalNat _

theorem toList_signedDecimal (i : Int) :
    (signedDecimal i).toList =
      (if i < 0 then '-' else '+') :: Nat.toDigits 10 i.natAbs := by
  unfold signedDecimal
  split
  · rename_i h
    rw [toList_decimal, if_pos h]
  · rename_i h
    rw [String.toList_append, toList_decimal, if_neg h]
    rfl

/-- A digit is no sign and no mark of a complement. -/
theorem toDigits_ne_cons {n : Nat} {c : Char} (hc : c.isDigit = false) (cs : List Char) :
    Nat.toDigits 10 n ≠ c :: cs := by
  intro h
  have hdigit : c.isDigit = true :=
    Nat.isDigit_of_mem_toDigits (b := 10) (n := n) (by decide) (by decide)
      (by rw [h]; exact List.mem_cons_self)
  rw [hc] at hdigit
  cases hdigit

theorem splitSign_toDigits (n : Nat) :
    splitSign (Nat.toDigits 10 n) = (false, Nat.toDigits 10 n) := by
  unfold splitSign
  split
  · exact absurd ‹_› (toDigits_ne_cons (by decide) _)
  · exact absurd ‹_› (toDigits_ne_cons (by decide) _)
  · rfl

/-- A text is read as an integer when its sign is the integer's and its digits are those of the
integer's magnitude. -/
theorem signedLiteral_of_sign {bits : Nat} {i : Int} {cs : List Char}
    (hcs : splitSign cs = (decide (i < 0), Nat.toDigits 10 i.natAbs)) (hbits : 0 < bits)
    (hlow : -(twoPow (bits - 1) : Int) ≤ i) (hhigh : i < twoPow (bits - 1)) :
    signedLiteral bits cs = .ok i := by
  have hpow : twoPow bits = 2 * twoPow (bits - 1) := by
    obtain ⟨k, rfl⟩ : ∃ k, bits = k + 1 := ⟨bits - 1, by omega⟩
    exact Nat.pow_succ'
  unfold signedLiteral
  rw [hcs]
  dsimp only
  rw [unsignedLiteral_toDigits (by omega)]
  dsimp only
  by_cases hneg : i < 0
  · rw [if_pos (decide_eq_true hneg), if_neg (by omega)]
    congr 1
    omega
  · rw [if_neg (by simpa using hneg), if_neg (by omega)]
    congr 1
    omega

theorem splitSign_decimal (i : Int) :
    splitSign (decimal i).toList = (decide (i < 0), Nat.toDigits 10 i.natAbs) := by
  rw [toList_decimal]
  split
  · rename_i h
    rw [decide_eq_true h]
    rfl
  · rename_i h
    rw [splitSign_toDigits, decide_eq_false h]

theorem splitSign_signedDecimal (i : Int) :
    splitSign (signedDecimal i).toList = (decide (i < 0), Nat.toDigits 10 i.natAbs) := by
  rw [toList_signedDecimal]
  split
  · rename_i h
    rw [decide_eq_true h]
    rfl
  · rename_i h
    rw [decide_eq_false h]
    rfl

theorem splitComplement_of_ne {word : String} (h : word.toList.head? ≠ some '~') :
    splitComplement word = (false, word.toList) := by
  unfold splitComplement
  split
  · rename_i cs hcs
    rw [hcs] at h
    exact absurd rfl h
  · rfl

theorem numberOf?_of_sign {i : Int} {word : String}
    (hword : splitSign word.toList = (decide (i < 0), Nat.toDigits 10 i.natAbs))
    (hlow : -0x80000000 ≤ i) (hhigh : i < 0x100000000) :
    numberOf? word = some (UInt32.ofInt i) := by
  have hplain : splitComplement word = (false, word.toList) := by
    refine splitComplement_of_ne fun hhead => ?_
    obtain ⟨cs, hcs⟩ := List.head?_eq_some_iff.mp hhead
    -- A complement has no sign, so that its mark would have to be a digit.
    rw [hcs] at hword
    exact absurd (Prod.mk.inj hword).2.symm (toDigits_ne_cons (by decide) _)
  have hpow : (twoPow (34 - 1) : Int) = 0x200000000 := rfl
  unfold numberOf?
  rw [hplain]
  dsimp only
  rw [signedLiteral_of_sign hword (by decide) (by omega) (by omega)]
  dsimp only
  rw [if_pos ⟨hlow, hhigh⟩]
  rfl

/-- The assembler reads an integer back from its decimal spelling. -/
theorem numberOf?_decimal {i : Int} (hlow : -0x80000000 ≤ i) (hhigh : i < 0x100000000) :
    numberOf? (decimal i) = some (UInt32.ofInt i) :=
  numberOf?_of_sign (splitSign_decimal i) hlow hhigh

/-- So it does when a sign is always written. -/
theorem numberOf?_signedDecimal {i : Int} (hlow : -0x80000000 ≤ i) (hhigh : i < 0x100000000) :
    numberOf? (signedDecimal i) = some (UInt32.ofInt i) :=
  numberOf?_of_sign (splitSign_signedDecimal i) hlow hhigh

end TaskMachine.Spelling
