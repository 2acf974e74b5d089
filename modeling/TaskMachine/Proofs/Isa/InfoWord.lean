import Mathlib.Data.Nat.Bitwise
import TaskMachine.Isa.Info

/-!
# Info words are read as they were written

A literal gives up its top bit to the mark and its sign is copied back from the
bit below, so exactly the values whose two top bits agree survive. An index
survives when it leaves the mark clear.
-/

namespace TaskMachine.InfoWord

open Info

/-- The values that fit are those whose two top bits agree. -/
theorem fits_iff (v : UInt32) :
    fits v = true ↔ v.toNat < 2 ^ 30 ∨ 2 ^ 32 - 2 ^ 30 ≤ v.toNat := by
  have hv := v.toNat_lt
  have hsigned : v.toInt32.toInt = (v.toNat : Int).bmod (2 ^ 32) := by
    rw [Int32.toInt, BitVec.toInt_eq_toNat_bmod]
    rfl
  simp only [fits, hsigned, Bool.and_eq_true, decide_eq_true_eq]
  rw [Int.bmod_def]
  omega

theorem or_two_pow {x : Nat} (k : Nat) (hx : x < 2 ^ k) : x ||| 2 ^ k = x + 2 ^ k := by
  have h := Nat.two_pow_add_eq_or_of_lt hx 1
  rw [Nat.mul_one] at h
  rw [Nat.or_comm, ← h, Nat.add_comm]

theorem toNat_ofLiteral (v : UInt32) : (ofLiteral v).toNat = v.toNat % 2 ^ 31 + 2 ^ 31 := by
  rw [ofLiteral, UInt32.toNat_or, UInt32.toNat_and]
  change v.toNat &&& (2 ^ 31 - 1) ||| 2 ^ 31 = _
  rw [Nat.and_two_pow_sub_one_eq_mod, or_two_pow 31 (Nat.mod_lt _ (by decide))]

theorem toNat_ofIndex (i : UInt32) : (ofIndex i).toNat = i.toNat % 2 ^ 31 := by
  rw [ofIndex, UInt32.toNat_and]
  exact Nat.and_two_pow_sub_one_eq_mod _ 31

/-- Reading a literal keeps 31 bits and copies bit 30 to the top. -/
theorem toNat_unmarked (w : UInt32) :
    (w &&& (0x7fffffff : UInt32) ||| w <<< 1 &&& (0x80000000 : UInt32)).toNat =
      w.toNat % 2 ^ 31 + w.toNat / 2 ^ 30 % 2 * 2 ^ 31 := by
  rw [UInt32.toNat_or, UInt32.toNat_and, UInt32.toNat_and, UInt32.toNat_shiftLeft]
  change w.toNat &&& (2 ^ 31 - 1) ||| w.toNat <<< 1 % 2 ^ 32 &&& 2 ^ 31 = _
  have hbit : w.toNat * 2 ^ 1 % 2 ^ 32 / 2 ^ 31 % 2 = w.toNat / 2 ^ 30 % 2 := by omega
  rw [Nat.and_two_pow_sub_one_eq_mod, Nat.and_two_pow, Nat.testBit_eq_decide_div_mod_eq,
    Nat.shiftLeft_eq, hbit]
  rcases Nat.mod_two_eq_zero_or_one (w.toNat / 2 ^ 30) with h | h
  · rw [h, decide_eq_false (by decide), Bool.toNat_false, Nat.zero_mul, Nat.or_zero]
    rfl
  · rw [h, decide_eq_true rfl, Bool.toNat_true, Nat.one_mul,
      or_two_pow 31 (Nat.mod_lt _ (by decide))]

theorem read_ofLiteral (v : UInt32) (h : fits v = true) :
    Info.read (ofLiteral v) = .literal v := by
  have hv := v.toNat_lt
  have hword := toNat_ofLiteral v
  have hfit := (fits_iff v).mp h
  have hmark : ¬ ofLiteral v < 0x80000000 := by
    rw [UInt32.lt_iff_toNat_lt]
    change ¬ _ < 2 ^ 31
    omega
  rw [Info.read, if_neg hmark]
  congr 1
  apply UInt32.toNat_inj.mp
  rw [toNat_unmarked, hword]
  omega

theorem read_ofIndex (i : UInt32) (h : i.toNat < 2 ^ 31) :
    Info.read (ofIndex i) = .pooled i := by
  have hword := toNat_ofIndex i
  have hkept : ofIndex i = i := by
    apply UInt32.toNat_inj.mp
    omega
  have hmark : i < 0x80000000 := by
    rw [UInt32.lt_iff_toNat_lt]
    exact h
  rw [hkept, Info.read, if_pos hmark]

end TaskMachine.InfoWord
