import TaskMachine.Proofs.Store.Constants

/-!
# A pool holds each constant once

Two items are the same if all their parts are, where floats are compared as
numbers. So being the same is neither reflexive, since a NaN is not equal to itself,
nor does it make items identical, since the zeros are equal. But it is symmetric
and transitive, and that is what a search for the same item needs: no two items
of a pool are the same, whatever has been put in, and an item that is the same as
one in the pool is given the index of that one. An index that has been given
stands for the item it was given for in every later pool.
-/

namespace TaskMachine.Interning

open Constants Numeral

/-! ## Floats as numbers -/

/-- The pattern is above that of the infinities, whatever its sign. -/
def IsNan (bits : UInt32) : Prop := 0x7f800000 < bits.toNat % 0x80000000

/-- The pattern is one of the two zeros. -/
def IsZero (bits : UInt32) : Prop := bits = 0 ∨ bits = 0x80000000

instance (bits : UInt32) : Decidable (IsNan bits) := inferInstanceAs (Decidable (_ < _))

instance (bits : UInt32) : Decidable (IsZero bits) := inferInstanceAs (Decidable (_ ∨ _))

theorem decode_eq (bits : Nat) :
    binary32.decode bits =
      if bits / 8388608 % 256 = 255 then
        if bits % 8388608 = 0 then .infinite (bits / 2147483648 % 2 == 1) else .nan
      else if bits / 8388608 % 256 = 0 then
        .finite (bits / 2147483648 % 2 == 1) (bits % 8388608) (-149)
      else
        .finite (bits / 2147483648 % 2 == 1) (8388608 + bits % 8388608)
          (-149 + (bits / 8388608 % 256 - 1 : Nat)) :=
  rfl

theorem decode_eq_nan_iff (bits : UInt32) : binary32.decode bits.toNat = .nan ↔ IsNan bits := by
  have hlt := bits.toNat_lt
  have hfields : IsNan bits ↔ bits.toNat / 8388608 % 256 = 255 ∧ bits.toNat % 8388608 ≠ 0 := by
    unfold IsNan
    omega
  rw [hfields, decode_eq]
  split
  · rename_i htop
    split
    · rename_i hzero
      exact iff_of_false nofun fun h => h.2 hzero
    · rename_i hzero
      exact iff_of_true rfl ⟨htop, hzero⟩
  · rename_i htop
    refine iff_of_false ?_ fun h => htop h.1
    split <;> exact nofun

theorem isZero_iff (bits : UInt32) :
    IsZero bits ↔ ∃ negative scale, binary32.decode bits.toNat = .finite negative 0 scale := by
  have hlt := bits.toNat_lt
  have hfields : IsZero bits ↔ bits.toNat / 8388608 % 256 = 0 ∧ bits.toNat % 8388608 = 0 := by
    unfold IsZero
    rw [← UInt32.toNat_inj, ← UInt32.toNat_inj]
    change bits.toNat = 0 ∨ bits.toNat = 0x80000000 ↔ _
    omega
  rw [hfields, decode_eq]
  constructor
  · rintro ⟨hexponent, hfraction⟩
    rw [if_neg (by omega), if_pos hexponent, hfraction]
    exact ⟨_, _, rfl⟩
  · rintro ⟨negative, scale, h⟩
    split at h
    · split at h <;> cases h
    · split at h
      · rename_i hexponent
        injection h with _ hfraction _
        exact ⟨hexponent, hfraction⟩
      · injection h with _ hfraction _
        omega

/-- Floats are the same number if they are the same pattern, or both zero, and are no NaN. -/
theorem sameFloat_iff (a b : UInt32) :
    PoolItem.sameFloat a b = true ↔ ¬ IsNan a ∧ ¬ IsNan b ∧ (a = b ∨ IsZero a ∧ IsZero b) := by
  rw [← decode_eq_nan_iff, ← decode_eq_nan_iff, isZero_iff, isZero_iff]
  unfold PoolItem.sameFloat
  split
  · rename_i ha
    exact iff_of_false nofun fun h => h.1 ha
  · rename_i hb _
    exact iff_of_false nofun fun h => h.2.1 hb
  · rename_i ha hb
    rw [ha, hb]
    exact iff_of_true rfl ⟨nofun, nofun, .inr ⟨⟨_, _, rfl⟩, ⟨_, _, rfl⟩⟩⟩
  · rename_i ha hb hzero
    rw [beq_iff_eq]
    refine ⟨fun heq => ⟨ha, hb, .inl heq⟩, fun h => h.2.2.resolve_right ?_⟩
    rintro ⟨⟨_, _, hza⟩, ⟨_, _, hzb⟩⟩
    exact hzero _ _ _ _ hza hzb

theorem sameFloat_symm {a b : UInt32} (h : PoolItem.sameFloat a b = true) :
    PoolItem.sameFloat b a = true := by
  obtain ⟨ha, hb, heq⟩ := (sameFloat_iff a b).mp h
  exact (sameFloat_iff b a).mpr ⟨hb, ha, heq.imp Eq.symm And.symm⟩

theorem sameFloat_trans {a b c : UInt32} (hab : PoolItem.sameFloat a b = true)
    (hbc : PoolItem.sameFloat b c = true) : PoolItem.sameFloat a c = true := by
  obtain ⟨ha, -, heq⟩ := (sameFloat_iff a b).mp hab
  obtain ⟨-, hc, heq'⟩ := (sameFloat_iff b c).mp hbc
  refine (sameFloat_iff a c).mpr ⟨ha, hc, ?_⟩
  rcases heq with rfl | ⟨hza, hzb⟩
  · exact heq'
  · rcases heq' with rfl | ⟨-, hzc⟩
    · exact .inr ⟨hza, hzb⟩
    · exact .inr ⟨hza, hzc⟩

/-! ## Items that are the same -/

theorem same_symm {a b : PoolItem} (h : a.same b = true) : b.same a = true := by
  obtain ⟨hkind, hinteger, htext, hfloat⟩ := (same_iff a b).mp h
  exact (same_iff b a).mpr ⟨hkind.symm, hinteger.symm, htext.symm, sameFloat_symm hfloat⟩

theorem same_trans {a b c : PoolItem} (hab : a.same b = true) (hbc : b.same c = true) :
    a.same c = true := by
  obtain ⟨hkind, hinteger, htext, hfloat⟩ := (same_iff a b).mp hab
  obtain ⟨hkind', hinteger', htext', hfloat'⟩ := (same_iff b c).mp hbc
  exact (same_iff a c).mpr ⟨hkind.trans hkind', hinteger.trans hinteger', htext.trans htext',
    sameFloat_trans hfloat hfloat'⟩

/-- An entry that stands for an item has all its parts, but for the sign of a zero. -/
structure Stands (entry item : PoolItem) : Prop where
  kind : entry.kind = item.kind
  integer : entry.integerPart = item.integerPart
  text : entry.textPart = item.textPart
  float : entry.floatPart = item.floatPart ∨ IsZero entry.floatPart ∧ IsZero item.floatPart

theorem Stands.refl (item : PoolItem) : Stands item item := ⟨rfl, rfl, rfl, .inl rfl⟩

theorem Stands.of_same {entry item : PoolItem} (h : entry.same item = true) :
    Stands entry item := by
  obtain ⟨hkind, hinteger, htext, hfloat⟩ := (same_iff entry item).mp h
  exact ⟨hkind, hinteger, htext, ((sameFloat_iff _ _).mp hfloat).2.2⟩

/-- An item with a NaN in it is there bit by bit. -/
theorem Stands.eq_of_isNan {entry item : PoolItem} (h : Stands entry item)
    (hnan : IsNan item.floatPart) : entry = item := by
  have hfloat : entry.floatPart = item.floatPart := by
    refine h.float.resolve_right fun hzero => ?_
    rcases hzero.2 with hzero | hzero <;> rw [hzero] at hnan <;> exact absurd hnan (by decide)
  cases entry
  cases item
  obtain ⟨rfl, rfl, rfl, -⟩ := h
  cases hfloat
  rfl

/-! ## Pools -/

/-- No two entries are the same. -/
def Distinct (pool : Pool) : Prop :=
  ∀ (i j : Nat) (a b : PoolItem), i ≠ j → pool.items[i]? = some a → pool.items[j]? = some b →
    a.same b = false

/-- An item is put into a pool only when no entry is the same, in either order. -/
theorem Distinct.intern {pool : Pool} (h : Distinct pool) (item : PoolItem) :
    Distinct (pool.intern item).1 := by
  rcases intern_cases pool item with ⟨_, _, -, -, heq⟩ | ⟨hnew, heq⟩
  · rw [heq]
    exact h
  · rw [heq]
    intro i j a b hne ha hb
    rw [Array.getElem?_push] at ha hb
    split at ha
    · split at hb
      · rename_i hi hj
        exact absurd (hi.trans hj.symm) hne
      · cases ha
        rw [Bool.eq_false_iff]
        intro hsame
        have hold := hnew b (Array.mem_of_getElem? hb)
        rw [same_symm hsame] at hold
        cases hold
    · split at hb
      · cases hb
        exact hnew a (Array.mem_of_getElem? ha)
      · exact h i j a b hne ha hb

/-- The first entry that is the same as an item is the only one. -/
theorem intern_of_same {pool : Pool} (h : Distinct pool) {i : Nat} {entry item : PoolItem}
    (hentry : pool.items[i]? = some entry) (hsame : entry.same item = true) :
    pool.intern item = (pool, UInt32.ofNat i) := by
  rcases intern_cases pool item with ⟨n, old, hold, hsame', heq⟩ | ⟨hnew, -⟩
  · have hn : n = i := by
      by_contra hne
      have hdiffer := h n i old entry hne hold hentry
      rw [same_trans hsame' (same_symm hsame)] at hdiffer
      cases hdiffer
    rw [heq, hn]
  · rw [hnew entry (Array.mem_of_getElem? hentry)] at hsame
    cases hsame

theorem size_intern_le (pool : Pool) (item : PoolItem) :
    (pool.intern item).1.items.size ≤ pool.items.size + 1 := by
  rcases intern_cases pool item with ⟨_, _, -, -, heq⟩ | ⟨-, heq⟩
  · rw [heq]
    exact Nat.le_succ _
  · rw [heq, Array.size_push]

theorem size_internAll_le (pool : Pool) (items : List PoolItem) :
    (internAll pool items).items.size ≤ pool.items.size + items.length := by
  induction items generalizing pool with
  | nil => exact Nat.le_refl _
  | cons item items ih =>
    have hrest := ih (pool.intern item).1
    have hfirst := size_intern_le pool item
    rw [List.length_cons]
    change (internAll (pool.intern item).1 items).items.size ≤ _
    omega

theorem internAll_append (pool : Pool) (front back : List PoolItem) :
    internAll pool (front ++ back) = internAll (internAll pool front) back :=
  List.foldl_append

theorem Distinct.internAll {pool : Pool} (h : Distinct pool) (items : List PoolItem) :
    Distinct (internAll pool items) := by
  induction items generalizing pool with
  | nil => exact h
  | cons item items ih => exact ih (h.intern item)

theorem distinct_empty : Distinct {} := by
  intro i j a b _ ha
  cases ha

/-- The index that an item is given stands for it in every later pool. -/
theorem stands_interned (front back : List PoolItem) (item : PoolItem)
    (h : (front ++ item :: back).length < 2 ^ 32) :
    ∃ entry, (internAll {} (front ++ item :: back)).item? ((internAll {} front).intern item).2 =
      some entry ∧ Stands entry item := by
  have hlength : front.length + (back.length + 1) < 2 ^ 32 := by
    rwa [List.length_append, List.length_cons] at h
  have hsize : ((internAll {} front).intern item).1.items.size ≤ 2 ^ 32 := by
    have hfront : (internAll {} front).items.size ≤ 0 + front.length := size_internAll_le {} front
    have hitem := size_intern_le (internAll {} front) item
    omega
  obtain ⟨-, entry, hentry, hsame⟩ := item?_intern (internAll {} front) item hsize
  refine ⟨entry, ?_, ?_⟩
  · rw [internAll_append]
    exact extends_internAll ((internAll {} front).intern item).1 back _ _ hentry
  · rcases hsame with hsame | rfl
    · exact .of_same hsame
    · exact .refl entry

/-- An integer is at an index if the index is one of the pool and the entry there is an integer. -/
theorem integer?_eq_some_iff (pool : Pool) (index v : UInt32) :
    pool.integer? index = some v ↔ ∃ h : index.toNat < pool.items.size,
      pool.items[index.toNat].kind = 0 ∧ pool.items[index.toNat].integerPart = v := by
  unfold Pool.integer? Pool.item?
  by_cases hindex : index.toNat < pool.items.size
  · rw [Array.getElem?_eq_getElem hindex]
    dsimp only
    split
    · rename_i hkind
      rw [Option.some.injEq]
      exact ⟨fun hv => ⟨hindex, hkind, hv⟩, fun h => h.2.2⟩
    · rename_i hkind
      exact iff_of_false nofun fun h => hkind h.2.1
  · rw [Array.getElem?_eq_none (Nat.not_lt.mp hindex)]
    exact iff_of_false nofun fun h => hindex h.1

/-- Whatever is put into an empty pool, no two of its entries are the same, and every entry keeps
its index from then on. The index that an item is given stands for it, bit by bit if there is a NaN
in it. An item that is the same as an entry is given the index of that entry and leaves the pool as
it is. An index has an integer exactly if there is an entry of that kind. -/
theorem interning_stable (items : List PoolItem) (h : items.length < 2 ^ 32) :
    Distinct (internAll {} items) ∧
    (∀ front back, items = front ++ back → Extends (internAll {} front) (internAll {} items)) ∧
    (∀ front item back, items = front ++ item :: back →
      ∃ entry, (internAll {} items).item? ((internAll {} front).intern item).2 = some entry ∧
        Stands entry item ∧ (IsNan item.floatPart → entry = item)) ∧
    (∀ (i : Nat) (entry item : PoolItem), (internAll {} items).items[i]? = some entry →
      entry.same item = true →
        (internAll {} items).intern item = (internAll {} items, UInt32.ofNat i)) ∧
    ∀ index v : UInt32, (internAll {} items).integer? index = some v ↔
      ∃ h : index.toNat < (internAll {} items).items.size,
        (internAll {} items).items[index.toNat].kind = 0 ∧
        (internAll {} items).items[index.toNat].integerPart = v := by
  have hdistinct : Distinct (internAll {} items) := distinct_empty.internAll items
  refine ⟨hdistinct, ?_, ?_, fun i entry item => intern_of_same hdistinct,
    integer?_eq_some_iff _⟩
  · rintro front back rfl
    rw [internAll_append]
    exact extends_internAll _ back
  · rintro front item back rfl
    obtain ⟨entry, hentry, hstands⟩ := stands_interned front back item h
    exact ⟨entry, hentry, hstands, hstands.eq_of_isNan⟩

/-- Constants with a NaN twice, both zeros, and an integer that has a text beside it. -/
def assorted : List PoolItem :=
  [.float 0x7fc00001, .float 0, .integer 5, .float 0x7fc00001, .float 0x80000000,
    { kind := 0, integerPart := 5, textPart := [97] }, .integer 5, .ofKind 7]

theorem interning_stable_assorted :
    assorted.length < 2 ^ 32 ∧
    internAll {} assorted = ⟨#[.float 0x7fc00001, .float 0, .integer 5, .float 0x7fc00001,
      { kind := 0, integerPart := 5, textPart := [97] }, .ofKind 7]⟩ ∧
    Distinct (internAll {} assorted) ∧
    (internAll {} assorted).intern (.float 0x80000000) = (internAll {} assorted, 1) ∧
    (internAll {} assorted).integer? 4 = some 5 := by
  have hlength : assorted.length < 2 ^ 32 := by decide
  have hpool : internAll {} assorted = ⟨#[.float 0x7fc00001, .float 0, .integer 5,
      .float 0x7fc00001, { kind := 0, integerPart := 5, textPart := [97] }, .ofKind 7]⟩ := by
    decide +kernel
  obtain ⟨hdistinct, -, -, hagain, hinteger⟩ := interning_stable assorted hlength
  refine ⟨hlength, hpool, hdistinct, hagain 1 (.float 0) _ ?_ (by decide +kernel),
    (hinteger 4 5).mpr ?_⟩
  · rw [hpool]
    rfl
  · rw [hpool]
    exact ⟨by decide, rfl, rfl⟩

end TaskMachine.Interning
