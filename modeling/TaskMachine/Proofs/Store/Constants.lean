import TaskMachine.Proofs.Isa.InfoWord
import TaskMachine.Store.Pool

/-!
# What an info word stands for

A pool only grows: an item that has an index keeps it, whatever is put into the
pool later. So an info word that stands for a value, either as a literal or by
an index, stands for it in every later pool as well. A value packed into an info
word is the value that the word stands for.
-/

namespace TaskMachine.Constants

/-- Every item of the first pool has its place in the second. -/
def Extends (before after : Pool) : Prop :=
  ∀ (i : Nat) (item : PoolItem), before.items[i]? = some item → after.items[i]? = some item

theorem Extends.refl (pool : Pool) : Extends pool pool := fun _ _ h => h

theorem Extends.trans {a b c : Pool} (hab : Extends a b) (hbc : Extends b c) : Extends a c :=
  fun i item h => hbc i item (hab i item h)

theorem extends_intern (pool : Pool) (item : PoolItem) : Extends pool (pool.intern item).1 := by
  unfold Pool.intern
  split
  · exact .refl pool
  · intro i old h
    have hi : i < pool.items.size := (Array.getElem?_eq_some_iff.mp h).choose
    change (pool.items.push item)[i]? = some old
    rw [Array.getElem?_push_lt hi, ← h, Array.getElem?_eq_getElem hi]

theorem intern_empty (item : PoolItem) : ({} : Pool).intern item = (⟨#[item]⟩, 0) := by
  simp [Pool.intern]

/-- The pool after several items have been put in, one after the other. -/
def internAll (pool : Pool) (items : List PoolItem) : Pool :=
  items.foldl (fun pool item => (pool.intern item).1) pool

theorem extends_internAll (pool : Pool) (items : List PoolItem) :
    Extends pool (internAll pool items) := by
  induction items generalizing pool with
  | nil => exact .refl pool
  | cons item items ih => exact (extends_intern pool item).trans (ih (pool.intern item).1)

/-- Two items are the same when all their parts are. -/
theorem same_iff (a b : PoolItem) :
    a.same b = true ↔ a.kind = b.kind ∧ a.integerPart = b.integerPart ∧ a.textPart = b.textPart ∧
      PoolItem.sameFloat a.floatPart b.floatPart = true := by
  simp only [PoolItem.same, Bool.and_eq_true, beq_iff_eq, and_assoc]

/-- Either the same item is in the pool already, and the first such is given, or the item comes
behind all others. -/
theorem intern_cases (pool : Pool) (item : PoolItem) :
    (∃ (n : Nat) (old : PoolItem), pool.items[n]? = some old ∧ old.same item = true ∧
      pool.intern item = (pool, UInt32.ofNat n)) ∨
    ((∀ old ∈ pool.items, old.same item = false) ∧
      pool.intern item = (⟨pool.items.push item⟩, UInt32.ofNat pool.items.size)) := by
  unfold Pool.intern
  cases hn : pool.items.findIdx? (·.same item) with
  | some n =>
    obtain ⟨hlt, hsame, -⟩ := Array.findIdx?_eq_some_iff_getElem.mp hn
    exact .inl ⟨n, pool.items[n], Array.getElem?_eq_getElem hlt, hsame, rfl⟩
  | none => exact .inr ⟨fun old hold => Array.findIdx?_eq_none_iff.mp hn old hold, rfl⟩

/-- An item is given the index of an entry that is the same, or of the item itself. -/
theorem exists_entry_intern (pool : Pool) (item : PoolItem) :
    ∃ (n : Nat) (entry : PoolItem), (pool.intern item).2 = UInt32.ofNat n ∧
      (pool.intern item).1.items[n]? = some entry ∧ (entry.same item = true ∨ entry = item) := by
  rcases intern_cases pool item with ⟨n, old, hold, hsame, heq⟩ | ⟨-, heq⟩
  · rw [heq]
    exact ⟨n, old, rfl, hold, .inl hsame⟩
  · rw [heq]
    exact ⟨pool.items.size, item, rfl, Array.getElem?_push_size, .inr rfl⟩

/-- The index that is given for an item is that of the same item. -/
theorem item?_intern (pool : Pool) (item : PoolItem)
    (h : (pool.intern item).1.items.size ≤ 2 ^ 32) :
    (pool.intern item).2.toNat < (pool.intern item).1.items.size ∧
    ∃ entry, (pool.intern item).1.item? (pool.intern item).2 = some entry ∧
      (entry.same item = true ∨ entry = item) := by
  obtain ⟨n, entry, hindex, hentry, hsame⟩ := exists_entry_intern pool item
  have hlt : n < (pool.intern item).1.items.size := (Array.getElem?_eq_some_iff.mp hentry).choose
  have hn : (pool.intern item).2.toNat = n := by
    rw [hindex]
    exact UInt32.toNat_ofNat_of_lt (Nat.lt_of_lt_of_le hlt h)
  refine ⟨by rw [hn]; exact hlt, entry, ?_, hsame⟩
  rw [Pool.item?, hn, hentry]

theorem integer?_extends {before after : Pool} (h : Extends before after) {i v : UInt32}
    (hv : before.integer? i = some v) : after.integer? i = some v := by
  unfold Pool.integer? Pool.item? at hv ⊢
  cases hitem : before.items[i.toNat]? with
  | none =>
    rw [hitem] at hv
    cases hv
  | some item =>
    rw [hitem] at hv
    rw [h _ _ hitem]
    exact hv

/-- The value that an info word stands for, if it stands for one. -/
def value? (pool : Option Pool) (word : UInt32) : Option UInt32 :=
  match Info.read word with
  | .literal value => some value
  | .pooled index => pool.bind (·.integer? index)

theorem value?_ofLiteral (pool : Option Pool) (v : UInt32) (h : Info.fits v = true) :
    value? pool (Info.ofLiteral v) = some v := by
  rw [value?, InfoWord.read_ofLiteral v h]

theorem value?_ofIndex (pool : Pool) (i : UInt32) (h : i.toNat < 2 ^ 31) :
    value? (some pool) (Info.ofIndex i) = pool.integer? i := by
  rw [value?, InfoWord.read_ofIndex i h]
  rfl

/-- A value once found is found in every later pool. -/
theorem value?_extends {before after : Pool} (h : Extends before after) {word v : UInt32}
    (hv : value? (some before) word = some v) : value? (some after) word = some v := by
  unfold value? at hv ⊢
  split at hv
  · exact hv
  · exact integer?_extends h hv

/-- The pool that can give a value to an info word, and that word: a value that fits stands in
the word itself, and any other is put into the pool. -/
def packed (pool : Pool) (v : UInt32) : Pool × UInt32 :=
  if Info.fits v then (pool, Info.ofLiteral v)
  else ((pool.intern (.integer v)).1, Info.ofIndex (pool.intern (.integer v)).2)

theorem extends_packed (pool : Pool) (v : UInt32) : Extends pool (packed pool v).1 := by
  unfold packed
  split
  · exact .refl pool
  · exact extends_intern pool (.integer v)

/-- The value fits an info word, or where it is in the pool, an info word can hold its index. So it
was when the pool was still small, and the pool may have grown since. -/
def Holdable (pool : Pool) (v : UInt32) : Prop :=
  Info.fits v = true ∨ ∀ (i : Nat) (entry : PoolItem), pool.items[i]? = some entry →
    entry.same (.integer v) = true → i < 2 ^ 31

theorem Holdable.of_size {pool : Pool} (h : pool.items.size < 2 ^ 31) (v : UInt32) :
    Holdable pool v :=
  .inr fun _ _ hentry _ => Nat.lt_trans (Array.getElem?_eq_some_iff.mp hentry).choose h

theorem same_integer (v : UInt32) : (PoolItem.integer v).same (.integer v) = true :=
  (same_iff _ _).mpr ⟨rfl, rfl, rfl, show PoolItem.sameFloat 0 0 = true by decide⟩

/-- A packed value is found again under every later pool, in the word or in the pool. -/
theorem value?_packed {before after : Pool} {v : UInt32}
    (hpool : Extends (packed before v).1 after) (h : Holdable after v) :
    value? (some after) (packed before v).2 = some v := by
  unfold packed at hpool ⊢
  split
  · rename_i hfits
    exact value?_ofLiteral _ v hfits
  · rename_i hfits
    rw [if_neg hfits] at hpool
    obtain ⟨n, entry, hindex, hentry, hsame⟩ := exists_entry_intern before (.integer v)
    have hsame : entry.same (.integer v) = true := by
      rcases hsame with hsame | rfl
      · exact hsame
      · exact same_integer v
    have hlater : after.items[n]? = some entry := hpool n entry hentry
    have hn : n < 2 ^ 31 := h.resolve_left hfits n entry hlater hsame
    have hnat : (UInt32.ofNat n).toNat = n := UInt32.toNat_ofNat_of_lt (Nat.lt_trans hn (by decide))
    obtain ⟨hkind, hvalue, -⟩ : entry.kind = 0 ∧ entry.integerPart = v ∧ _ :=
      (same_iff _ _).mp hsame
    change value? (some after) (Info.ofIndex (before.intern (.integer v)).2) = some v
    rw [hindex, value?_ofIndex _ _ (by rwa [hnat]), Pool.integer?, Pool.item?, hnat, hlater]
    dsimp only
    rw [if_pos hkind, hvalue]

end TaskMachine.Constants
