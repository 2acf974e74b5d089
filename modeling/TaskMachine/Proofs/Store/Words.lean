import TaskMachine.Assembler.Program
import TaskMachine.Proofs.Isa.Fields
import TaskMachine.Store.Memory

/-!
# Words in memory

A word written to memory is read back from its address, and words apart from it
keep their values. `writeAll` writes words to addresses one after the other; when
the addresses lie apart from each other, every word is found where it was written
and all bytes outside the words are as before. The words of a loaded image and
the registers saved on a stack are both written in this way, at addresses four
apart that may wrap around the address space.
-/

namespace TaskMachine.Words

open Memory

/-- The words at two addresses have no byte in common. -/
def Apart (a b : UInt32) : Prop := a.toNat + 4 ≤ b.toNat ∨ b.toNat + 4 ≤ a.toNat

/-- The byte at a position belongs to the word at an address. -/
def Covers (m : Memory) (addr : UInt32) (i : Nat) : Prop :=
  m.offset addr ≤ i ∧ i < m.offset addr + 4

theorem Apart.symm {a b : UInt32} (h : Apart a b) : Apart b a := Or.symm h

/-! ## One word -/

theorem accessible_iff {m : Memory} {addr size : UInt32} :
    m.accessible addr size = true ↔
      m.base.toNat ≤ addr.toNat ∧ m.offset addr + size.toNat ≤ m.data.size := by
  simp [accessible]

@[simp]
theorem base_putBytes (m : Memory) (addr : UInt32) (bytes : List UInt8) :
    (m.putBytes addr bytes).base = m.base := rfl

@[simp]
theorem size_putBytes (m : Memory) (addr : UInt32) (bytes : List UInt8) :
    (m.putBytes addr bytes).data.size = m.data.size :=
  Bytes.size_setAll _ _ _

theorem accessible_putBytes (m : Memory) (addr : UInt32) (bytes : List UInt8) (a n : UInt32) :
    (m.putBytes addr bytes).accessible a n = m.accessible a n := by
  unfold accessible
  rw [size_putBytes]
  rfl

theorem byteAt_putWord {m : Memory} {addr : UInt32} (h : m.accessible addr 4 = true) (v : UInt32)
    (i : Nat) :
    (m.putBytes addr (wordBytes v)).byteAt i =
      if m.offset addr ≤ i then (wordBytes v)[i - m.offset addr]?.getD (m.byteAt i)
      else m.byteAt i :=
  Bytes.get_setAll m.data (m.offset addr) i (wordBytes v) (accessible_iff.mp h).2

theorem byteAt_putWord_outside {m : Memory} {addr : UInt32} (h : m.accessible addr 4 = true)
    (v : UInt32) {i : Nat} (hi : ¬ Covers m addr i) :
    (m.putBytes addr (wordBytes v)).byteAt i = m.byteAt i := by
  rw [byteAt_putWord h]
  split
  · rename_i hle
    have hlen : (wordBytes v).length ≤ i - m.offset addr := by
      change 4 ≤ i - m.offset addr
      unfold Covers at hi
      omega
    rw [List.getElem?_eq_none hlen, Option.getD_none]
  · rfl

theorem get32_eq (m : Memory) (addr : UInt32) :
    m.get32 addr = Word.ofBytes (m.byteAt (m.offset addr)) (m.byteAt (m.offset addr + 1))
      (m.byteAt (m.offset addr + 2)) (m.byteAt (m.offset addr + 3)) :=
  Bytes.four_eq m.data (m.offset addr) Word.ofBytes

theorem read32_of_accessible {m : Memory} {addr : UInt32} (h : m.accessible addr 4 = true) :
    m.read32 addr = .ok (m.get32 addr) :=
  if_pos h

/-- A read sees nothing but the extent of the memory and the bytes of its word. -/
theorem read32_congr {m n : Memory} {addr : UInt32} (hbase : n.base = m.base)
    (hsize : n.data.size = m.data.size) (h : ∀ i, Covers m addr i → n.byteAt i = m.byteAt i) :
    n.read32 addr = m.read32 addr := by
  have hoffset : n.offset addr = m.offset addr := by rw [offset, offset, hbase]
  have hacc : n.accessible addr 4 = m.accessible addr 4 := by
    rw [accessible, accessible, hoffset, hbase, hsize]
  have hword : n.get32 addr = m.get32 addr := by
    rw [get32_eq, get32_eq, hoffset, h (m.offset addr) ⟨by omega, by omega⟩,
      h (m.offset addr + 1) ⟨by omega, by omega⟩, h (m.offset addr + 2) ⟨by omega, by omega⟩,
      h (m.offset addr + 3) ⟨by omega, by omega⟩]
  unfold read32 checked
  rw [hacc, hword]

theorem read32_putWord_self {m : Memory} {addr : UInt32} (h : m.accessible addr 4 = true)
    (v : UInt32) : (m.putBytes addr (wordBytes v)).read32 addr = .ok v := by
  have hbyte (d : Nat) : (m.putBytes addr (wordBytes v)).byteAt (m.offset addr + d) =
      (wordBytes v)[d]?.getD (m.byteAt (m.offset addr + d)) := by
    rw [byteAt_putWord h, if_pos (Nat.le_add_right _ _), Nat.add_sub_cancel_left]
  have h0 := hbyte 0
  rw [Nat.add_zero] at h0
  have hoffset : (m.putBytes addr (wordBytes v)).offset addr = m.offset addr := rfl
  rw [read32_of_accessible (by rw [accessible_putBytes, h]), get32_eq, hoffset, h0, hbyte, hbyte,
    hbyte]
  exact congrArg Except.ok (Fields.ofBytes_lanes v)

/-- Words apart do not share a byte of memory. An address that is not mapped needs no care: a
read of it fails before and after. -/
theorem not_covers_of_apart {m : Memory} {a b : UInt32} (h : Apart a b)
    (ha : m.accessible a 4 = true) (hb : m.accessible b 4 = true) {i : Nat} (hi : Covers m b i) :
    ¬ Covers m a i := by
  have hbase := (accessible_iff.mp ha).1
  have hbase' := (accessible_iff.mp hb).1
  unfold Covers offset at hi ⊢
  unfold Apart at h
  omega

/-! ## Words one after the other -/

/-- Memory with words written to addresses, the first one first. -/
def writeAll (m : Memory) : List (UInt32 × UInt32) → Memory
  | [] => m
  | (addr, v) :: rest => writeAll (m.putBytes addr (wordBytes v)) rest

theorem writeAll_nil (m : Memory) : writeAll m [] = m := rfl

theorem writeAll_cons (m : Memory) (e : UInt32 × UInt32) (rest : List (UInt32 × UInt32)) :
    writeAll m (e :: rest) = writeAll (m.putBytes e.1 (wordBytes e.2)) rest := rfl

@[simp]
theorem base_writeAll (m : Memory) (entries : List (UInt32 × UInt32)) :
    (writeAll m entries).base = m.base := by
  induction entries generalizing m with
  | nil => rfl
  | cons e rest ih => rw [writeAll_cons, ih, base_putBytes]

@[simp]
theorem size_writeAll (m : Memory) (entries : List (UInt32 × UInt32)) :
    (writeAll m entries).data.size = m.data.size := by
  induction entries generalizing m with
  | nil => rfl
  | cons e rest ih => rw [writeAll_cons, ih, size_putBytes]

/-- Bytes that belong to none of the words stay as they were. -/
theorem byteAt_writeAll {m : Memory} {entries : List (UInt32 × UInt32)}
    (hacc : ∀ e ∈ entries, m.accessible e.1 4 = true) {i : Nat}
    (hi : ∀ e ∈ entries, ¬ Covers m e.1 i) : (writeAll m entries).byteAt i = m.byteAt i := by
  induction entries generalizing m with
  | nil => rfl
  | cons e rest ih =>
    have hrest : ∀ d ∈ rest, (m.putBytes e.1 (wordBytes e.2)).accessible d.1 4 = true := by
      intro d hd
      rw [accessible_putBytes]
      exact hacc d (List.mem_cons_of_mem e hd)
    rw [writeAll_cons, ih hrest fun d hd => hi d (List.mem_cons_of_mem e hd)]
    exact byteAt_putWord_outside (hacc e List.mem_cons_self) e.2 (hi e List.mem_cons_self)

/-- Words written apart from each other are all there in the end. -/
theorem read32_writeAll {m : Memory} {entries : List (UInt32 × UInt32)}
    (hacc : ∀ e ∈ entries, m.accessible e.1 4 = true)
    (hapart : entries.Pairwise fun d e => Apart d.1 e.1) :
    ∀ e ∈ entries, (writeAll m entries).read32 e.1 = .ok e.2 := by
  induction entries generalizing m with
  | nil => exact nofun
  | cons d rest ih =>
    obtain ⟨hd, hrest⟩ := List.pairwise_cons.mp hapart
    have hhead := hacc d List.mem_cons_self
    have hacc' : ∀ e ∈ rest, (m.putBytes d.1 (wordBytes d.2)).accessible e.1 4 = true := by
      intro e he
      rw [accessible_putBytes]
      exact hacc e (List.mem_cons_of_mem d he)
    intro e he
    rcases List.mem_cons.mp he with rfl | he
    · -- The later words lie apart from the first one, which therefore stays.
      have hkept : (writeAll m (e :: rest)).read32 e.1 =
          (m.putBytes e.1 (wordBytes e.2)).read32 e.1 := by
        rw [writeAll_cons]
        refine read32_congr (base_writeAll _ _) (size_writeAll _ _) fun i hi => ?_
        refine byteAt_writeAll hacc' fun c hc => ?_
        exact not_covers_of_apart (hd c hc).symm (hacc' c hc) (by rwa [accessible_putBytes]) hi
      rw [hkept, read32_putWord_self hhead]
    · exact ih hacc' hrest e he

/-- The bytes of a word that is read are those of its value. -/
theorem byteAt_of_read32 {m : Memory} {addr v : UInt32} (h : m.read32 addr = .ok v) {i : Nat}
    (hi : Covers m addr i) : (wordBytes v)[i - m.offset addr]? = some (m.byteAt i) := by
  have hget : m.get32 addr = v := by
    unfold read32 checked at h
    split at h
    · exact Except.ok.inj h
    · cases h
  rw [get32_eq] at hget
  subst hget
  obtain ⟨d, hd, rfl⟩ : ∃ d < 4, i = m.offset addr + d := by
    unfold Covers at hi
    exact ⟨i - m.offset addr, by omega, by omega⟩
  rw [Nat.add_sub_cancel_left, wordBytes, Fields.code_ofBytes, Fields.laneA_ofBytes,
    Fields.laneB_ofBytes, Fields.laneC_ofBytes]
  match d, hd with
  | 0, _ => rfl
  | 1, _ => rfl
  | 2, _ => rfl
  | 3, _ => rfl

/-- Words written apart from each other change no byte exactly when all of them were there
before. -/
theorem writeAll_unchanged_iff {m : Memory} {entries : List (UInt32 × UInt32)}
    (hacc : ∀ e ∈ entries, m.accessible e.1 4 = true)
    (hapart : entries.Pairwise fun d e => Apart d.1 e.1) :
    (∀ i, (writeAll m entries).byteAt i = m.byteAt i) ↔
      ∀ e ∈ entries, m.read32 e.1 = .ok e.2 := by
  have hread := read32_writeAll hacc hapart
  constructor
  · intro hsame e he
    rw [← hread e he]
    exact (read32_congr (base_writeAll m entries) (size_writeAll m entries)
      fun i _ => hsame i).symm
  · intro hthere i
    by_cases hcover : ∃ e ∈ entries, Covers m e.1 i
    · obtain ⟨e, he, hi⟩ := hcover
      have hoffset : (writeAll m entries).offset e.1 = m.offset e.1 := by
        rw [offset, offset, base_writeAll]
      have hi' : Covers (writeAll m entries) e.1 i := by
        unfold Covers at hi ⊢
        rwa [hoffset]
      have hafter := byteAt_of_read32 (hread e he) hi'
      rw [hoffset, byteAt_of_read32 (hthere e he) hi] at hafter
      exact (Option.some.inj hafter).symm
    · exact byteAt_writeAll hacc fun e he hi => hcover ⟨e, he, hi⟩

/-! ## Consecutive words -/

theorem ofNat_four_mul_succ (n : Nat) :
    UInt32.ofNat (4 * (n + 1)) = 4 + UInt32.ofNat (4 * n) := by
  rw [Nat.mul_succ, Nat.add_comm, UInt32.ofNat_add]
  rfl

theorem addressed_nil (addr : UInt32) : addressed addr [] = [] := rfl

theorem addressed_cons (addr w : UInt32) (ws : List UInt32) :
    addressed addr (w :: ws) = (addr, w) :: addressed (addr + 4) ws := rfl

theorem addressed_append (addr : UInt32) (xs ys : List UInt32) :
    addressed addr (xs ++ ys) =
      addressed addr xs ++ addressed (addr + UInt32.ofNat (4 * xs.length)) ys := by
  induction xs generalizing addr with
  | nil => simp [addressed_nil]
  | cons x xs ih =>
    rw [List.cons_append, addressed_cons, addressed_cons, List.cons_append, ih, List.length_cons,
      ofNat_four_mul_succ, UInt32.add_assoc]

theorem map_snd_addressed (addr : UInt32) (ws : List UInt32) :
    (addressed addr ws).map (·.2) = ws := by
  induction ws generalizing addr with
  | nil => rfl
  | cons w ws ih => rw [addressed_cons, List.map_cons, ih]

/-- The address of the word at each place. -/
theorem getElem?_addressed (addr : UInt32) (ws : List UInt32) (k : Nat) :
    (addressed addr ws)[k]? = ws[k]?.map fun w => (addr + UInt32.ofNat (4 * k), w) := by
  induction ws generalizing addr k with
  | nil => rfl
  | cons w ws ih =>
    cases k with
    | zero => simp [addressed_cons]
    | succ k =>
      rw [addressed_cons, List.getElem?_cons_succ, List.getElem?_cons_succ, ih, ofNat_four_mul_succ,
        UInt32.add_assoc]

theorem mem_addressed {addr : UInt32} {ws : List UInt32} {e : UInt32 × UInt32}
    (h : e ∈ addressed addr ws) : ∃ k < ws.length, e.1 = addr + UInt32.ofNat (4 * k) := by
  obtain ⟨k, hk⟩ := List.mem_iff_getElem?.mp h
  rw [getElem?_addressed] at hk
  obtain ⟨w, hw, rfl⟩ := Option.map_eq_some_iff.mp hk
  exact ⟨k, (List.getElem?_eq_some_iff.mp hw).1, rfl⟩

/-- Addresses less than a whole turn around the address space away lie apart. -/
theorem apart_add {a d : UInt32} (hlow : 4 ≤ d.toNat) (hhigh : d.toNat + 4 ≤ UInt32.size) :
    Apart a (a + d) := by
  have ha := a.toNat_lt
  unfold UInt32.size at hhigh
  unfold Apart
  rw [UInt32.toNat_add]
  omega

theorem apart_addressed (addr : UInt32) {ws : List UInt32} (h : 4 * ws.length ≤ UInt32.size) :
    (addressed addr ws).Pairwise fun d e => Apart d.1 e.1 := by
  induction ws generalizing addr with
  | nil => exact List.Pairwise.nil
  | cons w ws ih =>
    rw [List.length_cons] at h
    refine List.pairwise_cons.mpr ⟨fun e he => ?_, ih (addr + 4) (by omega)⟩
    obtain ⟨k, hk, he⟩ := mem_addressed he
    have hdist : (4 + UInt32.ofNat (4 * k)).toNat = 4 + 4 * k := by
      rw [UInt32.toNat_add, UInt32.toNat_ofNat_of_lt' (by omega)]
      exact Nat.mod_eq_of_lt (by change 4 + 4 * k < UInt32.size; omega)
    rw [he, UInt32.add_assoc]
    exact apart_add (by omega) (by omega)

/-- A load that succeeds has written its words at consecutive mapped addresses. -/
theorem load_eq_none {m m' : Memory} {addr : UInt32} {ws : List UInt32}
    (h : m.load addr ws = (m', none)) :
    (∀ e ∈ addressed addr ws, m.accessible e.1 4 = true) ∧ m' = writeAll m (addressed addr ws) := by
  induction ws generalizing m addr with
  | nil =>
    cases h
    exact ⟨nofun, rfl⟩
  | cons w ws ih =>
    unfold load at h
    split at h
    · rename_i hacc
      obtain ⟨hrest, hmem⟩ := ih h
      refine ⟨fun e he => ?_, hmem⟩
      rcases List.mem_cons.mp he with rfl | he
      · exact hacc
      · rw [← accessible_putBytes m addr (wordBytes w)]
        exact hrest e he
    · cases h

/-- A load writes its words up to the first one whose address is not mapped, and fails there. -/
theorem load_eq (m : Memory) (addr : UInt32) (ws : List UInt32) :
    m.load addr ws =
      (writeAll m ((addressed addr ws).takeWhile fun d => m.accessible d.1 4),
        ((addressed addr ws).find? fun d => !m.accessible d.1 4).map fun d => ⟨d.1, 4⟩) := by
  induction ws generalizing m addr with
  | nil => rfl
  | cons w ws ih =>
    unfold load
    rw [addressed_cons]
    split
    · rename_i hacc
      simp only [List.takeWhile_cons, List.find?_cons, hacc, if_true, Bool.not_true, ih,
        accessible_putBytes, writeAll_cons]
    · rename_i hacc
      have hacc : m.accessible addr 4 = false := Bool.eq_false_iff.mpr hacc
      simp only [List.takeWhile_cons, List.find?_cons, hacc, Bool.false_eq_true, if_false,
        Bool.not_false, writeAll_nil, Option.map_some]

theorem take_addressed (addr : UInt32) (ws : List UInt32) (k : Nat) :
    (addressed addr ws).take k = addressed addr (ws.take k) := by
  induction ws generalizing addr k with
  | nil => simp [addressed_nil]
  | cons w ws ih =>
    cases k with
    | zero => rfl
    | succ k => rw [addressed_cons, List.take_succ_cons, List.take_succ_cons, addressed_cons, ih]

/-- Consecutive words that are all mapped do not go around the address space, as the memory does
not fill it. -/
theorem length_lt_of_accessible {m : Memory} {addr : UInt32} {ws : List UInt32}
    (hsize : m.data.size < UInt32.size) (hacc : ∀ d ∈ addressed addr ws, m.accessible d.1 4 = true) :
    4 * ws.length < UInt32.size := by
  have hmapped (k : Nat) (hk : k < ws.length) :
      m.accessible (addr + UInt32.ofNat (4 * k)) 4 = true := by
    have hget : (addressed addr ws)[k]? = some (addr + UInt32.ofNat (4 * k), ws[k]) := by
      rw [getElem?_addressed, List.getElem?_eq_getElem hk, Option.map_some]
    exact hacc _ (List.mem_of_getElem? hget)
  refine Nat.lt_of_not_le fun hlong => ?_
  change 4294967296 ≤ 4 * ws.length at hlong
  change m.data.size < 4294967296 at hsize
  have haddr := addr.toNat_lt
  -- The last word before the end of the address space, and one that begins within its first four
  -- bytes: the next word, or the first one of all.
  obtain ⟨k, hk, hk'⟩ : ∃ k, 4294967292 ≤ addr.toNat + 4 * k ∧ addr.toNat + 4 * k < 4294967296 :=
    ⟨(4294967295 - addr.toNat) / 4, by omega, by omega⟩
  obtain ⟨j, hj, hj'⟩ : ∃ j < ws.length, (addr.toNat + 4 * j) % 4294967296 < 4 := by
    by_cases hfirst : addr.toNat < 4
    · exact ⟨0, by omega, by omega⟩
    · exact ⟨k + 1, by omega, by omega⟩
  obtain ⟨-, hhigh⟩ := accessible_iff.mp (hmapped k (by omega))
  obtain ⟨hlow, -⟩ := accessible_iff.mp (hmapped j hj)
  unfold offset at hhigh
  rw [UInt32.toNat_add, UInt32.toNat_ofNat'] at hhigh hlow
  change _ + 4 ≤ _ at hhigh
  omega

theorem length_le_of_accessible {m : Memory} {addr : UInt32} {ws : List UInt32}
    (hsize : m.data.size < UInt32.size) (hacc : ∀ d ∈ addressed addr ws, m.accessible d.1 4 = true) :
    4 * ws.length ≤ UInt32.size :=
  Nat.le_of_lt (length_lt_of_accessible hsize hacc)

end TaskMachine.Words
