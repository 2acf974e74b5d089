import TaskMachine.Proofs.Processor.Effects
import TaskMachine.Proofs.Store.Words

/-!
# Accesses to memory

Memory is a bounded array of bytes. An access succeeds exactly when all its bytes
are mapped, counted without wrapping around, and the test for it may as well be
made in 64-bit arithmetic. A read of any width gives the number that its bytes
stand for, the low one first, and what a write, a copy or a fill leaves behind is
known byte by byte. A call that fails leaves everything as it was.
-/

namespace TaskMachine.Accesses

open Memory Words Stateful Effects Exec
open Word (regA regB regC laneA laneB laneC code)

/-! ## Bounds -/

/-- The number of bytes of an access. -/
def extent : Width → Nat
  | .byte => 1
  | .half => 2
  | .word => 4

/-- So many bytes from an address on are mapped. -/
def Inside (m : Memory) (addr : UInt32) (n : Nat) : Prop :=
  m.base.toNat ≤ addr.toNat ∧ ((addr.toNat : Int) - m.base.toNat) + n ≤ m.data.size

/-- The test in 64-bit arithmetic, where the distance to an address below the base wraps around. -/
def within64 (m : Memory) (addr size : UInt32) : Bool :=
  let offset := addr.toUInt64 - m.base.toUInt64
  !(addr < m.base || offset + size.toUInt64 > UInt64.ofNat m.data.size)

theorem accessible_iff_inside {m : Memory} {addr size : UInt32} :
    m.accessible addr size = true ↔ Inside m addr size.toNat := by
  rw [accessible_iff]
  unfold Inside offset
  omega

theorem toNat_extent (size : Width) : (UInt32.ofNat (extent size)).toNat = extent size := by
  cases size <;> rfl

/-- For memories of less than four gigabytes, the 64-bit test is exact. -/
theorem within64_eq_accessible {m : Memory} (hsize : m.data.size < 2 ^ 32) (addr size : UInt32) :
    within64 m addr size = m.accessible addr size := by
  have haddr := addr.toNat_lt
  have hbase := m.base.toNat_lt
  have hcount := size.toNat_lt
  have hlength : (UInt64.ofNat m.data.size).toNat = m.data.size :=
    UInt64.toNat_ofNat_of_lt' (Nat.lt_trans hsize (by decide))
  rw [Bool.eq_iff_iff, accessible_iff]
  unfold within64 offset
  simp only [Bool.not_eq_true', Bool.or_eq_false_iff, decide_eq_false_iff_not, gt_iff_lt,
    UInt32.lt_iff_toNat_lt, UInt64.lt_iff_toNat_lt, UInt64.toNat_add, UInt64.toNat_sub,
    UInt32.toNat_toUInt64, hlength]
  omega

theorem checked_eq_ok {α : Type} {m : Memory} {addr size : UInt32} {result : Unit → α} {a : α} :
    m.checked addr size result = .ok a ↔ m.accessible addr size = true ∧ result () = a := by
  unfold checked
  split
  · rename_i h
    rw [Except.ok.injEq]
    exact ⟨fun ha => ⟨h, ha⟩, fun ha => ha.2⟩
  · rename_i h
    exact ⟨nofun, fun ha => absurd ha.1 h⟩

theorem exists_checked_eq_ok {α : Type} {m : Memory} {addr size : UInt32} {result : Unit → α} :
    (∃ a, m.checked addr size result = .ok a) ↔ Inside m addr size.toNat := by
  simp only [checked_eq_ok, exists_and_left, exists_eq', and_true, accessible_iff_inside]

/-! ## Numbers of bytes -/

/-- The number that so many bytes from a position on stand for, the low one first. -/
def numberAt (byte : Nat → UInt8) (i : Nat) : Nat → Nat
  | 0 => 0
  | n + 1 => (byte i).toNat + 0x100 * numberAt byte (i + 1) n

/-- A byte of a number, counted from the low end. -/
def digit (v : UInt32) (k : Nat) : UInt8 := UInt8.ofNat (v.toNat / 0x100 ^ k)

theorem numberAt_congr {byte byte' : Nat → UInt8} {i n : Nat}
    (h : ∀ j, i ≤ j → j < i + n → byte j = byte' j) : numberAt byte i n = numberAt byte' i n := by
  induction n generalizing i with
  | zero => rfl
  | succ n ih =>
    rw [numberAt, numberAt, h i (Nat.le_refl i) (by omega),
      ih fun j hlo hhi => h j (by omega) (by omega)]

/-- The bytes of a stored number. -/
theorem storedBytes_eq (v : UInt32) (size : Width) :
    storedBytes v size = (List.range (extent size)).map (digit v) := by
  have hbyte (k : UInt32) (i : Nat) (hk : k.toNat = 8 * i) (hlt : k.toNat < 32) :
      (v >>> k).toUInt8 = digit v i := by
    apply UInt8.toNat_inj.mp
    rw [Fields.toNat_shiftRight_toUInt8 v k hlt, digit, UInt8.toNat_ofNat', hk,
      Nat.shiftRight_eq_div_pow, Nat.pow_mul]
  have hlow : v.toUInt8 = digit v 0 := by
    apply UInt8.toNat_inj.mp
    rw [UInt32.toNat_toUInt8, digit, UInt8.toNat_ofNat', Nat.pow_zero, Nat.div_one]
  have hhigh : (v.toUInt16 >>> 8).toUInt8 = digit v 1 := by
    have hv := v.toNat_lt
    apply UInt8.toNat_inj.mp
    rw [UInt16.toNat_toUInt8, UInt16.toNat_shiftRight, UInt32.toNat_toUInt16, digit,
      UInt8.toNat_ofNat', Nat.pow_one]
    change (v.toNat % 2 ^ 16) >>> 8 % 2 ^ 8 = _
    rw [Nat.shiftRight_eq_div_pow]
    omega
  have hcut : v.toUInt16.toUInt8 = v.toUInt8 := by
    apply UInt8.toNat_inj.mp
    rw [UInt16.toNat_toUInt8, UInt32.toNat_toUInt16, UInt32.toNat_toUInt8]
    omega
  cases size with
  | byte =>
    change [v.toUInt8] = [digit v 0]
    rw [hlow]
  | half =>
    change [v.toUInt16.toUInt8, (v.toUInt16 >>> 8).toUInt8] = [digit v 0, digit v 1]
    rw [hcut, hlow, hhigh]
  | word =>
    change [v.toUInt8, (v >>> 8).toUInt8, (v >>> 16).toUInt8, (v >>> 24).toUInt8] =
      [digit v 0, digit v 1, digit v 2, digit v 3]
    rw [hlow, hbyte 8 1 rfl (by decide), hbyte 16 2 rfl (by decide), hbyte 24 3 rfl (by decide)]

theorem toNat_get16 (m : Memory) (addr : UInt32) :
    (m.get16 addr).toNat = numberAt m.byteAt (m.offset addr) 2 := by
  have hlow := (m.byteAt (m.offset addr)).toNat_lt
  have hhigh := (m.byteAt (m.offset addr + 1)).toNat_lt
  unfold get16
  simp only [UInt16.toNat_or, UInt16.toNat_shiftLeft, UInt8.toNat_toUInt16, numberAt]
  change _ ||| _ <<< 8 % 2 ^ 16 = _
  rw [Nat.mod_eq_of_lt (by rw [Nat.shiftLeft_eq]; omega), Nat.or_comm,
    ← Nat.shiftLeft_add_eq_or_of_lt hlow, Nat.shiftLeft_eq]
  omega

theorem toNat_get32 (m : Memory) (addr : UInt32) :
    (m.get32 addr).toNat = numberAt m.byteAt (m.offset addr) 4 := by
  rw [get32_eq, Fields.toNat_ofBytes]
  simp only [numberAt, Nat.add_assoc, Nat.reduceAdd]
  omega

/-! ## Reads and writes of any width -/

/-- Reads a number. -/
def read (m : Memory) (addr : UInt32) : Width → Except AddressError Nat
  | .byte => (m.read8 addr).map UInt8.toNat
  | .half => (m.read16 addr).map UInt16.toNat
  | .word => (m.read32 addr).map UInt32.toNat

/-- Writes the low part of a number. -/
def write (m : Memory) (addr v : UInt32) : Width → Except AddressError Memory
  | .byte => m.write8 addr v.toUInt8
  | .half => m.write16 addr v.toUInt16
  | .word => m.write32 addr v

/-- The bytes of a memory with those of a number written over them. -/
def overwritten (m : Memory) (addr v : UInt32) (size : Width) (i : Nat) : UInt8 :=
  if m.offset addr ≤ i ∧ i < m.offset addr + extent size then digit v (i - m.offset addr)
  else m.byteAt i

theorem map_checked {α β : Type} (m : Memory) (addr size : UInt32) (result : Unit → α)
    (f : α → β) :
    (m.checked addr size result).map f = m.checked addr size fun u => f (result u) := by
  unfold checked
  split <;> rfl

theorem read_eq (m : Memory) (addr : UInt32) (size : Width) :
    read m addr size = m.checked addr (UInt32.ofNat (extent size)) fun _ =>
      numberAt m.byteAt (m.offset addr) (extent size) := by
  cases size with
  | byte => exact map_checked m addr 1 _ _
  | half =>
    rw [read, read16, map_checked, toNat_get16]
    rfl
  | word =>
    rw [read, read32, map_checked, toNat_get32]
    rfl

theorem write_eq (m : Memory) (addr v : UInt32) (size : Width) :
    write m addr v size = m.checked addr (UInt32.ofNat (extent size)) fun _ =>
      m.putBytes addr (storedBytes v size) := by
  cases size <;> rfl

theorem byteAt_putStored {m : Memory} {addr : UInt32} {size : Width}
    (h : m.accessible addr (UInt32.ofNat (extent size)) = true) (v : UInt32) (i : Nat) :
    (m.putBytes addr (storedBytes v size)).byteAt i = overwritten m addr v size i := by
  have hfits := (accessible_iff.mp h).2
  rw [toNat_extent] at hfits
  have hlength : (storedBytes v size).length = extent size := by
    rw [storedBytes_eq, List.length_map, List.length_range]
  change (m.data.setAll (m.offset addr) (storedBytes v size)).get i = _
  rw [Bytes.get_setAll _ _ _ _ (by rw [hlength]; exact hfits), storedBytes_eq, List.getElem?_map]
  unfold overwritten
  by_cases hlo : m.offset addr ≤ i
  · by_cases hhi : i - m.offset addr < extent size
    · rw [if_pos hlo, if_pos ⟨hlo, by omega⟩, List.getElem?_range hhi]
      rfl
    · rw [if_pos hlo, if_neg (by omega), List.getElem?_eq_none (by rw [List.length_range]; omega)]
      rfl
  · rw [if_neg hlo, if_neg fun hi => hlo hi.1]
    rfl

/-- Reading after a write. -/
theorem read_of_write {m m' : Memory} {addr v : UInt32} {size : Width}
    (h : write m addr v size = .ok m') {addr' : UInt32} {size' : Width}
    (hinside : Inside m addr' (extent size')) :
    read m' addr' size' =
      .ok (numberAt (overwritten m addr v size) (m.offset addr') (extent size')) := by
  rw [write_eq, checked_eq_ok] at h
  obtain ⟨hacc, rfl⟩ := h
  rw [← toNat_extent, ← accessible_iff_inside] at hinside
  rw [read_eq, checked_eq_ok, accessible_putBytes]
  exact ⟨hinside, numberAt_congr fun j _ _ => byteAt_putStored hacc v j⟩

/-! ## Blocks -/

theorem exists_copy_eq_ok {m : Memory} {dst src count : UInt32} :
    (∃ m', m.copy dst src count = .ok m') ↔
      Inside m src count.toNat ∧ Inside m dst count.toNat := by
  unfold copy
  split
  · rename_i h
    rw [exists_checked_eq_ok]
    exact (and_iff_right (accessible_iff_inside.mp h)).symm
  · rename_i h
    exact ⟨nofun, fun hm => absurd (accessible_iff_inside.mpr hm.1) h⟩

theorem copy_eq_ok {m m' : Memory} {dst src count : UInt32} (h : m.copy dst src count = .ok m') :
    m.accessible dst count = true ∧ m.copyBytes dst src count = m' := by
  unfold copy at h
  split at h
  · exact checked_eq_ok.mp h
  · cases h

theorem byteAt_copy {m m' : Memory} {dst src count : UInt32} (h : m.copy dst src count = .ok m')
    (j : Nat) :
    m'.byteAt j = if m.offset dst ≤ j ∧ j < m.offset dst + count.toNat then
      m.byteAt (j - m.offset dst + m.offset src) else m.byteAt j := by
  obtain ⟨hacc, rfl⟩ := copy_eq_ok h
  exact Bytes.get_copyWithin _ _ _ _ _ (accessible_iff.mp hacc).2

theorem byteAt_fill {m m' : Memory} {dst count : UInt32} {value : UInt8}
    (h : m.fill dst value count = .ok m') (j : Nat) :
    m'.byteAt j = if m.offset dst ≤ j ∧ j < m.offset dst + count.toNat then value
      else m.byteAt j := by
  obtain ⟨hacc, rfl⟩ := checked_eq_ok.mp h
  exact Bytes.get_fill _ _ _ _ _ (accessible_iff.mp hacc).2

/-- The memory has the same bounds as before. -/
def SameBounds (m m' : Memory) : Prop := m'.base = m.base ∧ m'.data.size = m.data.size

theorem sameBounds_write {m m' : Memory} {addr v : UInt32} {size : Width}
    (h : write m addr v size = .ok m') : SameBounds m m' := by
  rw [write_eq, checked_eq_ok] at h
  obtain ⟨-, rfl⟩ := h
  exact ⟨rfl, size_putBytes _ _ _⟩

theorem sameBounds_copy {m m' : Memory} {dst src count : UInt32}
    (h : m.copy dst src count = .ok m') : SameBounds m m' := by
  obtain ⟨-, rfl⟩ := copy_eq_ok h
  exact ⟨rfl, Bytes.size_copyWithin _ _ _ _⟩

theorem sameBounds_fill {m m' : Memory} {dst count : UInt32} {value : UInt8}
    (h : m.fill dst value count = .ok m') : SameBounds m m' := by
  obtain ⟨-, rfl⟩ := checked_eq_ok.mp h
  exact ⟨rfl, Bytes.size_fill _ _ _ _⟩

/-! ## Calls from instructions -/

/-- What a call leaves to the instruction that makes it: a machine with the new memory, or a fault
in a machine where nothing has changed. -/
def afterCall (m : Machine) : Except AddressError Memory → EStateM.Result Fault Machine Unit
  | .ok mem => .ok () { m with mem }
  | .error e => .error (.address e) m

/-- What a read leaves to the instruction that makes it. -/
def afterRead (m : Machine) : Except AddressError Nat → EStateM.Result Fault Machine UInt32
  | .ok x => .ok (UInt32.ofNat x) m
  | .error e => .error (.address e) m

theorem requireAccess_apply (m : Machine) (addr size : UInt32) :
    requireAccess addr size m =
      if m.mem.accessible addr size then .ok () m else .error (.address ⟨addr, size⟩) m := by
  change (if m.mem.accessible addr size then pure () else throw _ : Exec Unit) m = _
  split <;> rfl

theorem storeBytes_eq (m : Machine) (addr v : UInt32) (size : Width) :
    storeBytes addr (storedBytes v size) m = afterCall m (write m.mem addr v size) := by
  have hlength : (storedBytes v size).length = extent size := by
    rw [storedBytes_eq, List.length_map, List.length_range]
  change (requireAccess addr (UInt32.ofNat (storedBytes v size).length) >>= _) m = _
  have hcheck := requireAccess_apply m addr (UInt32.ofNat (extent size))
  rw [hlength, write_eq, checked]
  split at hcheck
  · rename_i h
    rw [bind_of_ok hcheck, if_pos h]
    rfl
  · rename_i h
    rw [bind_of_error hcheck, if_neg h]
    rfl

theorem loadValue_eq (m : Machine) (addr : UInt32) (size : Width) :
    loadValue addr size false m = afterRead m (read m.mem addr size) := by
  have hload {α : Type} (count : UInt32) (get : Memory → α) (number : α → Nat)
      (word : α → UInt32) (hword : ∀ v, UInt32.ofNat (number v) = word v) :
      ((requireAccess addr count >>= fun _ => do return get (← MonadState.get).mem) >>=
        fun v => pure (word v) : Exec UInt32) m =
        afterRead m ((m.mem.checked addr count fun _ => get m.mem).map number) := by
    have hcheck := requireAccess_apply m addr count
    unfold checked
    split at hcheck
    · rename_i h
      have hget : (requireAccess addr count >>= fun _ => do return get (← MonadState.get).mem :
          Exec α) m = .ok (get m.mem) m := bind_of_ok hcheck _
      rw [bind_of_ok hget, if_pos h]
      exact congrArg (EStateM.Result.ok · m) (hword _).symm
    · rename_i h
      rw [bind_of_error (bind_of_error hcheck _), if_neg h]
      rfl
  cases size with
  | byte => exact hload 1 (·.get8 addr) UInt8.toNat UInt8.toUInt32 UInt32.ofNat_uInt8ToNat
  | half => exact hload 2 (·.get16 addr) UInt16.toNat UInt16.toUInt32 UInt32.ofNat_uInt16ToNat
  | word =>
    exact (congrFun (bind_pure (load32 addr)) m).symm.trans
      (hload 4 (·.get32 addr) UInt32.toNat id fun _ => UInt32.ofNat_toNat)

theorem perform_copy (pool : Option Pool) (w : UInt32) (m : Machine) :
    Action.copy.perform pool w m = afterCall m
      (m.mem.copy (m.regs.get (regA w)) (m.regs.get (regB w)) (m.regs.get (regC w))) := by
  change (requireAccess (m.regs.get (regB w)) (m.regs.get (regC w)) >>= fun _ =>
    requireAccess (m.regs.get (regA w)) (m.regs.get (regC w)) >>= _) m = _
  have hsrc := requireAccess_apply m (m.regs.get (regB w)) (m.regs.get (regC w))
  have hdst := requireAccess_apply m (m.regs.get (regA w)) (m.regs.get (regC w))
  unfold copy checked
  split at hsrc
  · rename_i h
    rw [bind_of_ok hsrc, if_pos h]
    split at hdst
    · rename_i h'
      rw [bind_of_ok hdst, if_pos h']
      rfl
    · rename_i h'
      rw [bind_of_error hdst, if_neg h']
      rfl
  · rename_i h
    rw [bind_of_error hsrc, if_neg h]
    rfl

theorem perform_fill (pool : Option Pool) (w : UInt32) (m : Machine) :
    Action.fill.perform pool w m = afterCall m
      (m.mem.fill (m.regs.get (regA w)) (m.regs.get (regB w)).toUInt8 (m.regs.get (regC w))) := by
  change (requireAccess (m.regs.get (regA w)) (m.regs.get (regC w)) >>= _) m = _
  have hdst := requireAccess_apply m (m.regs.get (regA w)) (m.regs.get (regC w))
  unfold fill checked
  split at hdst
  · rename_i h
    rw [bind_of_ok hdst, if_pos h]
    rfl
  · rename_i h
    rw [bind_of_error hdst, if_neg h]
    rfl

/-! ## Memory as an array of bytes -/

/-- Memory of less than four gigabytes is a bounded little-endian array of bytes. The 64-bit test
and all calls accept exactly the ranges inside the memory. After a write, numbers of any width read
as the bytes with the written ones replaced; a copy moves the old bytes of its source, also where
the ranges overlap, and a fill sets its range, and neither changes another byte. An instruction
whose call fails stops in the machine that it found. -/
theorem bounded_little_endian (m : Memory) (hsize : m.data.size < 2 ^ 32) :
    (∀ addr size : UInt32, within64 m addr size = true ↔ Inside m addr size.toNat) ∧
    (∀ addr size, (∃ x, read m addr size = .ok x) ↔ Inside m addr (extent size)) ∧
    (∀ addr v size, (∃ m', write m addr v size = .ok m') ↔ Inside m addr (extent size)) ∧
    (∀ dst value count, (∃ m', m.fill dst value count = .ok m') ↔ Inside m dst count.toNat) ∧
    (∀ dst src count, (∃ m', m.copy dst src count = .ok m') ↔
      Inside m src count.toNat ∧ Inside m dst count.toNat) ∧
    (∀ addr v size m', write m addr v size = .ok m' → SameBounds m m' ∧
      ∀ addr' size', Inside m addr' (extent size') → read m' addr' size' =
        .ok (numberAt (overwritten m addr v size) (m.offset addr') (extent size'))) ∧
    (∀ dst src count m', m.copy dst src count = .ok m' → SameBounds m m' ∧
      ∀ j, m'.byteAt j = if m.offset dst ≤ j ∧ j < m.offset dst + count.toNat then
        m.byteAt (j - m.offset dst + m.offset src) else m.byteAt j) ∧
    (∀ dst value count m', m.fill dst value count = .ok m' → SameBounds m m' ∧
      ∀ j, m'.byteAt j = if m.offset dst ≤ j ∧ j < m.offset dst + count.toNat then value
        else m.byteAt j) ∧
    ∀ (n : Machine) (pool : Option Pool) (w : UInt32), n.mem = m →
      (∀ addr size, loadValue addr size false n = afterRead n (read m addr size)) ∧
      (∀ addr v size, storeBytes addr (storedBytes v size) n = afterCall n (write m addr v size)) ∧
      Action.copy.perform pool w n = afterCall n
        (m.copy (n.regs.get (regA w)) (n.regs.get (regB w)) (n.regs.get (regC w))) ∧
      Action.fill.perform pool w n = afterCall n
        (m.fill (n.regs.get (regA w)) (n.regs.get (regB w)).toUInt8 (n.regs.get (regC w))) := by
  refine ⟨fun addr size => ?_, fun addr size => ?_, fun addr v size => ?_,
    fun dst value count => exists_checked_eq_ok, fun dst src count => exists_copy_eq_ok,
    fun addr v size m' h => ⟨sameBounds_write h, fun _ _ => read_of_write h⟩,
    fun dst src count m' h => ⟨sameBounds_copy h, byteAt_copy h⟩,
    fun dst value count m' h => ⟨sameBounds_fill h, byteAt_fill h⟩, ?_⟩
  · rw [within64_eq_accessible hsize, accessible_iff_inside]
  · simp only [read_eq, exists_checked_eq_ok, toNat_extent]
  · simp only [write_eq, exists_checked_eq_ok, toNat_extent]
  · rintro n pool w rfl
    exact ⟨loadValue_eq n, storeBytes_eq n, perform_copy pool w n, perform_fill pool w n⟩

/-- Eight bytes that end at the top of the address space. -/
def topmost : Memory := .zeroed 0xfffffff8 8

/-- A word across the end fails, one up to the end does not, and a half in the middle of it reads
its middle bytes. -/
theorem bounded_little_endian_topmost :
    (¬ ∃ x, read topmost 0xfffffffd .word = .ok x) ∧
    ∃ m', write topmost 0xfffffffc 0x12345678 .word = .ok m' ∧
      read m' 0xfffffffd .half = .ok 0x3456 := by
  obtain ⟨-, hread, hwrite, -, -, hover, -⟩ := bounded_little_endian topmost (by decide)
  have hinside : Inside topmost 0xfffffffc 4 := by
    unfold Inside
    decide
  have hhalf : Inside topmost 0xfffffffd 2 := by
    unfold Inside
    decide
  refine ⟨?_, ?_⟩
  · rw [hread]
    unfold Inside
    decide
  · obtain ⟨m', hm'⟩ := (hwrite 0xfffffffc 0x12345678 .word).mpr hinside
    have hvalue : numberAt (overwritten topmost 0xfffffffc 0x12345678 .word)
        (topmost.offset 0xfffffffd) (extent .half) = 0x3456 := by decide +kernel
    exact ⟨m', hm', by rw [(hover _ _ _ _ hm').2 _ .half hhalf, hvalue]⟩

end TaskMachine.Accesses
