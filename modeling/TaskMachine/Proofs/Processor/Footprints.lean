import TaskMachine.Proofs.Processor.Faults

/-!
# What instructions read and write in memory

The footprint of an instruction lists the positions of memory that it reads and
those that it writes: its own word, its info word if it asks for one, and then
what a load, a store, a push, a pop, a copy or a fill comes to before a fault. An
instruction sees the rest of memory only through its extent. So two machines with
the same registers that agree on what is read end alike, with the same values
written and all else kept; `local_step` says this once for all instructions.
-/

namespace TaskMachine.Footprints

open Stateful Exec Effects Words Faults
open Word (regA regB regC laneC)

/-! ## Footprints -/

/-- Positions of memory in a row. -/
structure Span where
  start : Nat
  count : Nat
  deriving DecidableEq, Repr

/-- The position belongs to one of the spans. -/
def Covered (spans : List Span) (i : Nat) : Prop :=
  ∃ span ∈ spans, span.start ≤ i ∧ i < span.start + span.count

/-- The positions that are read, and those that are written. -/
structure Footprint where
  reads : List Span := []
  writes : List Span := []
  deriving DecidableEq, Repr

instance : Append Footprint := ⟨fun f g => ⟨f.reads ++ g.reads, f.writes ++ g.writes⟩⟩

theorem covered_append {xs ys : List Span} {i : Nat} :
    Covered (xs ++ ys) i ↔ Covered xs i ∨ Covered ys i := by
  simp [Covered, or_and_right, exists_or]

theorem covered_singleton {span : Span} {i : Nat} :
    Covered [span] i ↔ span.start ≤ i ∧ i < span.start + span.count := by
  simp [Covered]

theorem not_covered_nil (i : Nat) : ¬ Covered [] i := by simp [Covered]

theorem append_nothing (f : Footprint) : f ++ ({} : Footprint) = f :=
  show Footprint.mk (f.reads ++ []) (f.writes ++ []) = f by rw [List.append_nil, List.append_nil]

/-- The bytes of an access; there are none unless all of them are mapped. -/
def access (m : Memory) (addr size : UInt32) : List Span :=
  if m.accessible addr size then [⟨m.offset addr, size.toNat⟩] else []

/-- The words at some addresses, up to the first one that is not mapped. -/
def reached (m : Memory) (addrs : List UInt32) : List Span :=
  (addrs.takeWhile fun addr => m.accessible addr 4).map fun addr => ⟨m.offset addr, 4⟩

theorem access_of_mapped {m : Memory} {addr size : UInt32} (h : m.accessible addr size = true) :
    access m addr size = [⟨m.offset addr, size.toNat⟩] := if_pos h

theorem access_of_unmapped {m : Memory} {addr size : UInt32} (h : m.accessible addr size = false) :
    access m addr size = [] := if_neg (Bool.eq_false_iff.mp h)

theorem reached_of_mapped {m : Memory} {addr : UInt32} (h : m.accessible addr 4 = true)
    (rest : List UInt32) : reached m (addr :: rest) = access m addr 4 ++ reached m rest := by
  rw [access_of_mapped h, reached, List.takeWhile_cons, h]
  rfl

theorem reached_of_unmapped {m : Memory} {addr : UInt32} (h : m.accessible addr 4 = false)
    (rest : List UInt32) : reached m (addr :: rest) = access m addr 4 := by
  rw [access_of_unmapped h, reached, List.takeWhile_cons, h]
  rfl

/-- The addresses that so many words are pushed to, in the order of the writes. -/
def pushedAt : Nat → UInt32 → List UInt32
  | 0, _ => []
  | n + 1, sp => (sp - 4) :: pushedAt n (sp - 4)

/-- The addresses that so many words are popped from, in the order of the reads. -/
def poppedAt : Nat → UInt32 → List UInt32
  | 0, _ => []
  | n + 1, sp => sp :: poppedAt n (sp + 4)

/-- What a further part of a computation reads and writes, if it is reached. -/
def onward {ε α : Type} (r : EStateM.Result ε Machine α) (h : α → Machine → Footprint) :
    Footprint :=
  match r with
  | .ok a m => h a m
  | .error _ _ => {}

theorem onward_ok {ε α : Type} (a : α) (m : Machine) (h : α → Machine → Footprint) :
    onward (.ok a m : EStateM.Result ε Machine α) h = h a m := rfl

def widthBytes : Width → UInt32
  | .byte => 1
  | .half => 2
  | .word => 4

/-- What a copy reads and writes: both ranges are checked before the first byte is moved. -/
def inCopy (m : Memory) (dst src count : UInt32) : Footprint :=
  if m.accessible src count && m.accessible dst count then
    ⟨access m src count, access m dst count⟩
  else {}

/-- What an action reads and writes beside its info word. -/
def operands (pool : Option Pool) (w : UInt32) (m : Machine) : Action → Footprint
  | .load size _ =>
    onward (operandAddress pool w m) fun addr m' =>
      { reads := access m'.mem addr (widthBytes size) }
  | .store size =>
    onward (operandAddress pool w m) fun addr m' =>
      { writes := access m'.mem addr (widthBytes size) }
  | .push =>
    { writes := reached m.mem (pushedAt (Reg.range (regA w) (regB w)).length (m.regs.get Reg.sp)) }
  | .pop =>
    let frame := m.regs.get Reg.sp + (laneC w).toUInt32 * 4
    { reads := reached m.mem (poppedAt (Reg.range (regA w) (regB w)).length frame) }
  | .copy => inCopy m.mem (m.regs.get (regA w)) (m.regs.get (regB w)) (m.regs.get (regC w))
  | .fill => { writes := access m.mem (m.regs.get (regA w)) (m.regs.get (regC w)) }
  | _ => {}

/-- What an action reads and writes once the word of its instruction has been passed. -/
def inAction (pool : Option Pool) (w : UInt32) (m : Machine) (a : Action) : Footprint :=
  (if asksInfo w m.regs a then { reads := access m.mem m.pc 4 } else {}) ++ operands pool w m a

def inWord (pool : Option Pool) (w : UInt32) (m : Machine) : Footprint :=
  match Opcode.ofCode? (Word.code w) with
  | some op => inAction pool w (past m) op.action
  | none => {}

/-- What a step reads and writes. -/
def inStep (pool : Option Pool) (m : Machine) : Footprint :=
  { reads := access m.mem m.pc 4 } ++
    match m.mem.read32 m.pc with
    | .ok word => inWord pool word m
    | .error _ => {}

/-! ## Machines that agree -/

/-- The same processor at memories of the same extent. -/
structure Alike (m n : Machine) : Prop where
  cpu : n.toCpu = m.toCpu
  base : n.mem.base = m.mem.base
  size : n.mem.data.size = m.mem.data.size

def AgreeOn (spans : List Span) (m n : Machine) : Prop :=
  ∀ i, Covered spans i → n.mem.byteAt i = m.mem.byteAt i

/-- On the way from `m` to `m'` and from `n` to `n'` the same positions were given the same values,
and all others were kept. -/
structure Moved (f : Footprint) (m n m' n' : Machine) : Prop where
  alike : Alike m' n'
  written : AgreeOn f.writes m' n'
  keptLeft : ∀ i, ¬ Covered f.writes i → m'.mem.byteAt i = m.mem.byteAt i
  keptRight : ∀ i, ¬ Covered f.writes i → n'.mem.byteAt i = n.mem.byteAt i

/-- The two computations ended in the same way, in related states. -/
inductive SameEnd {ε α : Type} (R : Machine → Machine → Prop) :
    EStateM.Result ε Machine α → EStateM.Result ε Machine α → Prop
  | ok {m n : Machine} (a : α) (h : R m n) : SameEnd R (.ok a m) (.ok a n)
  | error {m n : Machine} (e : ε) (h : R m n) : SameEnd R (.error e m) (.error e n)

/-- The computation reads and writes what its footprint says: machines that agree on what is read
have the same footprint, end alike and write the same. -/
def Local {ε α : Type} (f : Machine → Footprint) (x : EStateM ε Machine α) : Prop :=
  ∀ m n, Alike m n → AgreeOn (f m).reads m n →
    f n = f m ∧ SameEnd (Moved (f m) m n) (x m) (x n)

theorem SameEnd.imp {ε α : Type} {R S : Machine → Machine → Prop}
    {r r' : EStateM.Result ε Machine α} (h : SameEnd R r r') (hRS : ∀ m n, R m n → S m n) :
    SameEnd S r r' := by
  cases h with
  | ok a h => exact .ok a (hRS _ _ h)
  | error e h => exact .error e (hRS _ _ h)

section

variable {m n m' n' m'' n'' : Machine} {f g : Footprint}

theorem Alike.symm (h : Alike m n) : Alike n m := ⟨h.cpu.symm, h.base.symm, h.size.symm⟩

theorem Alike.trans (h : Alike m n) (k : Alike n m') : Alike m m' :=
  ⟨k.cpu.trans h.cpu, k.base.trans h.base, k.size.trans h.size⟩

theorem Alike.offset (h : Alike m n) (addr : UInt32) : n.mem.offset addr = m.mem.offset addr := by
  rw [Memory.offset, Memory.offset, h.base]

theorem Alike.accessible (h : Alike m n) (addr size : UInt32) :
    n.mem.accessible addr size = m.mem.accessible addr size := by
  rw [Memory.accessible, Memory.accessible, h.offset, h.base, h.size]

theorem Alike.regs (h : Alike m n) : n.regs = m.regs := congrArg Cpu.regs h.cpu

theorem Alike.access (h : Alike m n) (addr size : UInt32) :
    access n.mem addr size = access m.mem addr size := by
  rw [Footprints.access, Footprints.access, h.accessible, h.offset]

theorem AgreeOn.left {xs ys : List Span} (h : AgreeOn (xs ++ ys) m n) : AgreeOn xs m n :=
  fun i hi => h i (covered_append.mpr (.inl hi))

theorem AgreeOn.right {xs ys : List Span} (h : AgreeOn (xs ++ ys) m n) : AgreeOn ys m n :=
  fun i hi => h i (covered_append.mpr (.inr hi))

theorem Moved.refl {spans : List Span} (h : Alike m n) : Moved { reads := spans } m n m n where
  alike := h
  written i hi := absurd hi (not_covered_nil i)
  keptLeft _ _ := rfl
  keptRight _ _ := rfl

/-- What was read of the first states is found again, unless it was written, and then the same was
written to both. -/
theorem Moved.agreeOn (h : Moved f m n m' n') {spans : List Span} (hspans : AgreeOn spans m n) :
    AgreeOn spans m' n' := by
  intro i hi
  by_cases hw : Covered f.writes i
  · exact h.written i hw
  · rw [h.keptLeft i hw, h.keptRight i hw]
    exact hspans i hi

theorem Moved.trans (h : Moved f m n m' n') (k : Moved g m' n' m'' n'') :
    Moved (f ++ g) m n m'' n'' where
  alike := k.alike
  written i hi := by
    rcases covered_append.mp hi with hi | hi
    · exact k.agreeOn h.written i hi
    · exact k.written i hi
  keptLeft i hi := by
    obtain ⟨hf, hg⟩ := not_or.mp (fun hor => hi (covered_append.mpr hor))
    rw [k.keptLeft i hg, h.keptLeft i hf]
  keptRight i hi := by
    obtain ⟨hf, hg⟩ := not_or.mp (fun hor => hi (covered_append.mpr hor))
    rw [k.keptRight i hg, h.keptRight i hf]

end

/-! ## Putting computations together -/

section

variable {ε α β : Type} {f g : Machine → Footprint} {x : EStateM ε Machine α}

def andThen (f : Machine → Footprint) (x : EStateM ε Machine α) (h : α → Machine → Footprint)
    (m : Machine) : Footprint :=
  f m ++ onward (x m) h

theorem Local.congr (h : Local f x) (hfg : ∀ m, g m = f m) : Local g x := by
  intro m n hmn hagree
  rw [hfg] at hagree ⊢
  rw [hfg]
  exact h m n hmn hagree

theorem Local.bind {y : α → EStateM ε Machine β} {h : α → Machine → Footprint} (hx : Local f x)
    (hy : ∀ a, Local (h a) (y a)) : Local (andThen f x h) (x >>= y) := by
  intro m n hmn hagree
  obtain ⟨hfoot, hend⟩ := hx m n hmn hagree.left
  unfold andThen at hagree ⊢
  rw [hfoot]
  generalize hxm : x m = rm at hend hagree
  generalize hxn : x n = rn at hend
  cases hend with
  | ok a hmoved =>
    obtain ⟨hrest, hend⟩ := hy a _ _ hmoved.alike (hmoved.agreeOn hagree.right)
    rw [bind_of_ok hxm, bind_of_ok hxn]
    refine ⟨?_, hend.imp fun _ _ => hmoved.trans⟩
    rw [onward_ok, onward_ok, hrest]
  | error e hmoved =>
    rw [bind_of_error hxm, bind_of_error hxn]
    refine ⟨rfl, .error e ?_⟩
    exact hmoved.trans (.refl hmoved.alike)

/-- The computation neither reads nor writes memory. -/
def Quiet (x : EStateM ε Machine α) : Prop := Local (fun _ => {}) x

theorem quiet_pure (a : α) : Quiet (pure a : EStateM ε Machine α) :=
  fun _ _ hmn _ => ⟨rfl, .ok a (.refl hmn)⟩

theorem quiet_throw (e : ε) : Quiet (throw e : EStateM ε Machine α) :=
  fun _ _ hmn _ => ⟨rfl, .error e (.refl hmn)⟩

/-- What comes after the accesses to memory does not show. -/
theorem Local.then_quiet {y : α → EStateM ε Machine β} (hx : Local f x) (hy : ∀ a, Quiet (y a)) :
    Local f (x >>= y) := by
  refine (hx.bind hy).congr fun m => ?_
  unfold andThen
  cases x m with
  | ok a m' => exact (append_nothing _).symm
  | error e m' => exact (append_nothing _).symm

theorem Local.ite {y : EStateM ε Machine α} {c : Prop} [Decidable c] (hx : Local f x)
    (hy : Local g y) : Local (fun m => if c then f m else g m) (if c then x else y) := by
  by_cases hc : c
  · simp only [if_pos hc]
    exact hx
  · simp only [if_neg hc]
    exact hy

theorem Quiet.ite {y : EStateM ε Machine α} {c : Prop} [Decidable c] (hx : Quiet x) (hy : Quiet y) :
    Quiet (if c then x else y) :=
  (Local.ite hx hy).congr fun _ => (ite_self _).symm

end

/-! ## Registers and reads -/

section

variable {α : Type} {f : Machine → Footprint}

theorem quiet_reg (r : Reg) : Quiet (reg r) := by
  intro m n hmn _
  refine ⟨rfl, ?_⟩
  change SameEnd _ (.ok (m.regs.get r) m) (.ok (n.regs.get r) n)
  rw [hmn.regs]
  exact .ok _ (.refl hmn)

theorem local_reg {h : UInt32 → Machine → Footprint} {y : UInt32 → Exec α} (r : Reg)
    (hy : ∀ v, Local (h v) (y v)) : Local (fun m => h (m.regs.get r) m) (reg r >>= y) :=
  ((quiet_reg r).bind hy).congr fun _ => rfl

theorem quiet_here : Quiet here := (quiet_reg Reg.pc).then_quiet fun _ => quiet_pure _

theorem quiet_setReg (r : Reg) (v : UInt32) : Quiet (setReg r v) := by
  intro m n hmn _
  have hcpu : ({ n.toCpu with regs := n.regs.put r v } : Cpu) =
      { m.toCpu with regs := m.regs.put r v } := by rw [hmn.cpu]
  exact ⟨rfl, .ok () ⟨⟨hcpu, hmn.base, hmn.size⟩, fun i hi => absurd hi (not_covered_nil i),
    fun _ _ => rfl, fun _ _ => rfl⟩⟩

theorem local_setReg {y : Exec α} (r : Reg) (v : UInt32) (hy : Local f y) :
    Local (fun m => f (withReg m r v)) (setReg r v >>= fun _ => y) :=
  ((quiet_setReg r v).bind fun _ => hy).congr fun _ => rfl

theorem quiet_setAll (values : List (Reg × UInt32)) : Quiet (setAll values) := by
  induction values with
  | nil => exact quiet_pure ()
  | cons entry rest ih => exact (quiet_setReg entry.1 entry.2).then_quiet fun _ => ih

theorem requireAccess_of_mapped {addr size : UInt32} {m : Machine}
    (h : m.mem.accessible addr size = true) : requireAccess addr size m = .ok () m :=
  requireAccess_eq_ok.mpr ⟨h, rfl⟩

theorem requireAccess_of_unmapped {addr size : UInt32} {m : Machine}
    (h : m.mem.accessible addr size = false) :
    requireAccess addr size m = .error (.address ⟨addr, size⟩) m := by
  change (if m.mem.accessible addr size then pure () else throw _ : Exec Unit) m = _
  rw [h]
  rfl

/-- Whether an access is allowed is a matter of the extent alone. -/
theorem quiet_requireAccess (addr size : UInt32) : Quiet (requireAccess addr size) := by
  intro m n hmn _
  refine ⟨rfl, ?_⟩
  have hsame := hmn.accessible addr size
  cases hacc : m.mem.accessible addr size with
  | true =>
    rw [requireAccess_of_mapped hacc, requireAccess_of_mapped (hsame.trans hacc)]
    exact .ok () (.refl hmn)
  | false =>
    rw [requireAccess_of_unmapped hacc, requireAccess_of_unmapped (hsame.trans hacc)]
    exact .error _ (.refl hmn)

/-- A checked read of a value that is made of so many bytes at an address. -/
theorem local_read {g : Memory → α} (addr size : UInt32)
    (hg : ∀ m n, Alike m n → AgreeOn [⟨m.mem.offset addr, size.toNat⟩] m n → g n.mem = g m.mem) :
    Local (fun m => { reads := access m.mem addr size })
      (do requireAccess addr size; return g (← get).mem : Exec α) := by
  have hread : Local (fun m => { reads := [⟨m.mem.offset addr, size.toNat⟩] })
      (do return g (← get).mem : Exec α) := by
    intro m n hmn hagree
    dsimp only at hagree ⊢
    rw [hmn.offset]
    refine ⟨rfl, ?_⟩
    change SameEnd _ (.ok (g m.mem) m) (.ok (g n.mem) n)
    rw [hg m n hmn hagree]
    exact .ok _ (.refl hmn)
  refine ((quiet_requireAccess addr size).bind fun _ => hread).congr fun m => ?_
  unfold andThen
  cases hacc : m.mem.accessible addr size with
  | true =>
    rw [requireAccess_of_mapped hacc, access_of_mapped hacc]
    rfl
  | false =>
    rw [requireAccess_of_unmapped hacc, access_of_unmapped hacc]
    rfl

theorem AgreeOn.byte {m n : Machine} {start count : Nat} (h : AgreeOn [⟨start, count⟩] m n) {i : Nat}
    (hle : start ≤ i) (hlt : i < start + count) : n.mem.byteAt i = m.mem.byteAt i :=
  h i (covered_singleton.mpr ⟨hle, hlt⟩)

theorem local_load8 (addr : UInt32) :
    Local (fun m => { reads := access m.mem addr 1 }) (load8 addr) := by
  refine local_read (g := (·.get8 addr)) addr 1 fun m n hmn hagree => ?_
  change n.mem.byteAt (n.mem.offset addr) = m.mem.byteAt (m.mem.offset addr)
  rw [hmn.offset]
  exact hagree.byte (Nat.le_refl _) (Nat.lt_succ_self _)

theorem local_load16 (addr : UInt32) :
    Local (fun m => { reads := access m.mem addr 2 }) (load16 addr) := by
  refine local_read (g := (·.get16 addr)) addr 2 fun m n hmn hagree => ?_
  have hcount : (2 : UInt32).toNat = 2 := rfl
  rw [hcount] at hagree
  unfold Memory.get16
  rw [hmn.offset]
  dsimp only
  rw [hagree.byte (i := m.mem.offset addr) (by omega) (by omega),
    hagree.byte (i := m.mem.offset addr + 1) (by omega) (by omega)]

theorem local_load32 (addr : UInt32) :
    Local (fun m => { reads := access m.mem addr 4 }) (load32 addr) := by
  refine local_read (g := (·.get32 addr)) addr 4 fun m n hmn hagree => ?_
  have hcount : (4 : UInt32).toNat = 4 := rfl
  rw [hcount] at hagree
  rw [get32_eq, get32_eq, hmn.offset, hagree.byte (i := m.mem.offset addr) (by omega) (by omega),
    hagree.byte (i := m.mem.offset addr + 1) (by omega) (by omega),
    hagree.byte (i := m.mem.offset addr + 2) (by omega) (by omega),
    hagree.byte (i := m.mem.offset addr + 3) (by omega) (by omega)]

theorem local_loadValue (addr : UInt32) (size : Width) (signed : Bool) :
    Local (fun m => { reads := access m.mem addr (widthBytes size) })
      (loadValue addr size signed) := by
  cases size with
  | byte => exact (local_load8 addr).then_quiet fun _ => quiet_pure _
  | half => exact (local_load16 addr).then_quiet fun _ => quiet_pure _
  | word => exact local_load32 addr

theorem local_popAll (rs : List Reg) (sp : UInt32) :
    Local (fun m => { reads := reached m.mem (poppedAt rs.length sp) }) (popAll rs sp) := by
  induction rs generalizing sp with
  | nil => exact quiet_pure ([], sp)
  | cons r rs ih =>
    have hrest (value : UInt32) := (ih (sp + 4)).then_quiet fun top =>
      quiet_pure (ε := Fault) ((r, value) :: top.1, top.2)
    refine ((local_load32 sp).bind hrest).congr fun m => ?_
    unfold andThen
    rw [List.length_cons, poppedAt]
    cases hacc : m.mem.accessible sp 4 with
    | true =>
      rw [load32_eq_ok.mpr ⟨read32_of_accessible hacc, rfl⟩, reached_of_mapped hacc]
      rfl
    | false =>
      have hload : load32 sp m = .error _ m := bind_of_error (requireAccess_of_unmapped hacc) _
      rw [hload, reached_of_unmapped hacc]
      exact (append_nothing _).symm

end

/-! ## Writes -/

section

/-- Memories in which one span is overwritten with the same bytes. -/
theorem moved_of_overwrite {m n : Machine} {f : Footprint} {start count : Nat}
    {u : Memory → Memory} {new new' : Nat → UInt8} (hmn : Alike m n)
    (hwrites : f.writes = [⟨start, count⟩]) (hbase : ∀ mem, (u mem).base = mem.base)
    (hsize : ∀ mem, (u mem).data.size = mem.data.size)
    (hm : ∀ i, (u m.mem).byteAt i =
      if start ≤ i ∧ i < start + count then new i else m.mem.byteAt i)
    (hn : ∀ i, (u n.mem).byteAt i =
      if start ≤ i ∧ i < start + count then new' i else n.mem.byteAt i)
    (hsame : ∀ i, start ≤ i ∧ i < start + count → new' i = new i) :
    Moved f m n { m with mem := u m.mem } { n with mem := u n.mem } where
  alike := by
    refine ⟨hmn.cpu, ?_, ?_⟩
    · rw [hbase, hbase, hmn.base]
    · rw [hsize, hsize, hmn.size]
  written i hi := by
    rw [hwrites, covered_singleton] at hi
    change (u n.mem).byteAt i = (u m.mem).byteAt i
    rw [hm, hn, if_pos hi, if_pos hi, hsame i hi]
  keptLeft i hi := by
    rw [hwrites, covered_singleton] at hi
    exact (hm i).trans (if_neg hi)
  keptRight i hi := by
    rw [hwrites, covered_singleton] at hi
    exact (hn i).trans (if_neg hi)

theorem byteAt_putBytes {m : Memory} {addr : UInt32} {bytes : List UInt8}
    (h : m.offset addr + bytes.length ≤ m.data.size) (i : Nat) :
    (m.putBytes addr bytes).byteAt i =
      if m.offset addr ≤ i ∧ i < m.offset addr + bytes.length
      then bytes.getD (i - m.offset addr) 0 else m.byteAt i := by
  refine (Bytes.get_setAll m.data (m.offset addr) i bytes h).trans ?_
  by_cases hle : m.offset addr ≤ i
  · by_cases hlt : i < m.offset addr + bytes.length
    · have hindex : i - m.offset addr < bytes.length := by omega
      rw [if_pos hle, if_pos ⟨hle, hlt⟩, List.getD_eq_getElem?_getD,
        List.getElem?_eq_getElem hindex]
      rfl
    · rw [if_pos hle, if_neg (fun hin => hlt hin.2), List.getElem?_eq_none (by omega)]
      rfl
  · rw [if_neg hle, if_neg (fun hin => hle hin.1)]
    rfl

/-- A checked write of bytes that do not depend on the memory. -/
theorem local_overwrite (u : Memory → Memory) (new : Nat → UInt8) (addr size : UInt32)
    (hbase : ∀ mem, (u mem).base = mem.base) (hsize : ∀ mem, (u mem).data.size = mem.data.size)
    (hbyte : ∀ mem : Memory, mem.accessible addr size = true → ∀ i, (u mem).byteAt i =
      if mem.offset addr ≤ i ∧ i < mem.offset addr + size.toNat
      then new (i - mem.offset addr) else mem.byteAt i) :
    Local (fun m => { writes := access m.mem addr size })
      (do requireAccess addr size; modify fun m => { m with mem := u m.mem } : Exec PUnit) := by
  intro m n hmn _
  dsimp only
  rw [hmn.access]
  refine ⟨rfl, ?_⟩
  have hsame := hmn.accessible addr size
  cases hacc : m.mem.accessible addr size with
  | true =>
    have hn := hbyte n.mem (hsame.trans hacc)
    rw [hmn.offset] at hn
    rw [bind_of_ok (requireAccess_of_mapped hacc),
      bind_of_ok (requireAccess_of_mapped (hsame.trans hacc))]
    exact .ok _ (moved_of_overwrite hmn (access_of_mapped hacc) hbase hsize (hbyte m.mem hacc) hn
      fun _ _ => rfl)
  | false =>
    rw [bind_of_error (requireAccess_of_unmapped hacc),
      bind_of_error (requireAccess_of_unmapped (hsame.trans hacc)), access_of_unmapped hacc]
    exact .error _ (.refl hmn)

theorem local_storeBytes (addr : UInt32) (bytes : List UInt8) (hbytes : bytes.length < 2 ^ 32) :
    Local (fun m => { writes := access m.mem addr (UInt32.ofNat bytes.length) })
      (storeBytes addr bytes) := by
  refine local_overwrite (·.putBytes addr bytes) (bytes.getD · 0) addr _ (fun _ => rfl)
    (fun mem => size_putBytes mem addr bytes) fun mem hacc => ?_
  have hfits := (accessible_iff.mp hacc).2
  rw [UInt32.toNat_ofNat_of_lt' hbytes] at hfits ⊢
  exact byteAt_putBytes hfits

theorem local_storeValue (addr v : UInt32) (size : Width) :
    Local (fun m => { writes := access m.mem addr (widthBytes size) })
      (storeBytes addr (storedBytes v size)) := by
  cases size with
  | byte => exact local_storeBytes addr [v.toUInt8] (by simp)
  | half => exact local_storeBytes addr (Memory.halfBytes v.toUInt16) (by simp [Memory.halfBytes])
  | word => exact local_storeBytes addr (Memory.wordBytes v) (by simp [Memory.wordBytes])

theorem local_pushAll (rs : List Reg) (sp : UInt32) :
    Local (fun m => { writes := reached m.mem (pushedAt rs.length sp) }) (pushAll rs sp) := by
  induction rs generalizing sp with
  | nil => exact quiet_pure sp
  | cons r rs ih =>
    have hpush (v : UInt32) := (local_storeValue (sp - 4) v .word).bind fun _ => ih (sp - 4)
    refine (local_reg r hpush).congr fun m => ?_
    unfold andThen
    rw [List.length_cons, pushedAt]
    cases hacc : m.mem.accessible (sp - 4) 4 with
    | true =>
      -- What is mapped is the same after a word has been written.
      have hrest (bytes : List UInt8) (addrs : List UInt32) :
          reached (m.mem.putBytes (sp - 4) bytes) addrs = reached m.mem addrs := by
        simp only [reached, accessible_putBytes]
        rfl
      have hstore : storeBytes (sp - 4) (Memory.wordBytes (m.regs.get r)) m = .ok () _ :=
        storeBytes_eq_ok.mpr ⟨hacc, rfl⟩
      rw [storedBytes, hstore, reached_of_mapped hacc, onward_ok, hrest]
      rfl
    | false =>
      have hstore : storeBytes (sp - 4) (Memory.wordBytes (m.regs.get r)) m = .error _ m :=
        bind_of_error (requireAccess_of_unmapped hacc) _
      rw [storedBytes, hstore, reached_of_unmapped hacc]
      exact (append_nothing _).symm

theorem local_fill (dst : UInt32) (value : UInt8) (count : UInt32) :
    Local (fun m => { writes := access m.mem dst count })
      (do requireAccess dst count
          modify fun m => { m with mem := m.mem.fillBytes dst value count } : Exec PUnit) := by
  refine local_overwrite (·.fillBytes dst value count) (fun _ => value) dst count (fun _ => rfl)
    (fun mem => Bytes.size_fill _ _ _ _) fun mem hacc i => ?_
  exact Bytes.get_fill mem.data (mem.offset dst) count.toNat i value (accessible_iff.mp hacc).2

theorem byteAt_copyBytes {m : Memory} {dst count : UInt32} (src : UInt32)
    (h : m.accessible dst count = true) (i : Nat) :
    (m.copyBytes dst src count).byteAt i =
      if m.offset dst ≤ i ∧ i < m.offset dst + count.toNat
      then m.byteAt (i - m.offset dst + m.offset src) else m.byteAt i :=
  Bytes.get_copyWithin m.data _ _ _ i (accessible_iff.mp h).2

theorem local_copy (dst src count : UInt32) :
    Local (fun m => inCopy m.mem dst src count)
      (do requireAccess src count
          requireAccess dst count
          modify fun m => { m with mem := m.mem.copyBytes dst src count } : Exec PUnit) := by
  intro m n hmn hagree
  have hsrc := hmn.accessible src count
  have hdst := hmn.accessible dst count
  have hfoot : inCopy n.mem dst src count = inCopy m.mem dst src count := by
    rw [inCopy, inCopy, hsrc, hdst, hmn.access, hmn.access]
  refine ⟨hfoot, ?_⟩
  dsimp only at hagree ⊢
  cases hread : m.mem.accessible src count with
  | false =>
    rw [bind_of_error (requireAccess_of_unmapped hread),
      bind_of_error (requireAccess_of_unmapped (hsrc.trans hread)), inCopy, hread]
    exact .error _ (.refl hmn)
  | true =>
    rw [bind_of_ok (requireAccess_of_mapped hread),
      bind_of_ok (requireAccess_of_mapped (hsrc.trans hread))]
    cases hwrite : m.mem.accessible dst count with
    | false =>
      rw [bind_of_error (requireAccess_of_unmapped hwrite),
        bind_of_error (requireAccess_of_unmapped (hdst.trans hwrite)), inCopy, hread, hwrite]
      exact .error _ (.refl hmn)
    | true =>
      have hboth : inCopy m.mem dst src count = ⟨access m.mem src count, access m.mem dst count⟩ := by
        rw [inCopy, hread, hwrite]
        rfl
      rw [hboth] at hagree ⊢
      rw [access_of_mapped hread] at hagree
      have hn := byteAt_copyBytes src (hdst.trans hwrite)
      rw [hmn.offset, hmn.offset] at hn
      rw [bind_of_ok (requireAccess_of_mapped hwrite),
        bind_of_ok (requireAccess_of_mapped (hdst.trans hwrite))]
      refine .ok _ (moved_of_overwrite (u := (·.copyBytes dst src count)) hmn
        (access_of_mapped hwrite) (fun _ => rfl) (fun mem => Bytes.size_copyWithin _ _ _ _)
        (byteAt_copyBytes src hwrite) hn fun i hi => ?_)
      exact hagree.byte (by omega) (by omega)

end

/-! ## Whole instructions -/

theorem quiet_infoValue (pool : Option Pool) (info : UInt32) :
    Quiet (match Info.read info with
      | .literal value => return value
      | .pooled index =>
        match pool.bind (·.integer? index) with
        | some value => return value
        | none => throw (.notInteger index) : Exec UInt32) := by
  split
  · exact quiet_pure _
  · split
    · exact quiet_pure _
    · exact quiet_throw _

theorem local_fetchInfo (pool : Option Pool) :
    Local (fun m => { reads := access m.mem m.pc 4 }) (fetchInfo pool) := by
  have hload (pc : UInt32) := local_setReg Reg.pc (pc + 4) ((local_load32 pc).then_quiet fun info =>
    quiet_infoValue pool info)
  exact (local_reg Reg.pc hload).congr fun _ => rfl

theorem local_operandAddress (pool : Option Pool) (w : UInt32) :
    Local (fun m => { reads := access m.mem m.pc 4 }) (operandAddress pool w) :=
  local_reg (regB w) fun _ => (local_fetchInfo pool).then_quiet fun _ => quiet_pure _

/-- An action reads and writes memory at its footprint only. -/
theorem local_perform (pool : Option Pool) (w : UInt32) (a : Action) :
    Local (inAction pool w · a) (a.perform pool w) := by
  have reg (r : Reg) {x : UInt32 → Exec Unit} (hx : ∀ v, Quiet (x v)) :=
    (quiet_reg r).then_quiet hx
  have here {x : UInt32 → Exec Unit} (hx : ∀ v, Quiet (x v)) := quiet_here.then_quiet hx
  have set (v : UInt32) : Quiet (setReg (regA w) v) := quiet_setReg (regA w) v
  have go (v : UInt32) : Quiet (setReg Reg.pc v) := quiet_setReg Reg.pc v
  have info {x : UInt32 → Exec Unit} (hx : ∀ v, Quiet (x v)) := (local_fetchInfo pool).then_quiet hx
  have alone (m : Machine) := append_nothing { reads := access m.mem m.pc 4 }
  cases a with
  | binary op => exact reg _ fun _ => reg _ fun _ => set _
  | divide d =>
    refine reg _ fun s => reg _ fun t => ?_
    split
    · exact set _
    · exact quiet_throw _
  | unary op => exact reg _ fun _ => set _
  | narrow op size => exact reg _ fun _ => reg _ fun _ => set _
  | narrowShift op size => exact reg _ fun _ => reg _ fun _ => set _
  | quick op signed => exact reg _ fun _ => set _
  | quickByte op => exact reg _ fun _ => set _
  | immediate op => exact (local_reg _ fun _ => info fun _ => set _).congr alone
  | immediateHalf op => exact (local_reg _ fun _ => info fun _ => set _).congr alone
  | divideImmediate d =>
    refine (local_reg _ fun s => info fun imm => ?_).congr alone
    split
    · exact set _
    · exact quiet_throw _
  | branchInfo c =>
    refine (quiet_here.bind fun _ => info fun _ => reg _ fun _ => ?_).congr alone
    exact Quiet.ite (go _) (quiet_pure _)
  | branchByte c signed =>
    exact reg _ fun _ => Quiet.ite (here fun _ => go _) (quiet_pure _)
  | branchRegs c =>
    have skips : Quiet skipInfo := (quiet_reg Reg.pc).then_quiet fun _ => go _
    have branch (base a b : UInt32) := Local.ite (c := c.holds a b = true)
      (info fun d => go (base + d)) skips
    refine (quiet_here.bind fun base => local_reg (regA w) fun a => local_reg (regB w) fun b =>
      branch base a b).congr fun m => ?_
    exact append_nothing _
  | store size =>
    exact (local_operandAddress pool w).bind fun addr =>
      local_reg (regA w) fun v => local_storeValue addr v size
  | load size signed =>
    exact (local_operandAddress pool w).bind fun addr =>
      (local_loadValue addr size signed).then_quiet fun _ => set _
  | loadQuick => exact set _
  | loadInfo => exact (info fun _ => set _).congr alone
  | jumpReg => exact reg _ fun _ => go _
  | callReg => exact reg _ fun _ => reg _ fun _ => (quiet_setReg _ _).then_quiet fun _ => go _
  | jump => exact here fun _ => go _
  | call => exact here fun _ => reg _ fun _ => (quiet_setReg _ _).then_quiet fun _ => go _
  | ret => exact reg _ fun _ => go _
  | push =>
    exact local_reg Reg.sp fun sp =>
      (local_pushAll (Reg.range (regA w) (regB w)) sp).then_quiet fun _ => quiet_setReg _ _
  | pop =>
    have pops (sp : UInt32) := (local_popAll (Reg.range (regA w) (regB w)).reverse
      (sp + (laneC w).toUInt32 * 4)).then_quiet fun popped =>
        (quiet_setAll popped.1).then_quiet fun _ => quiet_setReg Reg.sp popped.2
    refine (local_reg Reg.sp pops).congr fun m => ?_
    rw [List.length_reverse]
    rfl
  | copy =>
    exact local_reg (regA w) fun dst => local_reg (regB w) fun src => local_reg (regC w) fun count =>
      local_copy dst src count
  | fill =>
    exact local_reg (regA w) fun dst => local_reg (regB w) fun value =>
      local_reg (regC w) fun count => local_fill dst value.toUInt8 count
  | kill => exact quiet_pure ()
  | sleep => exact quiet_pure ()

/-- Beside the counter, an instruction is entered with nothing changed but the log. -/
theorem alike_enter (m : Machine) (w : UInt32) (a : Action) :
    Alike (past m) (m.enter m.pc w a) := by
  have hmem : (m.enter m.pc w a).mem = (past m).mem := enter_mem m m.pc w a
  refine ⟨?_, by rw [hmem], by rw [hmem]⟩
  unfold Machine.enter
  dsimp only
  split
  · rfl
  · rfl

theorem inAction_enter (pool : Option Pool) (m : Machine) (w : UInt32) (a : Action) :
    inAction pool w (m.enter m.pc w a) a = inAction pool w (past m) a := by
  refine (local_perform pool w a _ _ (alike_enter m w a) fun i _ => ?_).1
  rw [enter_mem]
  rfl

/-- An instruction is carried out alike by two machines alike that agree on what it reads. -/
theorem sameEnd_word {pool : Option Pool} {m n : Machine} {w : UInt32} {op : Opcode}
    (hmn : Alike m n) (hm : m.mem.read32 m.pc = .ok w) (hn : n.mem.read32 n.pc = .ok w)
    (hop : Opcode.ofCode? (Word.code w) = some op)
    (hagree : AgreeOn (inAction pool w (past m) op.action).reads m n) :
    inAction pool w (past n) op.action = inAction pool w (past m) op.action ∧
      SameEnd (Moved (inAction pool w (past m) op.action) m n) (m.step pool) (n.step pool) := by
  have hpast : Alike (past m) (past n) := by
    refine ⟨?_, hmn.base, hmn.size⟩
    change n.toCpu.setReg Reg.pc (n.toCpu.pc + 4) = m.toCpu.setReg Reg.pc (m.toCpu.pc + 4)
    rw [hmn.cpu]
  have hentered := (alike_enter m w op.action).symm.trans (hpast.trans (alike_enter n w op.action))
  have hreads : AgreeOn (inAction pool w (m.enter m.pc w op.action) op.action).reads
      (m.enter m.pc w op.action) (n.enter n.pc w op.action) := by
    rw [inAction_enter]
    intro i hi
    rw [enter_mem, enter_mem]
    exact hagree i hi
  obtain ⟨hfoot, hend⟩ := local_perform pool w op.action _ _ hentered hreads
  dsimp only at hfoot hend
  rw [inAction_enter] at hend
  rw [inAction_enter, inAction_enter] at hfoot
  refine ⟨hfoot, ?_⟩
  rw [step_of_word hm hop, step_of_word hn hop]
  generalize op.action.perform pool w (m.enter m.pc w op.action) = left at hend
  generalize op.action.perform pool w (n.enter n.pc w op.action) = right at hend
  -- An instruction that completes is counted on both sides.
  cases hend with
  | ok u hmoved =>
    refine .ok _ ⟨⟨?_, hmoved.alike.base, hmoved.alike.size⟩, hmoved.written, fun i hi => ?_,
      fun i hi => ?_⟩
    · dsimp only
      rw [hmoved.alike.cpu]
    · exact (hmoved.keptLeft i hi).trans (by rw [enter_mem])
    · exact (hmoved.keptRight i hi).trans (by rw [enter_mem])
  | error e hmoved =>
    have hpc : n.pc = m.pc := congrArg Cpu.pc hmn.cpu
    rw [hpc]
    refine .error _ ⟨hmoved.alike, hmoved.written, fun i hi => ?_, fun i hi => ?_⟩
    · exact (hmoved.keptLeft i hi).trans (by rw [enter_mem])
    · exact (hmoved.keptRight i hi).trans (by rw [enter_mem])

theorem step_of_unmapped (pool : Option Pool) {m : Machine} (h : m.mem.accessible m.pc 4 = false) :
    m.step pool = .error (.instruction m.pc 0 (.address ⟨m.pc, 4⟩)) m ∧ inStep pool m = {} := by
  constructor
  · simp only [Machine.step, h, Bool.false_eq_true, if_false]
  · have hread : m.mem.read32 m.pc = .error ⟨m.pc, 4⟩ := if_neg (Bool.eq_false_iff.mp h)
    rw [inStep, hread, access_of_unmapped h]
    rfl

theorem step_of_unassigned (pool : Option Pool) {m : Machine} {w : UInt32}
    (hread : m.mem.read32 m.pc = .ok w) (hnone : Opcode.ofCode? (Word.code w) = none) :
    m.step pool = .error (.unassigned (Word.code w) m.pc) m ∧
      inStep pool m = { reads := access m.mem m.pc 4 } := by
  constructor
  · obtain ⟨hacc, rfl⟩ := read32_eq_ok.mp hread
    simp only [Machine.step, hacc, if_true]
    rw [hnone]
  · simp only [inStep, hread, inWord]
    rw [hnone]
    exact append_nothing _

theorem inStep_of_word {pool : Option Pool} {m : Machine} {w : UInt32} {op : Opcode}
    (hread : m.mem.read32 m.pc = .ok w) (hop : Opcode.ofCode? (Word.code w) = some op) :
    inStep pool m = { reads := access m.mem m.pc 4 } ++ inAction pool w (past m) op.action := by
  simp only [inStep, hread, inWord]
  rw [hop]

/-- A step reads and writes memory at its footprint only. -/
theorem local_step (pool : Option Pool) : Local (inStep pool) (Machine.step pool) := by
  intro m n hmn hagree
  have hpc : n.pc = m.pc := congrArg Cpu.pc hmn.cpu
  cases hacc : m.mem.accessible m.pc 4 with
  | false =>
    obtain ⟨hm, hfoot⟩ := step_of_unmapped pool hacc
    have hacc' : n.mem.accessible n.pc 4 = false := by rw [hpc, hmn.accessible, hacc]
    obtain ⟨hn, hfoot'⟩ := step_of_unmapped pool hacc'
    rw [hm, hn, hfoot, hfoot', hpc]
    exact ⟨rfl, .error _ (.refl hmn)⟩
  | true =>
    have hm := read32_of_accessible hacc
    generalize m.mem.get32 m.pc = w at hm
    -- The word itself is among what both machines read.
    have hn : n.mem.read32 n.pc = .ok w := by
      rw [hpc, ← hm]
      refine read32_congr hmn.base hmn.size fun i hi => AgreeOn.left hagree i ?_
      rw [access_of_mapped hacc]
      exact covered_singleton.mpr hi
    have hsame : access n.mem n.pc 4 = access m.mem m.pc 4 := by rw [hpc, hmn.access]
    cases hop : Opcode.ofCode? (Word.code w) with
    | none =>
      obtain ⟨hm, hfoot⟩ := step_of_unassigned pool hm hop
      obtain ⟨hn, hfoot'⟩ := step_of_unassigned pool hn hop
      rw [hm, hn, hfoot, hfoot', hsame, hpc]
      exact ⟨rfl, .error _ (.refl hmn)⟩
    | some op =>
      rw [inStep_of_word hm hop] at hagree ⊢
      obtain ⟨hfoot, hend⟩ := sameEnd_word hmn hm hn hop hagree.right
      rw [inStep_of_word hn hop, hfoot, hsame]
      exact ⟨rfl, hend.imp fun _ _ => (Moved.refl hmn).trans⟩

end TaskMachine.Footprints
