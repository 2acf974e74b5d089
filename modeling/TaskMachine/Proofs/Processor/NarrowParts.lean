import TaskMachine.Proofs.Isa.Layouts
import TaskMachine.Proofs.Processor.Faults
import TaskMachine.Proofs.Processor.ImmediateForms

/-!
# Narrow instructions see and leave only the narrow part

A byte or half instruction reads the low bits of its source registers and leaves
a number of as many bits. What it leaves is the result of the wide operation cut
to these bits, since the low bits of a sum, a difference, a bitwise operation or
a left shift depend on the low bits of the operands only. The right shifts are
the exception: they move high bits down, and divide the narrow part instead.
-/

namespace TaskMachine.NarrowParts

open Stateful Constants Effects Agreement ImmediateForms Exec
open Word (regA regB regC laneC code)

/-! ## Parts of words -/

/-- The number of bits of a narrow operand. -/
def bits : Narrow → Nat
  | .byte => 8
  | .half => 16

/-- Two words have the same narrow part. -/
def SamePart (size : Narrow) (s t : UInt32) : Prop :=
  s.toNat % 2 ^ bits size = t.toNat % 2 ^ bits size

/-- The narrow part of a word as a two's-complement number. -/
def signedPart (size : Narrow) (s : UInt32) : Int := (s.toNat : Int).bmod (2 ^ bits size)

theorem bits_le (size : Narrow) : bits size ≤ 32 := by cases size <;> decide

theorem toNat_and_mask (size : Narrow) (s : UInt32) :
    (s &&& size.mask).toNat = s.toNat % 2 ^ bits size := by
  have hmask : size.mask.toNat = 2 ^ bits size - 1 := by cases size <;> rfl
  rw [UInt32.toNat_and, hmask, Nat.and_two_pow_sub_one_eq_mod]

theorem samePart_and_mask (size : Narrow) (s : UInt32) : SamePart size (s &&& size.mask) s := by
  unfold SamePart
  rw [toNat_and_mask, Nat.mod_mod]

theorem toInt_signExtend (size : Narrow) (s : UInt32) :
    (size.signExtend s).toInt32.toInt = signedPart size s := by
  unfold signedPart
  cases size with
  | byte =>
    change (Word.signExtend8 s.toUInt8).toInt32.toInt = _
    rw [Layouts.toInt_signExtend8]
    change s.toUInt8.toBitVec.toInt = _
    rw [BitVec.toInt_eq_toNat_bmod]
    change ((s.toNat % 0x100 : Nat) : Int).bmod 0x100 = (s.toNat : Int).bmod 0x100
    rw [Int.natCast_mod, Int.emod_bmod]
  | half =>
    change (Word.signExtend16 s.toUInt16).toInt32.toInt = _
    rw [Layouts.toInt_signExtend16]
    change s.toUInt16.toBitVec.toInt = _
    rw [BitVec.toInt_eq_toNat_bmod]
    change ((s.toNat % 0x10000 : Nat) : Int).bmod 0x10000 = (s.toNat : Int).bmod 0x10000
    rw [Int.natCast_mod, Int.emod_bmod]

theorem signedPart_congr {size : Narrow} {s s' : UInt32} (h : SamePart size s s') :
    signedPart size s = signedPart size s' := by
  have hcut : (s.toNat : Int) % (2 ^ bits size : Nat) = (s'.toNat : Int) % (2 ^ bits size : Nat) :=
    congrArg Int.ofNat h
  unfold signedPart
  rw [← Int.emod_bmod, hcut, Int.emod_bmod]

/-! ## Operations on parts -/

/-- The count of a shift. -/
theorem toNat_count (t : UInt32) : (t &&& 0x1f).toNat = t.toNat % 32 := by
  rw [UInt32.toNat_and]
  exact Nat.and_two_pow_sub_one_eq_mod t.toNat 5

/-- A narrow part is wide enough for the count of a shift. -/
theorem count_congr {size : Narrow} {t t' : UInt32} (h : SamePart size t t') :
    t.toNat % 32 = t'.toNat % 32 := by
  have hdvd : 32 ∣ 2 ^ bits size := by cases size <;> decide
  unfold SamePart at h
  rw [← Nat.mod_mod_of_dvd t.toNat hdvd, h, Nat.mod_mod_of_dvd _ hdvd]

/-- Except for the right shifts, the narrow part of a result depends on the narrow parts of the
operands only. -/
theorem apply_congr {op : BinaryOp} (hsrl : op ≠ .srl) (hsra : op ≠ .sra) {size : Narrow}
    {s s' t t' : UInt32} (hs : SamePart size s s') (ht : SamePart size t t') :
    SamePart size (op.apply s t) (op.apply s' t') := by
  have hcut (x : Nat) : x % 2 ^ 32 % 2 ^ bits size = x % 2 ^ bits size :=
    Nat.mod_mod_of_dvd x (Nat.pow_dvd_pow 2 (bits_le size))
  have hcount := count_congr ht
  unfold SamePart at hs ht ⊢
  cases op with
  | add =>
    simp only [BinaryOp.apply, UInt32.toNat_add]
    rw [hcut, hcut, Nat.add_mod, hs, ht, ← Nat.add_mod]
  | sub =>
    -- A borrow goes to the next power of two, whichever that is.
    have hlt := t.toNat_lt
    have hlt' := t'.toNat_lt
    simp only [BinaryOp.apply, UInt32.toNat_sub]
    cases size <;> simp only [bits] at hs ht ⊢ <;> omega
  | mul =>
    simp only [BinaryOp.apply, UInt32.toNat_mul]
    rw [hcut, hcut, Nat.mul_mod, hs, ht, ← Nat.mul_mod]
  | and =>
    simp only [BinaryOp.apply, UInt32.toNat_and]
    rw [Nat.and_mod_two_pow, hs, ht, ← Nat.and_mod_two_pow]
  | or =>
    simp only [BinaryOp.apply, UInt32.toNat_or]
    rw [Nat.or_mod_two_pow, hs, ht, ← Nat.or_mod_two_pow]
  | xor =>
    simp only [BinaryOp.apply, UInt32.toNat_xor]
    rw [Nat.xor_mod_two_pow, hs, ht, ← Nat.xor_mod_two_pow]
  | sll =>
    have hshift (x y : UInt32) :
        (x <<< (y &&& 0x1f)).toNat = x.toNat * 2 ^ (y.toNat % 32) % 2 ^ 32 := by
      rw [UInt32.toNat_shiftLeft, toNat_count, Nat.mod_mod, Nat.shiftLeft_eq]
    simp only [BinaryOp.apply, hshift]
    rw [hcut, hcut, Nat.mul_mod, hs, hcount, ← Nat.mul_mod]
  | srl => exact absurd rfl hsrl
  | sra => exact absurd rfl hsra

/-- An operation on narrow parts leaves the narrow part of the wide result. -/
theorem toNat_apply_parts {op : BinaryOp} (hsrl : op ≠ .srl) (hsra : op ≠ .sra) {size : Narrow}
    {s s' t t' : UInt32} (hs : SamePart size s s') (ht : SamePart size t t') :
    (op.apply s t &&& size.mask).toNat = (op.apply s' t').toNat % 2 ^ bits size := by
  rw [toNat_and_mask]
  exact apply_congr hsrl hsra hs ht

theorem toNat_srl_part (size : Narrow) (s t : UInt32) :
    (BinaryOp.srl.apply (s &&& size.mask) t &&& size.mask).toNat =
      s.toNat % 2 ^ bits size / 2 ^ (t.toNat % 32) := by
  have hlt : s.toNat % 2 ^ bits size < 2 ^ bits size := Nat.mod_lt _ (Nat.two_pow_pos _)
  rw [toNat_and_mask]
  change ((s &&& size.mask) >>> (t &&& 0x1f)).toNat % _ = _
  rw [UInt32.toNat_shiftRight, toNat_count, toNat_and_mask, Nat.mod_mod, Nat.shiftRight_eq_div_pow]
  exact Nat.mod_eq_of_lt (Nat.lt_of_le_of_lt (Nat.div_le_self _ _) hlt)

/-- An arithmetic shift divides and rounds down. -/
theorem toInt_sra (s t : UInt32) :
    (BinaryOp.sra.apply s t).toInt32.toInt = s.toInt32.toInt / 2 ^ (t.toNat % 32) := by
  have hsmall : ∀ k < 32, ((UInt32.ofNat k).toBitVec.smod 32).toNat = k := by decide
  have hcount : ((t &&& 0x1f).toBitVec.smod 32).toNat = t.toNat % 32 := by
    rw [← hsmall _ (Nat.mod_lt t.toNat (show 0 < 32 by decide)), ← toNat_count, UInt32.ofNat_toNat]
  change (s.toBitVec.sshiftRight ((t &&& 0x1f).toBitVec.smod 32).toNat).toInt = _
  rw [hcount, BitVec.toInt_sshiftRight, Int.shiftRight_eq_div_pow]
  norm_cast

theorem toNat_sra_part (size : Narrow) (s t : UInt32) :
    ((BinaryOp.sra.apply (size.signExtend s) t &&& size.mask).toNat : Int) =
      signedPart size s / 2 ^ (t.toNat % 32) % 2 ^ bits size := by
  rw [toNat_and_mask, ← toInt_signExtend, ← toInt_sra]
  generalize BinaryOp.sra.apply (size.signExtend s) t = x
  have hlt := x.toNat_lt
  have hx : x.toInt32.toInt = (x.toNat : Int).bmod (2 ^ 32) := BitVec.toInt_eq_toNat_bmod _
  rw [hx]
  cases size <;> simp only [bits, Int.bmod_def] <;> omega

/-! ## Instructions -/

/-- The size of the operands of a narrow instruction. -/
def size? : Opcode → Option Narrow
  | .addb | .subb | .andb | .orb | .movb | .addbi | .andbi | .orbi | .sllb | .srlb | .srab =>
    some .byte
  | .addh | .subh | .andh | .orh | .movh | .addhi | .andhi | .sllh | .srlh | .srah => some .half
  | _ => none

/-- The wide register instruction for the operation of a narrow instruction. -/
def wideForm : Opcode → Opcode
  | .addb | .addh | .addbi | .addhi => .add
  | .subb | .subh => .sub
  | .andb | .andh | .andbi | .andhi => .and
  | .orb | .orh | .orbi => .or
  | .movb | .movh => .mov
  | .sllb | .sllh => .sll
  | .srlb | .srlh => .srl
  | .srab | .srah => .sra
  | op => op

/-- What wide and narrow operations leave of their operands. -/
def result : Action → UInt32 → UInt32 → UInt32
  | .binary op, s, t => op.apply s t
  | .unary op, s, _ => op.apply s
  | .narrow op size, s, t => op.apply (s &&& size.mask) (t &&& size.mask) &&& size.mask
  | .narrowShift op size, s, t =>
    op.apply (if op = .sra then size.signExtend s else s &&& size.mask) t &&& size.mask
  | .quickByte op, s, t => op.apply (s &&& Narrow.byte.mask) t &&& Narrow.byte.mask
  | .immediateHalf op, s, t =>
    op.apply (s &&& Narrow.half.mask) (t &&& Narrow.half.mask) &&& Narrow.half.mask
  | _, _, _ => 0

/-- The number that a narrow instruction should leave: a quotient of the narrow part, rounded down,
or the wide result cut to the narrow part. -/
def meant (size : Narrow) (op : Opcode) (s t : UInt32) : Int :=
  match wideForm op with
  | .srl => ↑(s.toNat % 2 ^ bits size / 2 ^ (t.toNat % 32))
  | .sra => signedPart size s / 2 ^ (t.toNat % 32) % 2 ^ bits size
  | wide => ↑((result wide.action s t).toNat % 2 ^ bits size)

/-- The registers that a narrow instruction reads. -/
def sources (op : Opcode) (w : UInt32) : List Reg :=
  match op.form with
  | .regs3 => [regB w, regC w]
  | _ => [regB w]

/-- The second operand of a narrow instruction, which is none where its info word stands for no
value. A move has no second operand, and leaves it alone. -/
def second? (pool : Option Pool) (regs : Registers) (mem : Memory) (next w : UInt32)
    (op : Opcode) : Option UInt32 :=
  match op.form with
  | .regs3 => some (regs.get (regC w))
  | .regs2 => some 0
  | _ => carried? pool mem next w op

section Values

variable {op : Opcode} {size : Narrow}

/-- The narrow result as a number. -/
theorem toNat_result (h : size? op = some size) (s t : UInt32) :
    ((result op.action s t).toNat : Int) = meant size op s t := by
  have hboth {op : BinaryOp} (hsrl : op ≠ .srl) (hsra : op ≠ .sra) (size : Narrow) :=
    toNat_apply_parts hsrl hsra (samePart_and_mask size s) (samePart_and_mask size t)
  have hfirst {op : BinaryOp} (hsrl : op ≠ .srl) (hsra : op ≠ .sra) (size : Narrow) :=
    toNat_apply_parts hsrl hsra (samePart_and_mask size s) (rfl : SamePart size t t)
  cases op with
  | addb | subb | andb | orb | addh | subh | andh | orh | addhi | andhi =>
    cases h
    simp only [Opcode.action, result, meant, wideForm]
    rw [hboth]
    all_goals decide
  | addbi | andbi | orbi =>
    cases h
    simp only [Opcode.action, result, meant, wideForm]
    rw [hfirst]
    all_goals decide
  | sllb | sllh =>
    cases h
    simp only [Opcode.action, result, meant, wideForm, reduceCtorEq, ↓reduceIte]
    rw [hfirst]
    all_goals decide
  | movb => cases h; exact congrArg Int.ofNat (toNat_and_mask .byte s)
  | movh => cases h; exact congrArg Int.ofNat (toNat_and_mask .half s)
  | srlb | srlh =>
    cases h
    simp only [Opcode.action, result, meant, wideForm, reduceCtorEq, ↓reduceIte]
    rw [toNat_srl_part]
  | srab | srah =>
    cases h
    simp only [Opcode.action, result, meant, wideForm, ↓reduceIte]
    rw [toNat_sra_part]
  | _ => cases h

theorem result_lt (h : size? op = some size) (s t : UInt32) :
    (result op.action s t).toNat < 2 ^ bits size := by
  have hmod (x : UInt32) (size : Narrow) : (x &&& size.mask).toNat < 2 ^ bits size := by
    rw [toNat_and_mask]
    exact Nat.mod_lt _ (Nat.two_pow_pos _)
  cases op with
  | movb => cases h; exact hmod s .byte
  | movh => cases h; exact hmod s .half
  | _ => cases h <;> exact hmod _ _

/-- What a narrow instruction should leave depends on the narrow parts only. -/
theorem meant_congr (h : size? op = some size) {s s' t t' : UInt32} (hs : SamePart size s s')
    (ht : SamePart size t t') : meant size op s t = meant size op s' t' := by
  have hwide {op : BinaryOp} (hsrl : op ≠ .srl) (hsra : op ≠ .sra) :=
    congrArg Int.ofNat (apply_congr hsrl hsra hs ht)
  cases op with
  | addb | subb | andb | orb | addh | subh | andh | orh | addhi | andhi | addbi | andbi | orbi
  | sllb | sllh =>
    exact hwide nofun nofun
  | movb | movh => exact congrArg Int.ofNat hs
  | srlb | srlh =>
    unfold SamePart at hs
    simp only [meant, wideForm, hs, count_congr ht]
  | srab | srah => simp only [meant, wideForm, signedPart_congr hs, count_congr ht]
  | _ => cases h

end Values

/-! ## Carrying the instructions out -/

/-- The next step faults in the instruction, and changes no register but the program counter, and no
memory. -/
def Refuses (pool : Option Pool) (m : Machine) (w : UInt32) (fault : Fault) : Prop :=
  ∃ m', m.step pool = .error (.instruction m.pc w fault) m' ∧
    (∀ q, q ≠ Reg.pc → m'.regs.get q = m.regs.get q) ∧ m'.mem = m.mem

section Instructions

variable {pool : Option Pool} {m : Machine} {w : UInt32} {op : Opcode} {size : Narrow}

theorem perform_narrow {t : UInt32} (h : size? op = some size)
    (hsecond : second? pool m.regs m.mem m.pc w op = some t) :
    op.action.perform pool w m =
      finish w (ready m op.action) (some (result op.action (m.regs.get (regB w)) t)) := by
  cases op with
  | addhi =>
    have hform : registerForm? .addhi = some .addh := rfl
    exact perform_immediate hform hsecond
  | andhi =>
    have hform : registerForm? .andhi = some .andh := rfl
    exact perform_immediate hform hsecond
  | addb | subb | andb | orb | movb | addh | subh | andh | orh | movh | addbi | andbi | orbi
  | sllb | srlb | srab | sllh | srlh | srah =>
    cases hsecond
    rfl
  | _ => cases h

/-- An info word that stands for no value is a fault that the memory, the address and the pool
decide. -/
theorem exists_fault {mem : Memory} {next : UInt32}
    (h : (mem.read32 next).toOption.bind (value? pool) = none) :
    ∃ fault, ∀ m : Machine, m.mem = mem → m.pc = next →
      fetchInfo pool m = .error fault (past m) := by
  cases hacc : mem.accessible next 4 with
  | false =>
    refine ⟨.address ⟨next, 4⟩, fun m hm hpc => ?_⟩
    subst hm hpc
    have hload : load32 m.pc (past m) = .error (.address ⟨m.pc, 4⟩) (past m) := by
      refine bind_of_error ?_ _
      change (if m.mem.accessible m.pc 4 then pure () else throw _ : Exec Unit) (past m) = _
      rw [if_neg (by rw [hacc]; decide)]
      rfl
    change (load32 m.pc >>= _) (past m) = _
    exact bind_of_error hload _
  | true =>
    have hread := Words.read32_of_accessible hacc
    rw [hread] at h
    cases hinfo : Info.read (mem.get32 next) with
    | literal v =>
      simp only [Except.toOption, Option.bind_some, value?, hinfo] at h
      cases h
    | pooled index =>
      have hindex : pool.bind (·.integer? index) = none := by
        simpa only [Except.toOption, Option.bind_some, value?, hinfo] using h
      refine ⟨.notInteger index, fun m hm hpc => ?_⟩
      subst hm hpc
      have hload : load32 m.pc (past m) = .ok (m.mem.get32 m.pc) (past m) :=
        load32_eq_ok.mpr ⟨hread, rfl⟩
      change (load32 m.pc >>= _) (past m) = _
      rw [bind_of_ok hload, hinfo]
      dsimp only
      rw [hindex]
      rfl

/-- Only the instructions with an info word can be without a second operand. -/
theorem info_of_second? (h : size? op = some size) {mem : Memory} {next : UInt32}
    {regs : Registers} (hsecond : second? pool regs mem next w op = none) :
    takesInfo op.action = true ∧ (mem.read32 next).toOption.bind (value? pool) = none := by
  cases op with
  | addhi | andhi => exact ⟨rfl, hsecond⟩
  | addb | subb | andb | orb | movb | addh | subh | andh | orh | movh | addbi | andbi | orbi
  | sllb | srlb | srab | sllh | srlh | srah => cases hsecond
  | _ => cases h

theorem delivers_narrow {t : UInt32} (h : size? op = some size)
    (hread : m.mem.read32 m.pc = .ok w) (hcode : code w = op.code)
    (hsecond : second? pool (past m).regs m.mem (m.pc + 4) w op = some t) :
    Delivers pool m w (some (result op.action ((past m).regs.get (regB w)) t)) := by
  have hgoes : op.action.suspension = none := by cases op <;> cases h <;> rfl
  have hentered : second? pool (m.enter m.pc w op.action).regs (m.enter m.pc w op.action).mem
      (m.enter m.pc w op.action).pc w op = some t := by
    rw [enter_regs, enter_mem, pc_enter]
    exact hsecond
  have hperform := perform_narrow h hentered
  rw [enter_regs, ← past_regs] at hperform
  exact delivers_of_ready hread hcode hgoes hperform

/-- Without a second operand, machines with the same memory fault alike. -/
theorem exists_refuses (h : size? op = some size) {mem : Memory} {pc : UInt32} {regs : Registers}
    (hread : mem.read32 pc = .ok w) (hcode : code w = op.code)
    (hsecond : second? pool regs mem (pc + 4) w op = none) :
    ∃ fault, ∀ m : Machine, m.mem = mem → m.pc = pc → Refuses pool m w fault := by
  obtain ⟨hinfo, hvalue⟩ := info_of_second? h hsecond
  obtain ⟨fault, hfault⟩ := exists_fault hvalue
  refine ⟨fault, fun m hm hpc => ?_⟩
  subst hm hpc
  have hop : Opcode.ofCode? (code w) = some op := by rw [hcode, ofCode?_code]
  have hfetch := hfault (m.enter m.pc w op.action) (enter_mem _ _ _ _) (pc_enter _ _ _ _)
  have hasks : Faults.asksInfo w (m.enter m.pc w op.action).regs op.action = true := by
    cases op <;> cases h <;> first | rfl | cases hinfo
  refine ⟨past (m.enter m.pc w op.action), ?_, fun q hq => ?_, enter_mem _ _ _ _⟩
  · rw [step_of_word hread hop, Faults.perform_of_info_error hasks hfetch]
  · rw [get_past_of_ne _ hq, get_enter_of_ne _ _ _ _ hq]

end Instructions

/-! ## Two machines with the same narrow parts -/

section Machines

variable {pool : Option Pool} {m n : Machine} {w : UInt32} {op : Opcode} {size : Narrow}

theorem regB_mem_sources (op : Opcode) (w : UInt32) : regB w ∈ sources op w := by
  unfold sources
  split <;> exact List.mem_cons_self

/-- Machines whose sources have the same narrow parts have second operands with the same narrow
parts, also past the word of the instruction. -/
theorem second?_past (hmem : n.mem = m.mem) (hpc : n.pc = m.pc)
    (hsources : ∀ r ∈ sources op w, r ≠ Reg.pc ∧ SamePart size (m.regs.get r) (n.regs.get r))
    {t : UInt32} (h : second? pool m.regs m.mem (m.pc + 4) w op = some t) :
    second? pool (past m).regs m.mem (m.pc + 4) w op = some t ∧
      ∃ t', second? pool (past n).regs n.mem (n.pc + 4) w op = some t' ∧ SamePart size t t' := by
  rw [hmem, hpc]
  unfold second? at h ⊢
  unfold sources at hsources
  cases hform : op.form with
  | regs3 =>
    rw [hform] at h hsources
    cases h
    obtain ⟨hne, hsame⟩ := hsources (regC w) (List.mem_cons_of_mem _ List.mem_cons_self)
    dsimp only
    rw [get_past_of_ne _ hne, get_past_of_ne _ hne]
    exact ⟨rfl, _, rfl, hsame⟩
  | regs2 =>
    rw [hform] at h
    exact ⟨h, t, h, rfl⟩
  | _ =>
    rw [hform] at h
    exact ⟨h, t, h, rfl⟩

/-- Two machines at the same narrow instruction, with the same memory and pool and the same narrow
parts of the source registers, leave the same narrow number in the destination: the result of the
wide operation cut to its narrow part, or the narrow part shifted right. Where the info word stands
for no value, both machines fault alike. -/
theorem narrow_parts_decide (pool : Option Pool) (h : size? op = some size) (hpc : n.pc = m.pc)
    (hmem : n.mem = m.mem) (hread : m.mem.read32 m.pc = .ok w) (hcode : code w = op.code)
    (hsources : ∀ r ∈ sources op w, r ≠ Reg.pc ∧ SamePart size (m.regs.get r) (n.regs.get r)) :
    (∀ t, second? pool m.regs m.mem (m.pc + 4) w op = some t →
      ∃ r, Delivers pool m w (some r) ∧ Delivers pool n w (some r) ∧ r.toNat < 2 ^ bits size ∧
        (r.toNat : Int) = meant size op (m.regs.get (regB w)) t) ∧
    (second? pool m.regs m.mem (m.pc + 4) w op = none →
      ∃ fault, Refuses pool m w fault ∧ Refuses pool n w fault) := by
  have hread' : n.mem.read32 n.pc = .ok w := by rw [hmem, hpc, hread]
  obtain ⟨hS, hsame⟩ := hsources _ (regB_mem_sources op w)
  refine ⟨fun t ht => ?_, fun hnone => ?_⟩
  · obtain ⟨hsecond, t', hsecond', hpart⟩ := second?_past hmem hpc hsources ht
    have hm := delivers_narrow h hread hcode hsecond
    have hn := delivers_narrow h hread' hcode hsecond'
    rw [get_past_of_ne _ hS] at hm hn
    have hvalue := toNat_result h (m.regs.get (regB w)) t
    have heq : result op.action (n.regs.get (regB w)) t' =
        result op.action (m.regs.get (regB w)) t := by
      have hnumber : ((result op.action (n.regs.get (regB w)) t').toNat : Int) =
          (result op.action (m.regs.get (regB w)) t).toNat := by
        rw [toNat_result h, hvalue, meant_congr h hsame hpart]
      exact UInt32.toNat_inj.mp (Int.ofNat_inj.mp hnumber)
    rw [heq] at hn
    exact ⟨_, hm, hn, result_lt h _ _, hvalue⟩
  · obtain ⟨fault, hfault⟩ := exists_refuses h hread hcode hnone
    exact ⟨fault, hfault m rfl rfl, hfault n hmem hpc⟩

/-- An arithmetic shift of a byte to the right. -/
def shift : UInt32 := Word.ofRegs Opcode.srab.code (.ofInt 4) (.ofInt 5) (.ofInt 6)

/-- About to carry out the shift. -/
def shifting (x y : UInt32) : Machine := facing shift 0 x y

/-- The byte `0x80` is minus 128, and half of it minus 64, whatever bits stand above the byte and
above the count. -/
theorem narrow_parts_decide_shift :
    ∃ r, Delivers none (shifting 0x12345680 0xabc00021) shift (some r) ∧
      Delivers none (shifting 0xffffff80 0x21) shift (some r) ∧ r.toNat = 0xc0 := by
  have hsize : size? .srab = some .byte := rfl
  obtain ⟨hdecide, -⟩ := narrow_parts_decide (m := shifting 0x12345680 0xabc00021)
    (n := shifting 0xffffff80 0x21) (w := shift) none hsize (by decide +kernel)
    (by decide +kernel) (by decide +kernel) (by decide +kernel)
    (by unfold SamePart; decide +kernel)
  obtain ⟨r, hm, hn, -, hr⟩ := hdecide 0xabc00021 (by decide +kernel)
  have hmeant : meant .byte .srab ((shifting 0x12345680 0xabc00021).regs.get (regB shift))
      0xabc00021 = 0xc0 := by decide +kernel
  rw [hmeant] at hr
  exact ⟨r, hm, hn, Int.ofNat_inj.mp hr⟩

end Machines

end TaskMachine.NarrowParts
