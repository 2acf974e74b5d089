import TaskMachine.Proofs.Isa.Fields

/-!
# Views and builders of words

The three bytes above the opcode hold operands in one of five layouts. A view
takes a word apart under a layout and a builder puts one together. Reading a
built word gives the opcode and the operands back, with registers counted
modulo the size of the register file and distances cut to 24 bits. Rebuilding a
word from its view clears the two low bits of every register field, which no
view reports, and nothing else.
-/

namespace TaskMachine.Layouts

open Word Fields

/-- The layouts of the bytes above the opcode. -/
inductive Layout where
  | regs
  | regsByte
  | regBytes
  | regHalf
  | offset
  deriving DecidableEq, Repr

/-- Operands for a layout. Registers and distances are any numbers. -/
inductive Operands where
  | regs (d s t : Int)
  | regsByte (d s : Int) (t : UInt8)
  | regBytes (d : Int) (s t : UInt8)
  | regHalf (d : Int) (imm : Int16)
  | offset (distance : Int)
  deriving DecidableEq, Repr

namespace Operands

def layout : Operands → Layout
  | regs .. => .regs
  | regsByte .. => .regsByte
  | regBytes .. => .regBytes
  | regHalf .. => .regHalf
  | offset .. => .offset

/-- The word with an opcode and operands. -/
def build (op : UInt8) : Operands → UInt32
  | regs d s t => ofRegs op (.ofInt d) (.ofInt s) (.ofInt t)
  | regsByte d s t => ofRegsByte op (.ofInt d) (.ofInt s) t
  | regBytes d s t => ofRegBytes op (.ofInt d) s t
  | regHalf d imm => ofRegHalf op (.ofInt d) imm.toUInt16
  | offset distance => ofOffset24 op (.ofInt distance)

/-- The operands as a word can hold them. -/
def held : Operands → Operands
  | regs d s t => regs (d % 64) (s % 64) (t % 64)
  | regsByte d s t => regsByte (d % 64) (s % 64) t
  | regBytes d s t => regBytes (d % 64) s t
  | regHalf d imm => regHalf (d % 64) imm
  | offset distance => offset (distance.bmod 0x1000000)

end Operands

namespace Layout

/-- The operands of a word under a layout. -/
def view : Layout → UInt32 → Operands
  | regs, w => .regs (regA w).val (regB w).val (regC w).val
  | regsByte, w => .regsByte (regA w).val (regB w).val (laneC w)
  | regBytes, w => .regBytes (regA w).val (laneB w) (laneC w)
  | regHalf, w => .regHalf (regA w).val (half w).toInt16
  | offset, w => .offset (offset24 w).toInt

/-- All bits but the two low ones of each register field. -/
def reported : Layout → UInt32
  | regs => 0xfcfcfcff
  | regsByte => 0xfffcfcff
  | regBytes | regHalf => 0xfffffcff
  | offset => 0xffffffff

end Layout

/-! ## Registers -/

theorem val_ofInt (n : Int) : ((Reg.ofInt n).val : Int) = n % 64 := by
  change ((n % 64).toNat : Int) = n % 64
  omega

theorem ofInt_val (r : Reg) : Reg.ofInt r.val = r := by
  have hr := r.isLt
  apply Fin.ext
  have hval := val_ofInt r.val
  omega

/-- A register number may be shifted in 64 bits, cut to 32 and masked. -/
theorem field_ofInt (n : Int) :
    (Reg.ofInt n).field.toUInt32 = (Int64.ofInt n <<< 2).toUInt64.toUInt32 &&& 0xff := by
  have hval := val_ofInt n
  have hbits : (Int64.ofInt n <<< 2).toUInt64.toNat = (n % 2 ^ 64).toNat * 4 % 2 ^ 64 := by
    have htwo : (2 : Int64).toBitVec.smod 64 = 2 := by decide
    change (Int64.ofInt n <<< 2).toBitVec.toNat = _
    rw [Int64.toBitVec_shiftLeft, Int64.toBitVec_ofInt]
    rw [htwo]
    change (BitVec.ofInt 64 n <<< 2).toNat = _
    rw [BitVec.toNat_shiftLeft, BitVec.toNat_ofInt, Nat.shiftLeft_eq]
    rfl
  apply UInt32.toNat_inj.mp
  rw [UInt8.toNat_toUInt32, Reg.field, UInt8.toNat_ofNat', UInt32.toNat_and,
    UInt64.toNat_toUInt32, hbits]
  change _ = _ &&& 2 ^ 8 - 1
  rw [Nat.and_two_pow_sub_one_eq_mod]
  omega

/-- A register is read from its field without the two low bits. -/
theorem field_ofField (b : UInt8) : (Reg.ofField b).field = b &&& 0xfc := by
  have hmask : ∀ n < 256, 4 * (n / 4) = n &&& 0xfc := by decide +kernel
  have hb := b.toNat_lt
  apply UInt8.toNat_inj.mp
  rw [Reg.field, UInt8.toNat_ofNat', UInt8.toNat_and]
  change 4 * (b.toNat / 4) % 2 ^ 8 = b.toNat &&& 0xfc
  rw [← hmask b.toNat hb]
  omega

theorem field_reg (b : UInt8) : (Reg.ofInt (Reg.ofField b).val).field = b &&& 0xfc := by
  rw [ofInt_val, field_ofField]

/-! ## Bytes -/

/-- A mask acts on the bytes of a word one by one. -/
theorem ofBytes_and (w mask : UInt32) :
    ofBytes (code w &&& code mask) (laneA w &&& laneA mask) (laneB w &&& laneB mask)
      (laneC w &&& laneC mask) = w &&& mask := by
  rw [← ofBytes_lanes (w &&& mask)]
  simp only [code, laneA, laneB, laneC, UInt32.shiftRight_and, UInt32.toUInt8_and]

theorem and_full (b : UInt8) : b &&& 0xff = b := by
  apply UInt8.toNat_inj.mp
  rw [UInt8.toNat_and]
  exact Nat.and_two_pow_sub_one_of_lt_two_pow (n := 8) b.toNat_lt

theorem toUInt8_half (w : UInt32) : (half w).toUInt8 = laneB w := by
  apply UInt8.toNat_inj.mp
  rw [half, laneB, UInt16.toNat_toUInt8, UInt32.toNat_toUInt16, UInt32.toNat_toUInt8]
  omega

theorem toUInt8_half_shiftRight (w : UInt32) : (half w >>> 8).toUInt8 = laneC w := by
  apply UInt8.toNat_inj.mp
  rw [half, laneC, UInt16.toNat_toUInt8, UInt16.toNat_shiftRight, UInt32.toNat_toUInt16,
    toNat_shiftRight_toUInt8 w 24 (by decide), UInt32.toNat_shiftRight]
  change (w.toNat >>> 16 % 2 ^ 16) >>> 8 % 2 ^ 8 = w.toNat >>> 24 % 0x100
  simp only [Nat.shiftRight_eq_div_pow]
  omega

theorem toInt_signExtend8 (b : UInt8) : (signExtend8 b).toInt32.toInt = b.toInt8.toInt := by
  change (b.toBitVec.signExtend 32).toInt = b.toBitVec.toInt
  exact BitVec.toInt_signExtend_of_le (by decide)

theorem toInt_signExtend16 (h : UInt16) : (signExtend16 h).toInt32.toInt = h.toInt16.toInt := by
  change (h.toBitVec.signExtend 32).toInt = h.toBitVec.toInt
  exact BitVec.toInt_signExtend_of_le (by decide)

/-- A distance comes back cut to 24 bits. -/
theorem toInt_offset24_ofOffset24 (op : UInt8) (distance : Int) :
    (offset24 (ofOffset24 op (.ofInt distance))).toInt = distance.bmod 0x1000000 := by
  have ho := op.toNat_lt
  have hbits : ((UInt32.ofInt distance).toNat : Int) = distance % 2 ^ 32 := by
    rw [UInt32.ofInt, UInt32.toNat_ofNat']
    omega
  have hsigned (w : UInt32) : w.toInt32.toInt = (w.toNat : Int).bmod (2 ^ 32) :=
    BitVec.toInt_eq_toNat_bmod _
  rw [toInt_offset24, hsigned, toNat_ofOffset24, Int.bmod_def, Int.bmod_def]
  omega

/-! ## Round trips -/

/-- A built word reads as its operands. -/
theorem view_build (op : UInt8) (o : Operands) :
    code (o.build op) = op ∧ o.layout.view (o.build op) = o.held := by
  cases o with
  | regs d s t =>
    refine ⟨code_ofRegs _ _ _ _, ?_⟩
    simp only [Operands.layout, Operands.build, Operands.held, Layout.view, ofRegs, regA_ofBytes,
      regB_ofBytes, regC_ofBytes, val_ofInt]
  | regsByte d s t =>
    refine ⟨code_ofRegsByte _ _ _ _, ?_⟩
    simp only [Operands.layout, Operands.build, Operands.held, Layout.view, ofRegsByte,
      regA_ofBytes, regB_ofBytes, laneC_ofBytes, val_ofInt]
  | regBytes d s t =>
    refine ⟨code_ofRegBytes _ _ _ _, ?_⟩
    simp only [Operands.layout, Operands.build, Operands.held, Layout.view, ofRegBytes,
      regA_ofBytes, laneB_ofBytes, laneC_ofBytes, val_ofInt]
  | regHalf d imm =>
    refine ⟨code_ofRegHalf _ _ _, ?_⟩
    simp only [Operands.layout, Operands.build, Operands.held, Layout.view, ofRegHalf,
      regA_ofBytes, half_ofBytes, val_ofInt]
    rfl
  | offset distance =>
    refine ⟨code_ofOffset24 _ _, ?_⟩
    exact congrArg Operands.offset (toInt_offset24_ofOffset24 op distance)

/-- A word is rebuilt from its view but for the bits that the view does not report. -/
theorem build_view (layout : Layout) (w : UInt32) :
    (layout.view w).build (code w) = w &&& layout.reported := by
  rw [← ofBytes_and]
  cases layout with
  | regs =>
    change ofBytes (code w) (Reg.ofInt (regA w).val).field (Reg.ofInt (regB w).val).field
      (Reg.ofInt (regC w).val).field =
        ofBytes (code w &&& 0xff) (laneA w &&& 0xfc) (laneB w &&& 0xfc) (laneC w &&& 0xfc)
    rw [regA, regB, regC, field_reg, field_reg, field_reg, and_full]
  | regsByte =>
    change ofBytes (code w) (Reg.ofInt (regA w).val).field (Reg.ofInt (regB w).val).field
      (laneC w) = ofBytes (code w &&& 0xff) (laneA w &&& 0xfc) (laneB w &&& 0xfc) (laneC w &&& 0xff)
    rw [regA, regB, field_reg, field_reg, and_full, and_full]
  | regBytes =>
    change ofBytes (code w) (Reg.ofInt (regA w).val).field (laneB w) (laneC w) =
      ofBytes (code w &&& 0xff) (laneA w &&& 0xfc) (laneB w &&& 0xff) (laneC w &&& 0xff)
    rw [regA, field_reg, and_full, and_full, and_full]
  | regHalf =>
    change ofBytes (code w) (Reg.ofInt (regA w).val).field (half w).toUInt8
      (half w >>> 8).toUInt8 =
        ofBytes (code w &&& 0xff) (laneA w &&& 0xfc) (laneB w &&& 0xff) (laneC w &&& 0xff)
    rw [regA, field_reg, toUInt8_half, toUInt8_half_shiftRight, and_full, and_full, and_full]
  | offset =>
    change ofOffset24 (code w) (.ofInt (offset24 w).toInt) =
      ofBytes (code w &&& 0xff) (laneA w &&& 0xff) (laneB w &&& 0xff) (laneC w &&& 0xff)
    rw [ofOffset24_offset24, and_full, and_full, and_full, and_full, ofBytes_lanes]

/-- Views and builders are inverse to each other. The field of any register number is its shift in
64 bits, cut and masked. A built word reads as its opcode and its operands, of which registers come
back modulo 64 and distances of 24 bits as they were; the signed readings of bytes and halves carry
the sign up. A word that is rebuilt from its view lacks only the low bits of the register fields,
and nothing under the layout with a distance. -/
theorem views_invert_builders :
    (∀ n : Int, (Reg.ofInt n).field.toUInt32 =
      (Int64.ofInt n <<< 2).toUInt64.toUInt32 &&& 0xff) ∧
    (∀ op (o : Operands), code (o.build op) = op ∧ o.layout.view (o.build op) = o.held) ∧
    (∀ op d s t, (signExtend8 (laneC ((Operands.regsByte d s t).build op))).toInt32.toInt =
      t.toInt8.toInt) ∧
    (∀ op d s t, (signExtend8 (laneB ((Operands.regBytes d s t).build op))).toInt32.toInt =
        s.toInt8.toInt ∧
      (signExtend8 (laneC ((Operands.regBytes d s t).build op))).toInt32.toInt = t.toInt8.toInt) ∧
    (∀ op d imm, (signExtend16 (half ((Operands.regHalf d imm).build op))).toInt32.toInt =
      imm.toInt) ∧
    (∀ op (distance : Int), -0x800000 ≤ distance → distance ≤ 0x7fffff →
      (offset24 ((Operands.offset distance).build op)).toInt = distance) ∧
    (∀ (layout : Layout) w, (layout.view w).build (code w) = w &&& layout.reported) ∧
    ∀ w, (Layout.offset.view w).build (code w) = w := by
  refine ⟨field_ofInt, view_build, fun op d s t => ?_, fun op d s t => ⟨?_, ?_⟩,
    fun op d imm => ?_, fun op distance hlo hhi => ?_, build_view, ofOffset24_offset24⟩
  · rw [Operands.build, ofRegsByte, laneC_ofBytes, toInt_signExtend8]
  · rw [Operands.build, ofRegBytes, laneB_ofBytes, toInt_signExtend8]
  · rw [Operands.build, ofRegBytes, laneC_ofBytes, toInt_signExtend8]
  · rw [Operands.build, ofRegHalf, half_ofBytes, toInt_signExtend16]
    rfl
  · rw [Operands.build, toInt_offset24_ofOffset24]
    exact Int.bmod_eq_of_le (by omega) (by omega)

/-- Register minus one is the last of the file, and the least distance keeps its sign. -/
theorem views_invert_builders_extremes :
    Layout.regs.view (ofRegs 0x10 (.ofInt (-1)) (.ofInt 70) (.ofInt 5)) = .regs 63 6 5 ∧
    (offset24 (ofOffset24 0x5b (.ofInt (-0x800000)))).toInt = -0x800000 := by
  obtain ⟨-, hview, -, -, -, hoffset, -⟩ := views_invert_builders
  exact ⟨(hview 0x10 (.regs (-1) 70 5)).2, hoffset 0x5b (-0x800000) (by decide) (by decide)⟩

end TaskMachine.Layouts
