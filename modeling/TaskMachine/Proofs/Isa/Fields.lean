import TaskMachine.Isa.Word

/-!
# The fields of a built word

A word put together from bytes gives the same bytes back, and a distance put
into a field that is wide enough for it comes back with its sign. Distances are
integers here and words afterwards: `UInt32.ofInt` is the reading that both the
assembler's patches and the machine's arithmetic agree on.
-/

namespace TaskMachine.Fields

open Word

theorem toNat_ofBytes (op a b c : UInt8) :
    (ofBytes op a b c).toNat =
      op.toNat + 0x100 * a.toNat + 0x10000 * b.toNat + 0x1000000 * c.toNat := by
  have ho := op.toNat_lt
  have ha := a.toNat_lt
  have hb := b.toNat_lt
  have hc := c.toNat_lt
  have hor {x : Nat} (y k p : Nat) (hp : 2 ^ k = p) (hx : x < p) :
      x ||| y <<< k = x + p * y := by
    subst hp
    rw [Nat.or_comm, ← Nat.shiftLeft_add_eq_or_of_lt hx, Nat.shiftLeft_eq, Nat.mul_comm,
      Nat.add_comm]
  have hfit (x k : Nat) (hx : x * 2 ^ k < 2 ^ 32) : x <<< k % 2 ^ 32 = x <<< k :=
    Nat.mod_eq_of_lt (by rwa [Nat.shiftLeft_eq])
  unfold ofBytes
  simp only [UInt32.toNat_or, UInt32.toNat_shiftLeft, UInt8.toNat_toUInt32]
  change op.toNat ||| a.toNat <<< 8 % 2 ^ 32 ||| b.toNat <<< 16 % 2 ^ 32 |||
    c.toNat <<< 24 % 2 ^ 32 = _
  rw [hfit a.toNat 8 (by omega), hfit b.toNat 16 (by omega), hfit c.toNat 24 (by omega),
    hor a.toNat 8 0x100 rfl (by omega), hor b.toNat 16 0x10000 rfl (by omega),
    hor c.toNat 24 0x1000000 rfl (by omega)]

/-- The byte of a word at a bit position. -/
theorem toNat_shiftRight_toUInt8 (w k : UInt32) (hk : k.toNat < 32) :
    (w >>> k).toUInt8.toNat = w.toNat >>> k.toNat % 0x100 := by
  rw [UInt32.toNat_toUInt8, UInt32.toNat_shiftRight, Nat.mod_eq_of_lt hk]

@[simp]
theorem code_ofBytes (op a b c : UInt8) : code (ofBytes op a b c) = op := by
  have ho := op.toNat_lt
  apply UInt8.toNat_inj.mp
  rw [code, UInt32.toNat_toUInt8, toNat_ofBytes]
  omega

@[simp]
theorem laneA_ofBytes (op a b c : UInt8) : laneA (ofBytes op a b c) = a := by
  have ho := op.toNat_lt
  have ha := a.toNat_lt
  apply UInt8.toNat_inj.mp
  rw [laneA, toNat_shiftRight_toUInt8 _ 8 (by decide), toNat_ofBytes]
  change _ >>> 8 % 0x100 = _
  rw [Nat.shiftRight_eq_div_pow]
  omega

@[simp]
theorem laneB_ofBytes (op a b c : UInt8) : laneB (ofBytes op a b c) = b := by
  have ho := op.toNat_lt
  have ha := a.toNat_lt
  have hb := b.toNat_lt
  apply UInt8.toNat_inj.mp
  rw [laneB, toNat_shiftRight_toUInt8 _ 16 (by decide), toNat_ofBytes]
  change _ >>> 16 % 0x100 = _
  rw [Nat.shiftRight_eq_div_pow]
  omega

@[simp]
theorem laneC_ofBytes (op a b c : UInt8) : laneC (ofBytes op a b c) = c := by
  have ho := op.toNat_lt
  have ha := a.toNat_lt
  have hb := b.toNat_lt
  have hc := c.toNat_lt
  apply UInt8.toNat_inj.mp
  rw [laneC, toNat_shiftRight_toUInt8 _ 24 (by decide), toNat_ofBytes]
  change _ >>> 24 % 0x100 = _
  rw [Nat.shiftRight_eq_div_pow]
  omega

/-- A word is put together again from its own bytes. -/
theorem ofBytes_lanes (w : UInt32) : ofBytes (code w) (laneA w) (laneB w) (laneC w) = w := by
  have hw := w.toNat_lt
  apply UInt32.toNat_inj.mp
  rw [toNat_ofBytes, code, laneA, laneB, laneC, UInt32.toNat_toUInt8,
    toNat_shiftRight_toUInt8 w 8 (by decide), toNat_shiftRight_toUInt8 w 16 (by decide),
    toNat_shiftRight_toUInt8 w 24 (by decide)]
  change _ + 0x100 * (w.toNat >>> 8 % 0x100) + 0x10000 * (w.toNat >>> 16 % 0x100) +
    0x1000000 * (w.toNat >>> 24 % 0x100) = _
  simp only [Nat.shiftRight_eq_div_pow]
  omega

/-- The two upper lanes are the bytes of the 16-bit number. -/
theorem toNat_half_ofBytes (op a b c : UInt8) :
    (half (ofBytes op a b c)).toNat = b.toNat + 0x100 * c.toNat := by
  have ho := op.toNat_lt
  have ha := a.toNat_lt
  have hb := b.toNat_lt
  have hc := c.toNat_lt
  rw [half, UInt32.toNat_toUInt16, UInt32.toNat_shiftRight, toNat_ofBytes]
  change _ >>> 16 % _ = _
  rw [Nat.shiftRight_eq_div_pow]
  omega

/-! ## The opcode of a built word -/

@[simp]
theorem code_withHalf (w : UInt32) (imm : UInt16) : code (withHalf w imm) = code w :=
  code_ofBytes _ _ _ _

@[simp]
theorem code_withLaneC (w : UInt32) (c : UInt8) : code (withLaneC w c) = code w :=
  code_ofBytes _ _ _ _

@[simp]
theorem code_ofRegs (op : UInt8) (d s t : Reg) : code (ofRegs op d s t) = op :=
  code_ofBytes _ _ _ _

@[simp]
theorem code_ofRegsByte (op : UInt8) (d s : Reg) (t : UInt8) : code (ofRegsByte op d s t) = op :=
  code_ofBytes _ _ _ _

@[simp]
theorem code_ofRegBytes (op : UInt8) (d : Reg) (s t : UInt8) : code (ofRegBytes op d s t) = op :=
  code_ofBytes _ _ _ _

@[simp]
theorem code_ofRegHalf (op : UInt8) (d : Reg) (imm : UInt16) : code (ofRegHalf op d imm) = op :=
  code_ofBytes _ _ _ _

@[simp]
theorem code_ofOffset24 (op : UInt8) (value : UInt32) : code (ofOffset24 op value) = op :=
  code_ofBytes _ _ _ _

@[simp]
theorem code_ofCode (op : UInt8) : code (ofCode op) = op := by
  unfold code ofCode
  simp

/-! ## The register of a built word -/

theorem ofField_field (r : Reg) : Reg.ofField r.field = r := by
  have hr := r.isLt
  apply Fin.ext
  change (UInt8.ofNat (4 * r.val)).toNat / 4 = r.val
  rw [UInt8.toNat_ofNat']
  omega

@[simp]
theorem regA_ofBytes (op b c : UInt8) (r : Reg) : regA (ofBytes op r.field b c) = r := by
  rw [regA, laneA_ofBytes, ofField_field]

@[simp]
theorem regB_ofBytes (op a c : UInt8) (r : Reg) : regB (ofBytes op a r.field c) = r := by
  rw [regB, laneB_ofBytes, ofField_field]

@[simp]
theorem regC_ofBytes (op a b : UInt8) (r : Reg) : regC (ofBytes op a b r.field) = r := by
  rw [regC, laneC_ofBytes, ofField_field]

@[simp]
theorem regA_ofRegHalf (op : UInt8) (d : Reg) (imm : UInt16) : regA (ofRegHalf op d imm) = d :=
  regA_ofBytes _ _ _ _

/-! ## Distances -/

@[simp]
theorem half_ofBytes (op a : UInt8) (imm : UInt16) :
    half (ofBytes op a imm.toUInt8 (imm >>> 8).toUInt8) = imm := by
  have hi := imm.toNat_lt
  apply UInt16.toNat_inj.mp
  rw [toNat_half_ofBytes, UInt16.toNat_toUInt8, UInt16.toNat_toUInt8, UInt16.toNat_shiftRight]
  change _ + 0x100 * (imm.toNat >>> 8 % 0x100) = _
  rw [Nat.shiftRight_eq_div_pow]
  omega

theorem half_withHalf (w : UInt32) (imm : UInt16) : half (withHalf w imm) = imm :=
  half_ofBytes _ _ _

theorem laneC_withLaneC (w : UInt32) (c : UInt8) : laneC (withLaneC w c) = c :=
  laneC_ofBytes _ _ _ _

/-- Only the last byte changes. -/
theorem withLaneC_ofRegBytes (op : UInt8) (d : Reg) (b c c' : UInt8) :
    withLaneC (ofRegBytes op d b c) c' = ofRegBytes op d b c' := by
  rw [withLaneC, ofRegBytes, code_ofBytes, laneA_ofBytes, laneB_ofBytes, ofRegBytes]

theorem toBitVec_ofInt (x : Int) : (UInt32.ofInt x).toBitVec = BitVec.ofInt 32 x := by
  apply BitVec.eq_of_toNat_eq
  rw [BitVec.toNat_ofInt]
  change (UInt32.ofInt x).toNat = _
  rw [UInt32.ofInt, UInt32.toNat_ofNat']
  omega

theorem toBitVec_ofInt8 (x : Int) : (UInt8.ofInt x).toBitVec = BitVec.ofInt 8 x := by
  apply BitVec.eq_of_toNat_eq
  rw [BitVec.toNat_ofInt]
  change (UInt8.ofInt x).toNat = _
  rw [UInt8.ofInt, UInt8.toNat_ofNat']
  omega

theorem toBitVec_ofInt16 (x : Int) : (UInt16.ofInt x).toBitVec = BitVec.ofInt 16 x := by
  apply BitVec.eq_of_toNat_eq
  rw [BitVec.toNat_ofInt]
  change (UInt16.ofInt x).toNat = _
  rw [UInt16.ofInt, UInt16.toNat_ofNat']
  omega

theorem signExtend8_ofInt (x : Int) (hlo : -0x80 ≤ x) (hhi : x ≤ 0x7f) :
    signExtend8 (UInt8.ofInt x) = UInt32.ofInt x := by
  apply UInt32.toBitVec_inj.mp
  rw [toBitVec_ofInt]
  change (UInt8.ofInt x).toBitVec.signExtend 32 = _
  rw [toBitVec_ofInt8, BitVec.signExtend, BitVec.toInt_ofInt,
    Int.bmod_eq_of_le (by omega) (by omega)]

theorem signExtend16_ofInt (x : Int) (hlo : -0x8000 ≤ x) (hhi : x ≤ 0x7fff) :
    signExtend16 (UInt16.ofInt x) = UInt32.ofInt x := by
  apply UInt32.toBitVec_inj.mp
  rw [toBitVec_ofInt]
  change (UInt16.ofInt x).toBitVec.signExtend 32 = _
  rw [toBitVec_ofInt16, BitVec.signExtend, BitVec.toInt_ofInt,
    Int.bmod_eq_of_le (by omega) (by omega)]

/-- A distance in instructions is multiplied back to the bytes it was divided from. -/
theorem signExtend8_mul_four {d : Int} (hmod : d % 4 = 0) (hlo : -0x80 ≤ d / 4)
    (hhi : d / 4 ≤ 0x7f) : signExtend8 (UInt8.ofInt (d / 4)) * 4 = UInt32.ofInt d := by
  have hfour : (4 : UInt32) = UInt32.ofInt 4 := rfl
  have hback : d / 4 * 4 = d := by omega
  rw [signExtend8_ofInt (d / 4) hlo hhi, hfour, ← UInt32.ofInt_mul, hback]

theorem toNat_ofOffset24 (op : UInt8) (value : UInt32) :
    (ofOffset24 op value).toNat = op.toNat + 0x100 * (value.toNat % 0x1000000) := by
  rw [ofOffset24, toNat_ofBytes, UInt32.toNat_toUInt8,
    toNat_shiftRight_toUInt8 value 8 (by decide), toNat_shiftRight_toUInt8 value 16 (by decide)]
  change op.toNat + 0x100 * (value.toNat % 0x100) + 0x10000 * (value.toNat >>> 8 % 0x100) +
    0x1000000 * (value.toNat >>> 16 % 0x100) = _
  rw [Nat.shiftRight_eq_div_pow, Nat.shiftRight_eq_div_pow]
  omega

theorem offset24_ofOffset24 (op : UInt8) (x : Int) (hlo : -0x800000 ≤ x) (hhi : x ≤ 0x7fffff) :
    (offset24 (ofOffset24 op (UInt32.ofInt x))).toUInt32 = UInt32.ofInt x := by
  have ho := op.toNat_lt
  have hx : ((UInt32.ofInt x).toNat : Int) = x % 2 ^ 32 := by
    rw [UInt32.ofInt, UInt32.toNat_ofNat']
    omega
  -- The opcode lies below the distance, so that an arithmetic shift drops it and nothing else.
  have hw : ((ofOffset24 op (UInt32.ofInt x)).toNat : Int).bmod (2 ^ 32) = op.toNat + 0x100 * x := by
    rw [toNat_ofOffset24, Int.bmod_def]
    omega
  apply UInt32.toBitVec_inj.mp
  rw [toBitVec_ofInt]
  apply BitVec.eq_of_toInt_eq
  rw [BitVec.toInt_ofInt, Int.bmod_eq_of_le (by omega) (by omega)]
  change ((ofOffset24 op (UInt32.ofInt x)).toBitVec.sshiftRight 8).toInt = _
  have hbits : (ofOffset24 op (UInt32.ofInt x)).toBitVec.toInt = op.toNat + 0x100 * x := by
    rw [BitVec.toInt_eq_toNat_bmod]
    exact hw
  rw [BitVec.toInt_sshiftRight, hbits, Int.shiftRight_eq_div_pow]
  omega

/-! ## Fields as integers -/

theorem toInt_ofInt {x : Int} (hlo : -0x80000000 ≤ x) (hhi : x ≤ 0x7fffffff) :
    (UInt32.ofInt x).toInt32.toInt = x := by
  change (UInt32.ofInt x).toBitVec.toInt = x
  rw [toBitVec_ofInt, BitVec.toInt_ofInt, Int.bmod_eq_of_le (by omega) (by omega)]

theorem toUInt8_ofInt (x : Int) : (UInt32.ofInt x).toUInt8 = UInt8.ofInt x := by
  apply UInt8.toNat_inj.mp
  rw [UInt32.toNat_toUInt8, UInt32.ofInt, UInt8.ofInt, UInt32.toNat_ofNat', UInt8.toNat_ofNat']
  omega

theorem toUInt16_ofInt (x : Int) : (UInt32.ofInt x).toUInt16 = UInt16.ofInt x := by
  apply UInt16.toNat_inj.mp
  rw [UInt32.toNat_toUInt16, UInt32.ofInt, UInt16.ofInt, UInt32.toNat_ofNat',
    UInt16.toNat_ofNat']
  omega

theorem ofInt_toInt8 (b : UInt8) : UInt8.ofInt b.toInt8.toInt = b := by
  apply UInt8.toBitVec_inj.mp
  rw [toBitVec_ofInt8]
  exact BitVec.ofInt_toInt

theorem ofInt_toInt16 (h : UInt16) : UInt16.ofInt h.toInt16.toInt = h := by
  apply UInt16.toBitVec_inj.mp
  rw [toBitVec_ofInt16]
  exact BitVec.ofInt_toInt

theorem toInt_offset24 (w : UInt32) : (offset24 w).toInt = w.toInt32.toInt / 0x100 := by
  change (w.toBitVec.sshiftRight 8).toInt = _
  rw [BitVec.toInt_sshiftRight, Int.shiftRight_eq_div_pow]
  rfl

/-- A word is put together again from its opcode and its 24-bit number. -/
theorem ofOffset24_offset24 (w : UInt32) :
    ofOffset24 (code w) (UInt32.ofInt (offset24 w).toInt) = w := by
  have hw := w.toNat_lt
  have hsigned : w.toInt32.toInt = (w.toNat : Int).bmod (2 ^ 32) :=
    BitVec.toInt_eq_toNat_bmod _
  apply UInt32.toNat_inj.mp
  rw [toNat_ofOffset24, toInt_offset24, code, UInt32.toNat_toUInt8, hsigned, UInt32.ofInt,
    UInt32.toNat_ofNat', Int.bmod_def]
  omega

theorem ofInt_toNat (w : UInt32) : UInt32.ofInt w.toNat = w := by
  have hw := w.toNat_lt
  apply UInt32.toNat_inj.mp
  rw [UInt32.ofInt, UInt32.toNat_ofNat']
  omega

/-- The distance between two offsets leads from one to the other, wherever both are counted from
and whether or not the sum wraps around. -/
theorem add_distance (origin here target : UInt32) :
    origin + here + UInt32.ofInt (target.toNat - here.toNat) = origin + target := by
  have h : UInt32.ofInt (target.toNat - here.toNat) = target - here := by
    rw [Int.sub_eq_add_neg, UInt32.ofInt_add, UInt32.ofInt_neg, ofInt_toNat, ofInt_toNat,
      UInt32.sub_eq_add_neg]
  rw [h]
  grind

end TaskMachine.Fields
