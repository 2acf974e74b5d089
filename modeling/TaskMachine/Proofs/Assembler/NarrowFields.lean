import TaskMachine.Expr.Script
import TaskMachine.Proofs.Assembler.Reassembly

/-!
# Narrow immediates are never cut short

Some operands go into a field of eight or sixteen bits. The assembler takes such
an operand when the field can stand for it, in its signed or its unsigned
spelling where the field is signed, and refuses it otherwise. The machine reads
the field back in the same way, so that an instruction of an assembled program
works with the number that was written, and never with what is left of it.
-/

namespace TaskMachine.NarrowFields

open Stateful Effects Lines Linkage Agreement Asm
open Word (regA regB laneB laneC half code)

/-! ## Fields -/

/-- The narrow fields that a number is written into. -/
inductive Field where
  | signedByte
  | signedHalf
  | unsignedByte
  deriving DecidableEq, Repr

/-- The narrow field of an opcode. -/
def field? : Opcode → Option Field
  | .addq | .mulq | .beqib | .bneib | .bgeib | .bgtib | .bleib | .bltib => some .signedByte
  | .ldq => some .signedHalf
  | .slli | .srai | .srli | .addbi | .andbi | .orbi | .bgtuib | .bleuib | .bltuib | .store
  | .restore => some .unsignedByte
  | _ => none

namespace Field

/-- The numbers that may be written into a field. -/
def Accepts : Field → UInt32 → Prop
  | .signedByte, u => -2 ^ 7 ≤ u.toInt32.toInt ∧ u.toInt32.toInt ≤ 2 ^ 8 - 1
  | .signedHalf, u => -2 ^ 15 ≤ u.toInt32.toInt ∧ u.toInt32.toInt ≤ 2 ^ 16 - 1
  | .unsignedByte, u => u.toNat ≤ 255

instance : (f : Field) → (u : UInt32) → Decidable (f.Accepts u)
  | .signedByte, _ | .signedHalf, _ => inferInstanceAs (Decidable (_ ∧ _))
  | .unsignedByte, _ => inferInstanceAs (Decidable (_ ≤ _))

/-- The word that an instruction works with when a number is written into its field. -/
def value : Field → UInt32 → UInt32
  | .signedByte, u => Word.signExtend8 u.toUInt8
  | .signedHalf, u => Word.signExtend16 u.toUInt16
  | .unsignedByte, u => u

/-- Reading an operand for a field. -/
def operand : Field → String → Asm UInt32
  | .signedByte => signedField 8
  | .signedHalf => signedField 16
  | .unsignedByte => Asm.unsignedByte

end Field

/-- The unsigned spelling widens the range of a signed field upward to all of its bits. -/
theorem signed_window (u : UInt32) (low high : Nat) (hlow : low ≤ high) (hhigh : high < 2 ^ 31) :
    ((-(low : Int) ≤ u.toInt32.toInt ∧ u.toInt32.toInt < low) ∨ u.toNat < high) ↔
      -(low : Int) ≤ u.toInt32.toInt ∧ u.toInt32.toInt ≤ high - 1 := by
  have hsigned : u.toInt32.toInt = (u.toNat : Int).bmod (2 ^ 32) := BitVec.toInt_eq_toNat_bmod _
  have hu := u.toNat_lt
  rw [hsigned, Int.bmod_def]
  split <;> omega

theorem checked_eq_ok {word : String} {u : UInt32} {s t : Assembly} (c : UInt32 → Prop)
    [DecidablePred c] :
    (number word >>= fun v => if c v then return v else throw .immediateRange) s = .ok u t ↔
      numberOf? word = some u ∧ c u ∧ t = s := by
  rw [bind_eq_ok]
  constructor
  · rintro ⟨v, r, hv, hchecked⟩
    obtain ⟨hword, rfl⟩ := number_eq_ok.mp hv
    obtain ⟨hc, rfl, rfl⟩ := require_eq_ok.mp hchecked
    exact ⟨hword, hc, rfl⟩
  · rintro ⟨hword, hc, rfl⟩
    exact ⟨u, t, number_eq_ok.mpr ⟨hword, rfl⟩, require_eq_ok.mpr ⟨hc, rfl, rfl⟩⟩

/-- An operand is read for a field exactly when it is a number that the field accepts. -/
theorem operand_eq_ok {f : Field} {word : String} {u : UInt32} {s t : Assembly} :
    f.operand word s = .ok u t ↔ numberOf? word = some u ∧ f.Accepts u ∧ t = s := by
  cases f with
  | signedByte =>
    refine (checked_eq_ok _).trans (and_congr_right fun _ => and_congr_left fun _ => ?_)
    exact signed_window u 0x80 0x100 (by decide) (by decide)
  | signedHalf =>
    refine (checked_eq_ok _).trans (and_congr_right fun _ => and_congr_left fun _ => ?_)
    exact signed_window u 0x8000 0x10000 (by decide) (by decide)
  | unsignedByte =>
    refine (checked_eq_ok (· ≤ 0xff)).trans (and_congr_right fun _ => and_congr_left fun _ => ?_)
    exact UInt32.le_iff_toNat_le

/-! ## Lines with a narrow operand -/

/-- The operand that a form puts into a narrow field. -/
def narrowOperand? : Form → List String → Option String
  | .regs2Byte _, [_, _, imm] | .compareByte _, [_, imm, _] | .regHalf, [_, imm]
  | .regRange, [_, _, imm] => some imm
  | _, _ => none

/-- A target is a label, or a distance that its field has room for. -/
def Aimable (target : String) : Prop :=
  match numberOf? target with
  | some v => Reaches .byte v.toInt32.toInt
  | none => isLabel target = true

/-- The operands other than the narrow one are what they should be. -/
def OthersValid : Form → List String → Prop
  | .regs2Byte _, [d, s, _] | .regRange, [d, s, _] =>
    (Reg.ofName? d).isSome = true ∧ (Reg.ofName? s).isSome = true
  | .compareByte _, [d, _, target] => (Reg.ofName? d).isSome = true ∧ Aimable target
  | .regHalf, [d, _] => (Reg.ofName? d).isSome = true
  | _, _ => False

/-- The word has a number in the field of the form, cut to the width of the field. -/
def Carries (w u : UInt32) : Form → Prop
  | .compareByte _ => laneB w = u.toUInt8
  | .regHalf => half w = u.toUInt16
  | _ => laneC w = u.toUInt8

/-- Where the narrow operand stands among the operands of a form. -/
inductive Places (word : String) : Form → List String → Prop
  | computed {signed : Bool} {d src : String} : Places word (.regs2Byte signed) [d, src, word]
  | compared {signed : Bool} {d target : String} :
    Places word (.compareByte signed) [d, word, target]
  | loaded {d : String} : Places word .regHalf [d, word]
  | framed {first last : String} : Places word .regRange [first, last, word]

theorem places_of_narrow {form : Form} {operands : List String} {word : String}
    (h : narrowOperand? form operands = some word) : Places word form operands := by
  unfold narrowOperand? at h
  split at h <;> cases h <;> constructor

/-- The assembler reads the operand of an opcode as its field asks for. -/
inductive Reader (f : Field) : Form → Prop
  | computed {signed : Bool} (h : byteField signed = f.operand) : Reader f (.regs2Byte signed)
  | compared {signed : Bool} (h : byteField signed = f.operand) : Reader f (.compareByte signed)
  | loaded (h : signedField 16 = f.operand) : Reader f .regHalf
  | framed (h : Asm.unsignedByte = f.operand) : Reader f .regRange

theorem reader_of_field {op : Opcode} {f : Field} (h : field? op = some f) : Reader f op.form := by
  cases op <;> cases h <;> first
    | exact .computed rfl
    | exact .compared rfl
    | exact .loaded rfl
    | exact .framed rfl

/-- What a line with a narrow operand is assembled to: a single word with the number in its field,
which is one that the field accepts. Only a comparison has a target yet to be put into its word. -/
structure Narrowed (op : Opcode) (f : Field) (word : String) (line out : Line) (s t : Assembly)
    (u w : UInt32) : Prop where
  number : numberOf? word = some u
  accepts : f.Accepts u
  code : code w = op.code
  carries : Carries w u op.form
  line : out = { line with codes := [w] } ∨
    (∃ signed, op.form = .compareByte signed) ∧
      ∃ target, Aimed { line with codes := [w] } .byte target s out t

theorem narrowed_of_instruction {op : Opcode} {f : Field} {word : String} {line out : Line}
    {operands : List String} {s t : Assembly} (hfield : field? op = some f)
    (hword : narrowOperand? op.form operands = some word)
    (h : instruction op line operands s = .ok out t) :
    ∃ u w, Narrowed op f word line out s t u w := by
  have hreader := reader_of_field hfield
  have hplaces := places_of_narrow hword
  generalize hform : op.form = form at hreader hplaces
  cases hreader with
  | @computed signed hread =>
    cases hplaces with
    | @computed _ d src =>
      simp only [instruction, hform, hread] at h
      obtain ⟨rd, h⟩ := (register_reads _).bind_eq_ok h
      obtain ⟨rs, h⟩ := (register_reads _).bind_eq_ok h
      obtain ⟨u, v, hu, hrest⟩ := bind_eq_ok.mp h
      obtain ⟨hnumber, haccepts, rfl⟩ := operand_eq_ok.mp hu
      obtain ⟨rfl, -⟩ := pure_eq_ok.mp hrest
      refine ⟨u, _, hnumber, haccepts, Fields.code_ofRegsByte _ _ _ _, ?_, .inl rfl⟩
      rw [hform]
      exact Fields.laneC_ofBytes _ _ _ _
  | @compared signed hread =>
    cases hplaces with
    | @compared _ d target =>
      simp only [instruction, hform, hread] at h
      obtain ⟨rd, h⟩ := (register_reads _).bind_eq_ok h
      obtain ⟨u, v, hu, hrest⟩ := bind_eq_ok.mp h
      obtain ⟨hnumber, haccepts, rfl⟩ := operand_eq_ok.mp hu
      refine ⟨u, _, hnumber, haccepts, Fields.code_ofRegBytes _ _ _ _, ?_,
        .inr ⟨⟨signed, hform⟩, target, aimed_of_aim hrest⟩⟩
      rw [hform]
      exact Fields.laneB_ofBytes _ _ _ _
  | loaded hread =>
    cases hplaces with
    | @loaded d =>
      simp only [instruction, hform, hread] at h
      obtain ⟨rd, h⟩ := (register_reads _).bind_eq_ok h
      obtain ⟨u, v, hu, hrest⟩ := bind_eq_ok.mp h
      obtain ⟨hnumber, haccepts, rfl⟩ := operand_eq_ok.mp hu
      obtain ⟨rfl, -⟩ := pure_eq_ok.mp hrest
      refine ⟨u, _, hnumber, haccepts, Fields.code_ofRegHalf _ _ _, ?_, .inl rfl⟩
      rw [hform]
      exact Fields.half_ofBytes _ _ _
  | framed hread =>
    cases hplaces with
    | @framed first last =>
      simp only [instruction, hform, hread] at h
      obtain ⟨rd, h⟩ := (register_reads _).bind_eq_ok h
      obtain ⟨rs, h⟩ := (register_reads _).bind_eq_ok h
      obtain ⟨u, v, hu, hrest⟩ := bind_eq_ok.mp h
      obtain ⟨hnumber, haccepts, rfl⟩ := operand_eq_ok.mp hu
      obtain ⟨rfl, -⟩ := pure_eq_ok.mp hrest
      refine ⟨u, _, hnumber, haccepts, Fields.code_ofRegsByte _ _ _ _, ?_, .inl rfl⟩
      rw [hform]
      exact Fields.laneC_ofBytes _ _ _ _

/-! ## Accepted lines -/

theorem register_of_isSome {word : String} (h : (Reg.ofName? word).isSome = true) (s : Assembly) :
    ∃ r, register word s = .ok r s := by
  obtain ⟨r, hr⟩ := Option.isSome_iff_exists.mp h
  exact ⟨r, register_eq_ok.mpr ⟨hr, rfl⟩⟩

theorem aim_of_aimable {target : String} (h : Aimable target) (line : Line) (s : Assembly) :
    ∃ out t, aim line .byte target s = .ok out t := by
  unfold Aimable at h
  unfold aim
  cases hnumber : numberOf? target with
  | some v =>
    simp only [hnumber] at h ⊢
    rw [if_neg nofun]
    cases hpatch : patch { line with link := .byte } v.toInt32.toInt 0 s with
    | ok out t => exact ⟨out, t, rfl⟩
    | error e t => exact absurd h (patch_eq_error hpatch).1
  | none =>
    simp only [hnumber] at h ⊢
    have hkind : ¬ (LinkKind.byte = .absolute ∧ (poolDigits? target).isSome = true) :=
      fun hpool => nomatch hpool.1
    rw [if_neg hkind, if_pos h]
    exact ⟨_, s, rfl⟩

theorem instruction_of_accepts {op : Opcode} {f : Field} {word : String} {u : UInt32}
    {operands : List String} (hfield : field? op = some f)
    (hword : narrowOperand? op.form operands = some word) (hothers : OthersValid op.form operands)
    (hnumber : numberOf? word = some u) (haccepts : f.Accepts u) (line : Line) (s : Assembly) :
    ∃ out t, instruction op line operands s = .ok out t := by
  have hoperand : f.operand word s = .ok u s := operand_eq_ok.mpr ⟨hnumber, haccepts, rfl⟩
  have hreader := reader_of_field hfield
  have hplaces := places_of_narrow hword
  generalize hform : op.form = form at hreader hplaces hothers
  cases hreader with
  | computed hread =>
    cases hplaces with
    | @computed _ d src =>
      obtain ⟨rd, hd⟩ := register_of_isSome hothers.1 s
      obtain ⟨rs, hs⟩ := register_of_isSome hothers.2 s
      simp only [instruction, hform, hread]
      rw [bind_of_ok hd, bind_of_ok hs, bind_of_ok hoperand]
      exact ⟨_, s, rfl⟩
  | compared hread =>
    cases hplaces with
    | @compared _ d target =>
      obtain ⟨rd, hd⟩ := register_of_isSome hothers.1 s
      simp only [instruction, hform, hread]
      rw [bind_of_ok hd, bind_of_ok hoperand]
      exact aim_of_aimable hothers.2 _ s
  | loaded hread =>
    cases hplaces with
    | @loaded d =>
      obtain ⟨rd, hd⟩ := register_of_isSome hothers s
      simp only [instruction, hform, hread]
      rw [bind_of_ok hd, bind_of_ok hoperand]
      exact ⟨_, s, rfl⟩
  | framed hread =>
    cases hplaces with
    | @framed first last =>
      obtain ⟨rd, hd⟩ := register_of_isSome hothers.1 s
      obtain ⟨rs, hs⟩ := register_of_isSome hothers.2 s
      simp only [instruction, hform, hread]
      rw [bind_of_ok hd, bind_of_ok hs, bind_of_ok hoperand]
      exact ⟨_, s, rfl⟩

/-! ## Linked lines -/

/-- A distance goes into another lane than the number that a comparison is made with. -/
theorem carries_displaced {w u : UInt32} {signed : Bool} (h : Carries w u (.compareByte signed))
    (d : Int) : Carries (displaced .byte d w) u (.compareByte signed) := by
  change laneB (Word.withLaneC w _) = _
  rw [Word.withLaneC, Fields.laneB_ofBytes]
  exact h

theorem patch_byte {line out : Line} {w : UInt32} {d : Int} {offset : UInt32} {s t : Assembly}
    (h : patch line d offset s = .ok out t) (hlink : line.link = .byte) (hcodes : line.codes = [w]) :
    out.codes = [displaced .byte d w] := by
  obtain ⟨-, log, ⟨v, hv, -, -⟩ | ⟨-, rfl, -⟩⟩ := patch_eq_ok h
  · rw [hlink] at hv
    cases hv
  · rw [withDistance, hcodes, hlink]
    rfl

/-- Whatever its target, a line keeps the number that its first word carries. -/
theorem carries_of_resolve {op : Opcode} {f : Field} {word : String} {fresh line out : Line}
    {s t s' t' : Assembly} {u w : UInt32} (h : Narrowed op f word fresh line s t u w)
    (hfresh : fresh.target = none) (hresolve : resolve line s' = .ok out t') :
    ∃ w', out.codes = [w'] ∧ code w' = op.code ∧ Carries w' u op.form := by
  obtain rfl | ⟨⟨signed, hform⟩, target, haim⟩ := h.line
  · obtain ⟨-, rfl, -⟩ | ⟨label, offset, htarget, -⟩ := resolve_eq_ok hresolve
    · exact ⟨w, rfl, h.code, h.carries⟩
    · cases hfresh.symm.trans htarget
  · have hkept (d : Int) : code (displaced .byte d w) = op.code ∧
        Carries (displaced .byte d w) u op.form := by
      refine ⟨by rw [code_displaced, h.code], ?_⟩
      have hcarries := h.carries
      rw [hform] at hcarries ⊢
      exact carries_displaced hcarries d
    cases haim with
    | value hkind hnumber => cases hkind
    | constant hkind hnumber hinfo => cases hkind
    | distance hkind hnumber hpatch =>
      have hcodes := patch_byte hpatch rfl rfl
      obtain ⟨-, htarget, -⟩ := patch_samePlace hpatch
      obtain ⟨-, rfl, -⟩ | ⟨label, offset, hlabel, -⟩ := resolve_eq_ok hresolve
      · exact ⟨_, hcodes, hkept _⟩
      · cases (htarget.trans hfresh).symm.trans hlabel
    | label hnumber hlabel =>
      obtain ⟨htarget, -, -⟩ | ⟨label, offset, -, -, hpatch⟩ := resolve_eq_ok hresolve
      · cases htarget
      · exact ⟨_, patch_byte hpatch rfl rfl, hkept _⟩

/-! ## Carrying the instructions out -/

/-- What an instruction does with the value of its narrow field, from the moment its word has been
passed; the instructions without such a field are left out. -/
def withNarrow? (v w : UInt32) (m : Machine) : Action → Option (EStateM.Result Fault Machine Unit)
  | .quick op _ => some (.ok () (withReg m (regA w) (op.apply (m.regs.get (regB w)) v)))
  | .quickByte op =>
    some (.ok () (withReg m (regA w) (op.apply (m.regs.get (regB w) &&& 0xff) v &&& 0xff)))
  | .branchByte c _ => some <|
    if c.holds (m.regs.get (regA w)) v then
      .ok () (withReg m Reg.pc (m.pc - 4 + Word.signExtend8 (laneC w) * 4))
    else .ok () m
  | .loadQuick => some (.ok () (withReg m (regA w) v))
  | .push => some <|
    match pushAll (Reg.range (regA w) (regB w)) (m.regs.get Reg.sp) m with
    | .ok top m' => .ok () (withReg m' Reg.sp (top - v * 4))
    | .error fault m' => .error fault m'
  | .pop => some <|
    match popAll (Reg.range (regA w) (regB w)).reverse (m.regs.get Reg.sp + v * 4) m with
    | .ok (values, top) m' => (do setAll values; Exec.setReg Reg.sp top : Exec Unit) m'
    | .error fault m' => .error fault m'
  | _ => none

/-- A byte that is read back as its field asks for is the number that was accepted. -/
theorem value_of_byte {f : Field} {u : UInt32} {b : UInt8} (hbyte : b = u.toUInt8)
    (haccepts : f.Accepts u) (hf : f ≠ .signedHalf) :
    f.value u = if f = .signedByte then Word.signExtend8 b else b.toUInt32 := by
  subst hbyte
  cases f with
  | signedByte => rfl
  | signedHalf => exact absurd rfl hf
  | unsignedByte =>
    change u.toNat ≤ 255 at haccepts
    change u = u.toUInt8.toUInt32
    apply UInt32.toNat_inj.mp
    rw [UInt8.toNat_toUInt32, UInt32.toNat_toUInt8]
    omega

section Perform

variable (pool : Option Pool) (w : UInt32) (m : Machine)

theorem perform_branchByte (c : Condition) (signed : Bool) :
    withNarrow? (if signed then Word.signExtend8 (laneB w) else (laneB w).toUInt32) w m
      (.branchByte c signed) = some ((Action.branchByte c signed).perform pool w m) := by
  change some (if c.holds (m.regs.get (regA w)) _ = true then _ else _) =
    some ((if c.holds (m.regs.get (regA w)) _ = true then _ else _ : Exec Unit) m)
  generalize c.holds (m.regs.get (regA w)) _ = taken
  cases taken with
  | true => rfl
  | false => rfl

theorem perform_push :
    withNarrow? (laneC w).toUInt32 w m .push = some (Action.push.perform pool w m) := by
  unfold withNarrow?
  change _ = some ((pushAll (Reg.range (regA w) (regB w)) (m.regs.get Reg.sp) >>= _ : Exec Unit) m)
  cases hpush : pushAll (Reg.range (regA w) (regB w)) (m.regs.get Reg.sp) m with
  | ok top m' =>
    rw [bind_of_ok hpush]
    rfl
  | error fault m' => rw [bind_of_error hpush]

theorem perform_pop :
    withNarrow? (laneC w).toUInt32 w m .pop = some (Action.pop.perform pool w m) := by
  unfold withNarrow?
  change _ = some ((popAll (Reg.range (regA w) (regB w)).reverse
    (m.regs.get Reg.sp + (laneC w).toUInt32 * 4) >>= _ : Exec Unit) m)
  cases hpop : popAll (Reg.range (regA w) (regB w)).reverse
      (m.regs.get Reg.sp + (laneC w).toUInt32 * 4) m with
  | ok popped m' => rw [bind_of_ok hpop]
  | error fault m' => rw [bind_of_error hpop]

end Perform

/-- An instruction works with the number that was accepted for its field. -/
theorem perform_of_carries {op : Opcode} {f : Field} {w u : UInt32} (hfield : field? op = some f)
    (haccepts : f.Accepts u) (hcarries : Carries w u op.form) (pool : Option Pool) (m : Machine) :
    withNarrow? (f.value u) w m op.action = some (op.action.perform pool w m) := by
  cases op with
  | addq | mulq | slli | srai | srli | addbi | andbi | orbi =>
    cases hfield
    rw [value_of_byte hcarries haccepts nofun]
    rfl
  | ldq =>
    cases hfield
    rw [Field.value, ← hcarries]
    rfl
  | beqib | bneib | bgeib | bgtib | bleib | bltib =>
    cases hfield
    rw [value_of_byte hcarries haccepts nofun]
    exact perform_branchByte pool w m _ true
  | bgtuib | bleuib | bltuib =>
    cases hfield
    rw [value_of_byte hcarries haccepts nofun]
    exact perform_branchByte pool w m _ false
  | store =>
    cases hfield
    rw [value_of_byte hcarries haccepts nofun]
    exact perform_push pool w m
  | restore =>
    cases hfield
    rw [value_of_byte hcarries haccepts nofun]
    exact perform_pop pool w m
  | _ => cases hfield

/-- Shifts take their counts modulo 32, and one that carries the sign down rounds downward. -/
theorem shift_counts (s v : UInt32) :
    (BinaryOp.sll.apply s v).toNat = s.toNat * 2 ^ (v.toNat % 32) % 2 ^ 32 ∧
    (BinaryOp.srl.apply s v).toNat = s.toNat / 2 ^ (v.toNat % 32) ∧
    (BinaryOp.sra.apply s v).toInt32.toInt = s.toInt32.toInt / 2 ^ (v.toNat % 32) := by
  have hcount : (v &&& 0x1f).toNat = v.toNat % 32 := by
    rw [UInt32.toNat_and]
    exact Nat.and_two_pow_sub_one_eq_mod v.toNat 5
  refine ⟨?_, ?_, ?_⟩
  · change (s <<< (v &&& 0x1f)).toNat = _
    rw [UInt32.toNat_shiftLeft, hcount, Nat.mod_mod, Nat.shiftLeft_eq]
  · change (s >>> (v &&& 0x1f)).toNat = _
    rw [UInt32.toNat_shiftRight, hcount, Nat.mod_mod, Nat.shiftRight_eq_div_pow]
  · have hsmall : (v &&& 0x1f).toBitVec.msb = false := by
      rw [BitVec.msb_eq_false_iff_two_mul_lt]
      change 2 * (v &&& 0x1f).toNat < _
      omega
    have hsmod : ((v &&& 0x1f).toBitVec.smod 32).toNat = v.toNat % 32 := by
      rw [BitVec.smod_eq, hsmall]
      change (v &&& 0x1f).toNat % 32 = _
      rw [hcount, Nat.mod_mod]
    change (s.toBitVec.sshiftRight ((v &&& 0x1f).toBitVec.smod 32).toNat).toInt = _
    rw [hsmod, BitVec.toInt_sshiftRight, Int.shiftRight_eq_div_pow]
    rfl

/-! ## Programs -/

/-- A line is accepted exactly when its instruction can be assembled. -/
theorem assembleWords_iff (op : Opcode) (number : Nat) (operands : List String) (s : Assembly) :
    (∃ t, assembleWords number (op.mnemonic :: operands) s = .ok () t) ↔
      ∃ out t, instruction op
        { number, pc := endOffset s.lines, words := op.mnemonic :: operands } operands s =
          .ok out t := by
  rw [← Reassembly.lineOf_mnemonic]
  cases hline : lineOf { number, pc := endOffset s.lines, words := op.mnemonic :: operands }
      op.mnemonic operands s with
  | ok out t =>
    exact iff_of_true ⟨_, PlainText.assembleWords_of_ok hline⟩ ⟨out, t, rfl⟩
  | error e t =>
    rw [PlainText.assembleWords_of_error hline]
    exact iff_of_false nofun nofun

/-- An operand of a narrow field is accepted exactly when the field can stand for it, and an
instruction of a program that is written with it does what it does with that number: the number
itself in an unsigned field, and the one that its low bits spell in a signed field. -/
theorem narrow_exact [Interpreter] :
    (∀ (line : Nat) (s : Assembly) (head : String) (operands : List String) (op : Opcode)
      (f : Field) (word : String) (u : UInt32), Opcode.ofMnemonic? head = some op →
      field? op = some f → narrowOperand? op.form operands = some word →
      OthersValid op.form operands → numberOf? word = some u →
        ((∃ t, assembleWords line (head :: operands) s = .ok () t) ↔ f.Accepts u)) ∧
    (∀ (a : Assembler) (text : String) (p : Program), (a.parse text).2 = .ok p →
      ∀ line ∈ p.lines, ∀ (head : String) (operands : List String) (op : Opcode) (f : Field)
        (word : String) (u : UInt32), line.words = head :: operands →
        Opcode.ofMnemonic? head = some op → field? op = some f →
        narrowOperand? op.form operands = some word → numberOf? word = some u →
          f.Accepts u ∧ ∃ w, line.codes = [w] ∧ code w = op.code ∧
            ∀ (pool : Option Pool) (m : Machine),
              withNarrow? (f.value u) w m op.action = some (op.action.perform pool w m)) ∧
    ∀ s v : UInt32,
      (BinaryOp.sll.apply s v).toNat = s.toNat * 2 ^ (v.toNat % 32) % 2 ^ 32 ∧
      (BinaryOp.srl.apply s v).toNat = s.toNat / 2 ^ (v.toNat % 32) ∧
      (BinaryOp.sra.apply s v).toInt32.toInt = s.toInt32.toInt / 2 ^ (v.toNat % 32) := by
  refine ⟨fun line s head operands op f word u hop hfield hword hothers hnumber => ?_,
    fun a text p hparse line hline head operands op f word u hwords hop hfield hword hnumber => ?_,
    shift_counts⟩
  · obtain rfl := mnemonic_of_ofMnemonic? hop
    rw [assembleWords_iff]
    constructor
    · rintro ⟨out, t, hinstruction⟩
      obtain ⟨v, w, hnarrowed⟩ := narrowed_of_instruction hfield hword hinstruction
      cases hnumber.symm.trans hnarrowed.number
      exact hnarrowed.accepts
    · intro haccepts
      exact instruction_of_accepts hfield hword hothers hnumber haccepts _ s
  · obtain ⟨made, t, u', ⟨head', operands', s, s', hwords', hmade, -⟩, hresolve, -⟩ :=
      line_of_parse hparse hline
    obtain ⟨⟨-, -, hsame⟩, -, -⟩ := resolve_samePlace hresolve
    cases hwords.symm.trans (hsame.trans hwords')
    obtain rfl := mnemonic_of_ofMnemonic? hop
    rw [Reassembly.lineOf_mnemonic] at hmade
    obtain ⟨v, w, hnarrowed⟩ := narrowed_of_instruction hfield hword hmade
    cases hnumber.symm.trans hnarrowed.number
    obtain ⟨w', hcodes, hcode, hcarries⟩ := carries_of_resolve hnarrowed rfl hresolve
    exact ⟨hnarrowed.accepts, w', hcodes, hcode,
      perform_of_carries hfield hnarrowed.accepts hcarries⟩

/-- The greatest byte is minus one to a quick addition, and one more is refused. -/
theorem narrow_exact_byte :
    (∃ t, assembleWords 1 ["addq", "s0", "s1", "0xff"] {} = .ok () t) ∧
    (¬ ∃ t, assembleWords 1 ["addq", "s0", "s1", "0x100"] {} = .ok () t) ∧
    ∃ p w, (({} : Assembler).parse "addq s0 s1 0xff").2 = .ok p ∧
      withNarrow? 0xffffffff w { mem := .zeroed 0 4 } Opcode.addq.action =
        some (Opcode.addq.action.perform (some p.pool) w { mem := .zeroed 0 4 }) := by
  obtain ⟨haccepts, hperforms, -⟩ := narrow_exact
  have hline (word : String) (u : UInt32) (hnumber : numberOf? word = some u) :=
    haccepts 1 {} "addq" ["s0", "s1", word] .addq .signedByte word u (by decide +kernel) rfl rfl
      ⟨by decide +kernel, by decide +kernel⟩ hnumber
  refine ⟨(hline "0xff" 0xff (by decide +kernel)).mpr (by decide), ?_, ?_⟩
  · exact mt (hline "0x100" 0x100 (by decide +kernel)).mp (by decide)
  · have hparse : (({} : Assembler).parse "addq s0 s1 0xff").2 = .ok
        { origin := 0
          lines := #[{ number := 1, pc := 0, words := ["addq", "s0", "s1", "0xff"]
                       codes := [0xff141000 ||| Opcode.addq.code.toUInt32] }]
          pool := ⟨#[]⟩ } := by
      decide +kernel
    obtain ⟨-, w, -, -, hperform⟩ := hperforms {} _ _ hparse _ (Array.mem_singleton_self _) "addq"
      ["s0", "s1", "0xff"] .addq .signedByte "0xff" 0xff rfl (by decide +kernel) rfl rfl
      (by decide +kernel)
    exact ⟨_, w, hparse, hperform _ _⟩

end TaskMachine.NarrowFields
