import TaskMachine.Expr.Script
import TaskMachine.Proofs.Assembler.Agreement
import TaskMachine.Proofs.Assembler.PlainText
import TaskMachine.Proofs.Numeral.Spelling

/-!
# Assembling the text of an instruction

A word that was assembled as a one-word instruction is shown as text from which
the same word is assembled again. The registers of such a word have names, its
numbers are spelled as they are read, and a distance is shown in the bytes that
it is written in. One field is shown otherwise than it is read: the byte that an
unsigned comparison takes is shown with a sign, and a negative one is refused.
-/

namespace TaskMachine.Reassembly

open Numeral Stateful Lines Linkage Agreement PlainText Spelling Asm
open InfoMark (hasInfo)

/-! ## What is shown -/

/-- The register has a name, and is found under it. -/
def Named (r : Reg) : Prop := Reg.ofName? (Reg.name r) = some r

instance (r : Reg) : Decidable (Named r) := inferInstanceAs (Decidable (_ = _))

theorem named_of_ofName? {name : String} {r : Reg} (h : Reg.ofName? name = some r) : Named r := by
  have hnamed : ∀ r : Reg, r.val < Reg.names.length → Named r := by decide +kernel
  obtain ⟨n, hn, rfl⟩ := Option.map_eq_some_iff.mp h
  have hlt := (List.findIdx?_eq_some_iff_getElem.mp hn).1
  exact hnamed _ (Nat.lt_of_le_of_lt (Nat.mod_le n 64) hlt)

/-- How a byte operand is shown. -/
def byteText (signed : Bool) (b : UInt8) : String :=
  if signed then decimal b.toInt8.toInt else decimal b.toNat

/-- The operands that a one-word instruction is shown with, and its word. -/
inductive Shown (op : Opcode) : List String → UInt32 → Prop
  | regs3 {d s t : Reg} (hform : op.form = .regs3) (hd : Named d) (hs : Named s) (ht : Named t) :
    Shown op [d.name, s.name, t.name] (Word.ofRegs op.code d s t)
  | regs2 {d s : Reg} (hform : op.form = .regs2) (hd : Named d) (hs : Named s) :
    Shown op [d.name, s.name] (Word.ofRegs op.code d s Reg.zero)
  | regs2Byte {signed : Bool} {d s : Reg} (b : UInt8) (hform : op.form = .regs2Byte signed)
    (hd : Named d) (hs : Named s) :
    Shown op [d.name, s.name, byteText signed b] (Word.ofRegsByte op.code d s b)
  | compareByte {signed : Bool} {d : Reg} (b c : UInt8) (hform : op.form = .compareByte signed)
    (hd : Named d) :
    Shown op [d.name, decimal b.toInt8.toInt, signedDecimal (c.toInt8.toInt * 4)]
      (Word.ofRegBytes op.code d b c)
  | regHalf {d : Reg} (imm : UInt16) (hform : op.form = .regHalf) (hd : Named d) :
    Shown op [d.name, decimal imm.toInt16.toInt] (Word.ofRegHalf op.code d imm)
  | reg1 {d : Reg} (hform : op.form = .reg1) (hd : Named d) :
    Shown op [d.name] (Word.ofRegHalf op.code d 0)
  | distance {w : UInt32} (hform : op.form = .distance) (hw : Word.code w = op.code) :
    Shown op [signedDecimal (Word.offset24 w).toInt] w
  | regRange {d s : Reg} (b : UInt8) (hform : op.form = .regRange) (hd : Named d) (hs : Named s) :
    Shown op [d.name, s.name, byteText false b] (Word.ofRegsByte op.code d s b)
  | bare (hform : op.form = .bare) : Shown op [] (Word.ofCode op.code)

theorem textOf_of_shown {op : Opcode} {texts : List String} {w : UInt32} (h : Shown op texts w) :
    op.textOf w = " ".intercalate (op.mnemonic :: texts) := by
  unfold Opcode.textOf
  cases h with
  | regs3 hform hd hs ht =>
    rw [hform, Word.ofRegs]
    simp
  | regs2 hform hd hs =>
    rw [hform, Word.ofRegs]
    simp
  | regs2Byte b hform hd hs =>
    rename_i signed d s
    rw [hform, Word.ofRegsByte]
    cases signed <;> simp [byteText]
  | compareByte b c hform hd =>
    rw [hform, Word.ofRegBytes]
    simp
  | regHalf imm hform hd =>
    rw [hform, Word.ofRegHalf]
    simp
  | reg1 hform hd =>
    rw [hform, Word.ofRegHalf]
    simp
  | distance hform hw => rw [hform]
  | regRange b hform hd hs =>
    rw [hform, Word.ofRegsByte]
    simp [byteText]
  | bare hform => rw [hform]

/-! ## The text of an instruction is plain -/

theorem mem_all (op : Opcode) : op ∈ Opcode.all := by
  have hslot : Opcode.slots[op.code.toNat]? = some (some op) :=
    Option.join_eq_some_iff.mp (ofCode?_code op)
  have hmem := Array.mem_toList_iff.mpr (Array.mem_of_getElem? hslot)
  exact List.mem_filterMap.mpr ⟨some op, hmem, rfl⟩

theorem plain_mnemonic (op : Opcode) : Plain op.mnemonic := by
  have hall : ∀ op ∈ Opcode.all, Plain op.mnemonic := by decide +kernel
  exact hall op (mem_all op)

theorem plain_name {r : Reg} (h : Named r) : Plain r.name := by
  have hall : ∀ r : Reg, Named r → Plain r.name := by decide +kernel
  exact hall r h

theorem isPlain_toDigits {n : Nat} {c : Char} (h : c ∈ Nat.toDigits 10 n) : isPlain c = true := by
  unfold isPlain
  rw [Nat.isDigit_of_mem_toDigits (by decide) (by decide) h]
  simp

theorem length_toDigits {n : Nat} (h : n < 2 ^ 32) : (Nat.toDigits 10 n).length ≤ 10 :=
  (Nat.length_toDigits_le_iff (by decide) (by decide)).mpr (by omega)

theorem plain_decimal {i : Int} (h : i.natAbs < 2 ^ 32) : Plain (decimal i) := by
  have hlength := length_toDigits h
  constructor <;> rw [toList_decimal]
  · split
    · exact List.cons_ne_nil _ _
    · exact Nat.toDigits_ne_nil
  · intro c hc
    split at hc
    · rcases List.mem_cons.mp hc with rfl | hc
      · decide
      · exact isPlain_toDigits hc
    · exact isPlain_toDigits hc
  · split
    · rw [List.length_cons]
      omega
    · omega

theorem plain_signedDecimal {i : Int} (h : i.natAbs < 2 ^ 32) : Plain (signedDecimal i) := by
  have hlength := length_toDigits h
  constructor <;> rw [toList_signedDecimal]
  · exact List.cons_ne_nil _ _
  · intro c hc
    rcases List.mem_cons.mp hc with rfl | hc
    · split <;> decide
    · exact isPlain_toDigits hc
  · rw [List.length_cons]
    omega

theorem natAbs_toInt8 (b : UInt8) : b.toInt8.toInt.natAbs ≤ 0x80 := by
  have hlow := b.toInt8.le_toInt
  have hhigh := b.toInt8.toInt_lt
  omega

theorem plain_byteText (signed : Bool) (b : UInt8) : Plain (byteText signed b) := by
  have hb := b.toNat_lt
  have hi := natAbs_toInt8 b
  unfold byteText
  split
  · exact plain_decimal (by omega)
  · exact plain_decimal (by omega)

theorem plain_of_shown {op : Opcode} {texts : List String} {w : UInt32} (h : Shown op texts w) :
    (∀ part ∈ op.mnemonic :: texts, Plain part) ∧ texts.length ≤ 3 := by
  have hop := plain_mnemonic op
  cases h with
  | regs3 hform hd hs ht => simp [hop, plain_name hd, plain_name hs, plain_name ht]
  | regs2 hform hd hs => simp [hop, plain_name hd, plain_name hs]
  | regs2Byte b hform hd hs => simp [hop, plain_name hd, plain_name hs, plain_byteText]
  | compareByte b c hform hd =>
    have hb := natAbs_toInt8 b
    have hc := natAbs_toInt8 c
    simp [hop, plain_name hd, plain_decimal (show b.toInt8.toInt.natAbs < 2 ^ 32 by omega),
      plain_signedDecimal (show (c.toInt8.toInt * 4).natAbs < 2 ^ 32 by omega)]
  | regHalf imm hform hd =>
    have hlow := imm.toInt16.le_toInt
    have hhigh := imm.toInt16.toInt_lt
    simp [hop, plain_name hd, plain_decimal (show imm.toInt16.toInt.natAbs < 2 ^ 32 by omega)]
  | reg1 hform hd => simp [hop, plain_name hd]
  | distance hform hw =>
    have hlow := (Word.offset24 w).le_toInt
    have hhigh := (Word.offset24 w).toInt_lt
    simp [hop, plain_signedDecimal (show (Word.offset24 w).toInt.natAbs < 2 ^ 32 by omega)]
  | regRange b hform hd hs => simp [hop, plain_name hd, plain_name hs, plain_byteText]
  | bare hform => simp [hop]

/-! ## Reading what is shown -/

theorem register_name {r : Reg} (h : Named r) (s : Assembly) : register r.name s = .ok r s :=
  register_eq_ok.mpr ⟨h, rfl⟩

theorem signedField_decimal {bits : Nat} {i : Int} (hlow : -(twoPow (bits - 1) : Int) ≤ i)
    (hhigh : i < twoPow (bits - 1)) (hbits : twoPow (bits - 1) ≤ 0x80000000) (s : Assembly) :
    signedField bits (decimal i) s = .ok (UInt32.ofInt i) s := by
  unfold signedField
  rw [bind_of_ok (number_eq_ok.mpr ⟨numberOf?_decimal (by omega) (by omega), rfl⟩), if_pos]
  · rfl
  · rw [Fields.toInt_ofInt (by omega) (by omega)]
    exact .inl ⟨hlow, hhigh⟩

theorem unsignedByte_decimal (b : UInt8) (s : Assembly) :
    unsignedByte (decimal b.toNat) s = .ok (UInt32.ofInt b.toNat) s := by
  have hb := b.toNat_lt
  unfold unsignedByte
  rw [bind_of_ok (number_eq_ok.mpr ⟨numberOf?_decimal (by omega) (by omega), rfl⟩), if_pos]
  · rfl
  · rw [UInt32.le_iff_toNat_le, UInt32.ofInt, UInt32.toNat_ofNat']
    change _ ≤ 0xff
    omega

/-- A negative number is no unsigned byte. -/
theorem unsignedByte_negative {i : Int} (hlow : -0x80000000 ≤ i) (hneg : i < 0) (s : Assembly) :
    unsignedByte (decimal i) s = .error .immediateRange s := by
  unfold unsignedByte
  rw [bind_of_ok (number_eq_ok.mpr ⟨numberOf?_decimal (by omega) (by omega), rfl⟩), if_neg]
  · rfl
  · rw [UInt32.le_iff_toNat_le, UInt32.ofInt, UInt32.toNat_ofNat']
    change ¬ _ ≤ 0xff
    omega

/-- Up to `0x80` a byte is the same with a sign and without, and from there on it is negative. -/
theorem toInt8_eq (b : UInt8) :
    b.toInt8.toInt = if b < 0x80 then (b.toNat : Int) else b.toNat - 0x100 := by
  have hall : ∀ n < 256, (UInt8.ofNat n).toInt8.toInt =
      if UInt8.ofNat n < 0x80 then ((UInt8.ofNat n).toNat : Int)
      else (UInt8.ofNat n).toNat - 0x100 := by
    decide +kernel
  have hb := hall b.toNat b.toNat_lt
  rwa [UInt8.ofNat_toNat] at hb

/-- A byte operand is read as it is shown. -/
theorem byteField_byteText (signed : Bool) (b : UInt8) (s : Assembly) :
    ∃ u, byteField signed (byteText signed b) s = .ok u s ∧ u.toUInt8 = b := by
  have hlow := b.toInt8.le_toInt
  have hhigh := b.toInt8.toInt_lt
  cases signed with
  | true =>
    refine ⟨_, signedField_decimal hlow hhigh (by decide) s, ?_⟩
    rw [Fields.toUInt8_ofInt, Fields.ofInt_toInt8]
  | false =>
    have hb := b.toNat_lt
    refine ⟨_, unsignedByte_decimal b s, ?_⟩
    apply UInt8.toNat_inj.mp
    rw [UInt32.toNat_toUInt8, UInt32.ofInt, UInt32.toNat_ofNat']
    omega

/-- A distance that its field can hold is patched in at once. -/
theorem aim_signedDecimal {line : Line} (kind : LinkKind) {i : Int} (hkind : kind ≠ .absolute)
    (hpacks : ∀ origin offset, packs? origin offset i kind = none) (hlow : -0x80000000 ≤ i)
    (hhigh : i ≤ 0x7fffffff) (hreach : Reaches kind i) (s : Assembly) :
    ∃ t, aim line kind (signedDecimal i) s = .ok (withDistance { line with link := kind } i) t := by
  have haim : aim line kind (signedDecimal i) s = patch { line with link := kind } i 0 s := by
    unfold aim
    rw [numberOf?_signedDecimal hlow (by omega)]
    dsimp only
    rw [if_neg hkind, Fields.toInt_ofInt hlow hhigh]
  rw [haim]
  cases hpatch : patch { line with link := kind } i 0 s with
  | ok out t =>
    obtain ⟨-, log, ⟨v, hv, -, -⟩ | ⟨-, rfl, -⟩⟩ := patch_eq_ok hpatch
    · cases (hpacks _ _).symm.trans hv
    · exact ⟨t, rfl⟩
  | error e t => exact absurd hreach (patch_eq_error hpatch).1

/-- A byte is compared without a sign and shown with one, and the sign shows. -/
def Misprinted (op : Opcode) (w : UInt32) : Prop :=
  op.form = .compareByte false ∧ 0x80 ≤ Word.laneB w

instance (op : Opcode) (w : UInt32) : Decidable (Misprinted op w) :=
  inferInstanceAs (Decidable (_ ∧ _))

/-- The byte of a comparison is read as it is shown, unless it is misprinted. -/
theorem byteField_compared {op : Opcode} {signed : Bool} {r : Reg} {b c : UInt8}
    (hform : op.form = .compareByte signed)
    (hprinted : ¬ Misprinted op (Word.ofRegBytes op.code r b c)) (s : Assembly) :
    ∃ u, byteField signed (decimal b.toInt8.toInt) s = .ok u s ∧ u.toUInt8 = b := by
  cases signed with
  | true => exact byteField_byteText true b s
  | false =>
    have hsmall : b < 0x80 := by
      refine UInt8.not_le.mp fun hlarge => hprinted ⟨hform, ?_⟩
      rwa [Word.ofRegBytes, Fields.laneB_ofBytes]
    rw [toInt8_eq, if_pos hsmall]
    exact byteField_byteText false b s

/-- The operands that a word is shown with are assembled to the word. -/
theorem instruction_of_shown {op : Opcode} {texts : List String} {w : UInt32}
    (h : Shown op texts w) (hprinted : ¬ Misprinted op w) (line : Line) (hlink : line.link = .none)
    (s : Assembly) :
    ∃ t, instruction op line texts s =
      .ok { line with codes := [w], link := linkOf op.form } t := by
  obtain ⟨number, pc, words, codes, target, link⟩ := line
  cases hlink
  cases h with
  | regs3 hform hd hs ht =>
    simp only [instruction, hform]
    rw [bind_of_ok (register_name hd s), bind_of_ok (register_name hs s),
      bind_of_ok (register_name ht s)]
    exact ⟨s, rfl⟩
  | regs2 hform hd hs =>
    simp only [instruction, hform]
    rw [bind_of_ok (register_name hd s), bind_of_ok (register_name hs s)]
    exact ⟨s, rfl⟩
  | regs2Byte b hform hd hs =>
    obtain ⟨u, hu, hb⟩ := byteField_byteText _ b s
    simp only [instruction, hform]
    rw [bind_of_ok (register_name hd s), bind_of_ok (register_name hs s), bind_of_ok hu, hb]
    exact ⟨s, rfl⟩
  | compareByte b c hform hd =>
    obtain ⟨u, hu, hb⟩ := byteField_compared hform hprinted s
    have hlow := c.toInt8.le_toInt
    have hhigh := c.toInt8.toInt_lt
    have hdiv : c.toInt8.toInt * 4 / 4 = c.toInt8.toInt := Int.mul_ediv_cancel _ (by decide)
    simp only [instruction, hform]
    rw [bind_of_ok (register_name hd s), bind_of_ok hu, hb]
    obtain ⟨t, ht⟩ := aim_signedDecimal .byte (i := c.toInt8.toInt * 4) (by decide)
      (fun _ _ => rfl) (by omega) (by omega) ⟨by omega, by omega, by omega⟩ s
    refine ⟨t, ht.trans ?_⟩
    rw [withDistance, List.modifyHead_cons, displaced, hdiv, Fields.ofInt_toInt8,
      Fields.withLaneC_ofRegBytes]
    rfl
  | regHalf imm hform hd =>
    have hlow := imm.toInt16.le_toInt
    have hhigh := imm.toInt16.toInt_lt
    simp only [instruction, hform]
    rw [bind_of_ok (register_name hd s), bind_of_ok (signedField_decimal hlow hhigh (by decide) s),
      Fields.toUInt16_ofInt, Fields.ofInt_toInt16]
    exact ⟨s, rfl⟩
  | reg1 hform hd =>
    simp only [instruction, hform]
    rw [bind_of_ok (register_name hd s)]
    exact ⟨s, rfl⟩
  | distance hform hw =>
    have hsigned : (Word.offset24 w).toInt = w.toInt32.toInt / 0x100 := Fields.toInt_offset24 w
    have hlow := w.toInt32.le_toInt
    have hhigh := w.toInt32.toInt_lt
    simp only [instruction, hform]
    obtain ⟨t, ht⟩ := aim_signedDecimal .word (i := (Word.offset24 w).toInt) (by decide)
      (fun _ _ => rfl) (by omega) (by omega) ⟨by omega, by omega⟩ s
    refine ⟨t, ht.trans ?_⟩
    rw [withDistance, List.modifyHead_cons, displaced, Fields.code_ofOffset24, ← hw,
      Fields.ofOffset24_offset24]
    rfl
  | regRange b hform hd hs =>
    obtain ⟨u, hu, hb⟩ := byteField_byteText false b s
    simp only [instruction, hform]
    rw [bind_of_ok (register_name hd s), bind_of_ok (register_name hs s),
      bind_of_ok (show unsignedByte (byteText false b) s = .ok u s from hu), hb]
    exact ⟨s, rfl⟩
  | bare hform =>
    simp only [instruction, hform]
    exact ⟨s, rfl⟩

theorem instruction_of_misprinted {op : Opcode} {texts : List String} {w : UInt32}
    (h : Shown op texts w) (hbad : Misprinted op w) (line : Line) (s : Assembly) :
    instruction op line texts s = .error .immediateRange s := by
  obtain ⟨hform, hlarge⟩ := hbad
  cases h with
  | compareByte b c hform' hd =>
    cases hform.symm.trans hform'
    have hlow := b.toInt8.le_toInt
    have hneg : b.toInt8.toInt < 0 := by
      have hb := b.toNat_lt
      rw [Word.ofRegBytes, Fields.laneB_ofBytes] at hlarge
      rw [toInt8_eq, if_neg (UInt8.not_lt.mpr hlarge)]
      omega
    simp only [instruction, hform]
    rw [bind_of_ok (register_name hd s)]
    exact bind_of_error (unsignedByte_negative (by omega) hneg s) _
  | regs3 hform' | regs2 hform' | regs2Byte b hform' | regHalf imm hform' | reg1 hform'
  | distance hform' | regRange b hform' | bare hform' => cases hform.symm.trans hform'

/-! ## Where shown words come from -/

/-- The words are those of a one-word instruction that can be shown. -/
def Showable (op : Opcode) (codes : List UInt32) : Prop := ∃ w texts, codes = [w] ∧ Shown op texts w

theorem Showable.of_shown {op : Opcode} {texts : List String} {w : UInt32} (h : Shown op texts w) :
    Showable op [w] :=
  ⟨w, texts, rfl, h⟩

/-- Another distance is shown as another distance. -/
theorem Showable.displaced {op : Opcode} {codes : List UInt32} (h : Showable op codes) (d : Int) :
    Showable op (codes.modifyHead (displaced (linkOf op.form) d)) := by
  obtain ⟨w, texts, rfl, h⟩ := h
  cases h with
  | compareByte b c hform hd =>
    rw [hform, List.modifyHead_cons, linkOf, Lines.displaced, Fields.withLaneC_ofRegBytes]
    exact .of_shown (.compareByte b _ hform hd)
  | distance hform hw =>
    rw [hform, List.modifyHead_cons, linkOf, Lines.displaced]
    exact .of_shown (.distance hform (by rw [Fields.code_ofOffset24, hw]))
  | regs3 hform hd hs ht => rw [hform]; exact .of_shown (.regs3 hform hd hs ht)
  | regs2 hform hd hs => rw [hform]; exact .of_shown (.regs2 hform hd hs)
  | regs2Byte b hform hd hs => rw [hform]; exact .of_shown (.regs2Byte b hform hd hs)
  | regHalf imm hform hd => rw [hform]; exact .of_shown (.regHalf imm hform hd)
  | reg1 hform hd => rw [hform]; exact .of_shown (.reg1 hform hd)
  | regRange b hform hd hs => rw [hform]; exact .of_shown (.regRange b hform hd hs)
  | bare hform => rw [hform]; exact .of_shown (.bare hform)

theorem packs?_of_short {form : Form} (h : hasInfo form = false) (origin offset : UInt32)
    (d : Int) : packs? origin offset d (linkOf form) = none := by
  cases form with
  | compareRegs | regInfo => cases h
  | _ => rfl

theorem Showable.patch {op : Opcode} {line out : Line} {d : Int} {offset : UInt32}
    {s t : Assembly} (hpatch : patch line d offset s = .ok out t)
    (hlink : line.link = linkOf op.form) (hinfo : hasInfo op.form = false)
    (h : Showable op line.codes) : Showable op out.codes := by
  obtain ⟨-, log, ⟨v, hv, -, -⟩ | ⟨-, rfl, -⟩⟩ := patch_eq_ok hpatch
  · rw [hlink, packs?_of_short hinfo] at hv
    cases hv
  · rw [withDistance, hlink]
    exact h.displaced d

theorem Showable.aim {op : Opcode} {line out : Line} {word : String} {s t : Assembly}
    (haim : Asm.aim line (linkOf op.form) word s = .ok out t) (hinfo : hasInfo op.form = false)
    (h : Showable op line.codes) : Showable op out.codes := by
  have habsolute : linkOf op.form ≠ .absolute := by
    intro hkind
    have hpacks := packs?_of_short hinfo 0 0 0
    rw [hkind] at hpacks
    cases hpacks
  cases aimed_of_aim haim with
  | value hkind hnumber => exact absurd hkind habsolute
  | distance hkind hnumber hpatch => exact .patch hpatch rfl hinfo h
  | constant hkind hnumber hinfo' => exact absurd hkind habsolute
  | label hnumber hlabel => exact h

theorem named_of_register {word : String} {r : Reg} {s t : Assembly}
    (h : register word s = .ok r t) : Named r :=
  named_of_ofName? (register_eq_ok.mp h).1

/-- What a one-word instruction is assembled to can be shown. -/
theorem showable_of_instruction {op : Opcode} {line out : Line} {operands : List String}
    {s t : Assembly} (h : instruction op line operands s = .ok out t)
    (hinfo : hasInfo op.form = false) : Showable op out.codes := by
  generalize hx : instruction op line operands = x at h
  unfold instruction at hx
  split at hx
  · rename_i hform
    subst hx
    obtain ⟨d, _, hd, h⟩ := bind_eq_ok.mp h
    obtain ⟨r, _, hr, h⟩ := bind_eq_ok.mp h
    obtain ⟨q, _, hq, h⟩ := bind_eq_ok.mp h
    obtain ⟨rfl, -⟩ := pure_eq_ok.mp h
    exact .of_shown (.regs3 hform (named_of_register hd) (named_of_register hr)
      (named_of_register hq))
  · rename_i hform
    subst hx
    obtain ⟨d, _, hd, h⟩ := bind_eq_ok.mp h
    obtain ⟨r, _, hr, h⟩ := bind_eq_ok.mp h
    obtain ⟨rfl, -⟩ := pure_eq_ok.mp h
    exact .of_shown (.regs2 hform (named_of_register hd) (named_of_register hr))
  · rename_i hform
    subst hx
    obtain ⟨d, _, hd, h⟩ := bind_eq_ok.mp h
    obtain ⟨r, _, hr, h⟩ := bind_eq_ok.mp h
    obtain ⟨b, _, -, h⟩ := bind_eq_ok.mp h
    obtain ⟨rfl, -⟩ := pure_eq_ok.mp h
    exact .of_shown (.regs2Byte _ hform (named_of_register hd) (named_of_register hr))
  · rename_i hform
    rw [hform] at hinfo
    cases hinfo
  · rename_i hform
    rw [hform] at hinfo
    cases hinfo
  · rename_i hform
    subst hx
    obtain ⟨d, _, hd, h⟩ := bind_eq_ok.mp h
    obtain ⟨b, _, -, h⟩ := bind_eq_ok.mp h
    have hshown := Showable.of_shown (.compareByte b.toUInt8 0 hform (named_of_register hd))
    exact .aim (by rw [hform]; exact h) hinfo hshown
  · rename_i hform
    rw [hform] at hinfo
    cases hinfo
  · rename_i hform
    subst hx
    obtain ⟨d, _, hd, h⟩ := bind_eq_ok.mp h
    obtain ⟨imm, _, -, h⟩ := bind_eq_ok.mp h
    obtain ⟨rfl, -⟩ := pure_eq_ok.mp h
    exact .of_shown (.regHalf _ hform (named_of_register hd))
  · rename_i hform
    rw [hform] at hinfo
    cases hinfo
  · rename_i hform
    subst hx
    obtain ⟨d, _, hd, h⟩ := bind_eq_ok.mp h
    obtain ⟨rfl, -⟩ := pure_eq_ok.mp h
    exact .of_shown (.reg1 hform (named_of_register hd))
  · rename_i hform
    subst hx
    have hshown := Showable.of_shown (.distance hform (Fields.code_ofOffset24 op.code 0))
    exact .aim (by rw [hform]; exact h) hinfo hshown
  · rename_i hform
    subst hx
    obtain ⟨d, _, hd, h⟩ := bind_eq_ok.mp h
    obtain ⟨r, _, hr, h⟩ := bind_eq_ok.mp h
    obtain ⟨rfl, -⟩ := pure_eq_ok.mp h
    exact .of_shown (.regRange 0 hform (named_of_register hd) (named_of_register hr))
  · rename_i hform
    subst hx
    obtain ⟨d, _, hd, h⟩ := bind_eq_ok.mp h
    obtain ⟨r, _, hr, h⟩ := bind_eq_ok.mp h
    obtain ⟨b, _, -, h⟩ := bind_eq_ok.mp h
    obtain ⟨rfl, -⟩ := pure_eq_ok.mp h
    exact .of_shown (.regRange _ hform (named_of_register hd) (named_of_register hr))
  · rename_i hform
    subst hx
    obtain ⟨rfl, -⟩ := pure_eq_ok.mp h
    exact .of_shown (.bare hform)
  · subst hx
    exact (throw_eq_ok.mp h).elim

theorem showable_of_resolve {op : Opcode} {line out : Line} {s t : Assembly}
    (h : resolve line s = .ok out t)
    (hlink : ∀ label, line.target = some label → line.link = linkOf op.form)
    (hinfo : hasInfo op.form = false) (hshown : Showable op line.codes) :
    Showable op out.codes := by
  obtain ⟨-, rfl, -⟩ | ⟨label, offset, htarget, -, hpatch⟩ := resolve_eq_ok h
  · exact hshown
  · exact hshown.patch hpatch (hlink label htarget) hinfo

theorem instruction_of_lineOf {line out : Line} {head : String} {operands : List String}
    {s t : Assembly} (h : lineOf line head operands s = .ok out t) (hhead : head ≠ wordDirective) :
    ∃ op, Opcode.ofMnemonic? head = some op ∧ instruction op line operands s = .ok out t := by
  unfold lineOf at h
  rw [if_neg hhead] at h
  cases hop : Opcode.ofMnemonic? head with
  | some op =>
    simp only [hop] at h
    exact ⟨op, rfl, h⟩
  | none =>
    simp only [hop] at h
    exact (throw_eq_ok.mp h).elim

/-- The word of a one-word instruction of a program can be shown. -/
theorem shown_of_parse [Interpreter] {a : Assembler} {text : String} {p : Program}
    (hparse : (a.parse text).2 = .ok p) {out : Line} (hout : out ∈ p.lines)
    (hhead : out.words.head? ≠ some wordDirective) {w : UInt32} (hcodes : out.codes = [w]) :
    ∃ op texts, Shown op texts w := by
  obtain ⟨line, t, u, ⟨head, operands, s, s', hwords, hline, -⟩, hres, -⟩ :=
    line_of_parse hparse hout
  obtain ⟨⟨-, -, hsame⟩, -, -⟩ := resolve_samePlace hres
  have hne : head ≠ wordDirective := by
    rintro rfl
    exact hhead (by rw [hsame, hwords]; rfl)
  obtain ⟨op, -, hinstr⟩ := instruction_of_lineOf hline hne
  have hassembled := assembled_of_instruction hinstr
  obtain ⟨w', rest, hcons, -, hrest⟩ := resolve_encodes hres hassembled.encodes
  have hinfo : hasInfo op.form = false := by
    rw [hcodes] at hcons
    cases hcons
    cases hform : hasInfo op.form with
    | false => rfl
    | true =>
      rw [hform] at hrest
      cases hrest
  have hshown := showable_of_resolve hres
    (fun label hlabel => (hassembled.linked rfl hlabel).1) hinfo
    (showable_of_instruction hinstr hinfo)
  obtain ⟨w'', texts, hcodes', h⟩ := hshown
  cases hcodes.symm.trans hcodes'
  exact ⟨op, texts, h⟩

/-! ## Whole texts -/

theorem ofMnemonic?_mnemonic (op : Opcode) : Opcode.ofMnemonic? op.mnemonic = some op := by
  have hall : ∀ op ∈ Opcode.all, Opcode.ofMnemonic? op.mnemonic = some op := by decide +kernel
  exact hall op (mem_all op)

theorem code_of_shown {op : Opcode} {texts : List String} {w : UInt32} (h : Shown op texts w) :
    Word.code w = op.code := by
  cases h with
  | distance hform hw => exact hw
  | _ => simp

theorem lineOf_mnemonic (op : Opcode) (line : Line) (operands : List String) :
    lineOf line op.mnemonic operands = instruction op line operands := by
  unfold lineOf
  rw [if_neg ((plain_mnemonic op).ne (c := '.') (by decide) (by decide)), ofMnemonic?_mnemonic]

/-- The text of a one-word instruction of a program is assembled to the same word, except that an
unsigned comparison with a byte from `0x80` up is refused for the sign that it is shown with. -/
theorem disassembly_reassembles [Interpreter] {a b : Assembler} {text : String} {p : Program}
    (hparse : (a.parse text).2 = .ok p) {line : Line} (hline : line ∈ p.lines)
    (hhead : line.words.head? ≠ some wordDirective) {w : UInt32} (hcodes : line.codes = [w])
    (hfresh : b.predefined = {}) :
    ∃ op, Opcode.ofCode? (Word.code w) = some op ∧
      (¬ Misprinted op w → ∃ q, (b.parse (disassemble w)).2 = .ok q ∧ q.image = [w]) ∧
      (Misprinted op w →
        (b.parse (disassemble w)).2 = .error (.located 1 (disassemble w) .immediateRange)) := by
  obtain ⟨op, texts, h⟩ := shown_of_parse hparse hline hhead hcodes
  have hop : Opcode.ofCode? (Word.code w) = some op := by rw [code_of_shown h, ofCode?_code]
  have htext : disassemble w = " ".intercalate (op.mnemonic :: texts) := by
    rw [disassemble, hop]
    exact textOf_of_shown h
  obtain ⟨hplain, hfew⟩ := plain_of_shown h
  refine ⟨op, hop, fun hprinted => ?_, fun hbad => ?_⟩
  · obtain ⟨t, ht⟩ := instruction_of_shown h hprinted
      { number := 1, pc := 0, words := op.mnemonic :: texts } rfl
      (opened b (" ".intercalate (op.mnemonic :: texts)))
    rw [← lineOf_mnemonic] at ht
    rw [htext]
    exact parse_of_ok hplain hfew hfresh ht rfl
  · have ht := instruction_of_misprinted h hbad
      { number := 1, pc := 0, words := op.mnemonic :: texts }
      (opened b (" ".intercalate (op.mnemonic :: texts)))
    rw [← lineOf_mnemonic] at ht
    rw [htext]
    exact parse_of_error hplain hfew hfresh ht

/-- The program of an unsigned comparison of a register with a byte. -/
def comparison (byte : String) (w : UInt32) : Program where
  origin := 0
  lines := #[
    { number := 1, pc := 0, words := ["bgtuib", "s0", byte, "8"], codes := [w], link := .byte }]

/-- A comparison with a byte below `0x80` comes back as it was. -/
theorem disassembly_reassembles_small :
    (({} : Assembler).parse "bgtuib s0 100 8").2 = .ok (comparison "100" 0x0264103b) ∧
      ∃ q, (({} : Assembler).parse (disassemble 0x0264103b)).2 = .ok q ∧
        q.image = [0x0264103b] := by
  have hparse : (({} : Assembler).parse "bgtuib s0 100 8").2 =
      .ok (comparison "100" 0x0264103b) := by decide +kernel
  refine ⟨hparse, ?_⟩
  obtain ⟨op, hop, hprinted, -⟩ := disassembly_reassembles (b := {}) hparse
    (Array.mem_singleton_self _) (by decide) rfl rfl
  refine hprinted fun hbad => ?_
  exact absurd hbad.2 (by decide +kernel)

/-- A comparison with a larger byte is assembled, and its text is refused. -/
theorem disassembly_refused :
    ¬ ∀ (a b : Assembler) (text : String) (p : Program), (a.parse text).2 = .ok p →
      ∀ line ∈ p.lines, line.words.head? ≠ some wordDirective → ∀ w, line.codes = [w] →
        b.predefined = {} → ∃ q, (b.parse (disassemble w)).2 = .ok q ∧ q.image = [w] := by
  intro hclaim
  have hparse : (({} : Assembler).parse "bgtuib s0 200 8").2 =
      .ok (comparison "200" 0x02c8103b) := by decide +kernel
  have hrefused : (({} : Assembler).parse (disassemble 0x02c8103b)).2 =
      .error (.located 1 "bgtuib s0 -56 +8" .immediateRange) := by decide +kernel
  obtain ⟨q, hq, -⟩ := hclaim {} {} _ _ hparse _ (Array.mem_singleton_self _) (by decide) _ rfl rfl
  cases hrefused.symm.trans hq

end TaskMachine.Reassembly
