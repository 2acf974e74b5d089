import TaskMachine.Assembler.Instruction
import TaskMachine.Proofs.Isa.Fields
import TaskMachine.Proofs.Isa.InfoMark
import TaskMachine.Proofs.Stateful
import TaskMachine.Proofs.Store.Constants

/-!
# What an assembled line is made of

Assembling the operands of a line changes nothing but the pool, which grows, and
the log. A patch puts a distance into the first word of a line or a packed value
into its second, and fails exactly when the distance does not fit the field.
`Assembled` says once what an instruction can be assembled to; the facts about
lines that follow are read off it.
-/

namespace TaskMachine.Lines

open Stateful Constants Asm
open InfoMark (hasInfo)

/-- Nothing but the log has changed, and the pool has grown. -/
structure Quiet (s t : Assembly) : Prop where
  origin : t.origin = s.origin
  lines : t.lines = s.lines
  labels : t.labels = s.labels
  equates : t.equates = s.equates
  macros : t.macros = s.macros
  pool : Extends s.pool t.pool

theorem Quiet.refl (s : Assembly) : Quiet s s := ⟨rfl, rfl, rfl, rfl, rfl, .refl _⟩

theorem Quiet.trans {s t u : Assembly} (h : Quiet s t) (k : Quiet t u) : Quiet s u where
  origin := k.origin.trans h.origin
  lines := k.lines.trans h.lines
  labels := k.labels.trans h.labels
  equates := k.equates.trans h.equates
  macros := k.macros.trans h.macros
  pool := h.pool.trans k.pool

theorem quiet_log (s : Assembly) (log : Log) : Quiet s { s with log := log } :=
  ⟨rfl, rfl, rfl, rfl, rfl, .refl _⟩

theorem quiet_pool (s : Assembly) {pool : Pool} (h : Extends s.pool pool) :
    Quiet s { s with pool := pool } :=
  ⟨rfl, rfl, rfl, rfl, rfl, h⟩

/-! ## Operands -/

theorem number_eq_ok {word : String} {v : UInt32} {s t : Assembly} :
    number word s = .ok v t ↔ numberOf? word = some v ∧ t = s := by
  unfold number
  cases numberOf? word with
  | some u =>
    rw [pure_eq_ok, Option.some.injEq]
    exact and_congr_left' eq_comm
  | none =>
    rw [throw_eq_ok]
    exact ⟨False.elim, fun h => nomatch h.1⟩

theorem register_eq_ok {word : String} {r : Reg} {s t : Assembly} :
    register word s = .ok r t ↔ Reg.ofName? word = some r ∧ t = s := by
  unfold register
  cases Reg.ofName? word with
  | some q =>
    rw [pure_eq_ok, Option.some.injEq]
    exact and_congr_left' eq_comm
  | none =>
    rw [throw_eq_ok]
    exact ⟨False.elim, fun h => nomatch h.1⟩

theorem number_reads (word : String) : Reads (number word) := by
  intro s v t h
  exact (number_eq_ok.mp h).2

theorem register_reads (word : String) : Reads (register word) := by
  intro s r t h
  exact (register_eq_ok.mp h).2

theorem signedField_reads (bits : Nat) (word : String) : Reads (signedField bits word) :=
  (number_reads word).bind fun u => .ite (.pure u) (.throw _)

theorem unsignedByte_reads (word : String) : Reads (unsignedByte word) :=
  (number_reads word).bind fun u => .ite (.pure u) (.throw _)

theorem byteField_reads (signed : Bool) (word : String) : Reads (byteField signed word) :=
  .ite (signedField_reads 8 word) (unsignedByte_reads word)

theorem currentPc_apply (s : Assembly) : currentPc s = .ok (endOffset s.lines) s := rfl

theorem equate?_apply (name : String) (s : Assembly) :
    equate? name s = .ok (s.equates.find? name) s := rfl

/-- Packing a value never fails. -/
theorem infoWord_apply (v : UInt32) (s : Assembly) :
    infoWord v s = .ok (packed s.pool v).2 { s with pool := (packed s.pool v).1 } := by
  unfold infoWord packed
  split
  · rfl
  · rfl

theorem infoWord_quiet (v : UInt32) : Ensures Quiet (infoWord v) := by
  intro s info t h
  rw [infoWord_apply] at h
  cases h
  exact quiet_pool s (extends_packed s.pool v)

/-- A number is not a pool reference, whose mark no number begins with. -/
theorem poolDigits?_of_number {word : String} {v : UInt32} (h : numberOf? word = some v) :
    poolDigits? word = none := by
  unfold poolDigits?
  split
  · rename_i hmark
    obtain ⟨rest, hrest⟩ := List.isPrefixOf_iff_prefix.mp hmark
    have hword : word.toList = '%' :: ("pool:".toList ++ rest) := hrest.symm
    have hnone : numberOf? word = none := by
      unfold numberOf? splitComplement
      rw [hword]
      rfl
    rw [hnone] at h
    cases h
  · rfl

theorem operandInfo_of_number {word : String} {v : UInt32} (h : numberOf? word = some v)
    (s : Assembly) : operandInfo word s = infoWord v s := by
  unfold operandInfo
  rw [poolDigits?_of_number h]
  exact bind_of_ok (number_eq_ok.mpr ⟨h, rfl⟩) _

theorem operandInfo_quiet (word : String) : Ensures Quiet (operandInfo word) := by
  unfold operandInfo
  split
  · split
    · exact .pure .refl _
    · exact .throw _
  · exact .bind .trans ((number_reads word).ensures .refl) infoWord_quiet

/-! ## Patches -/

/-- Whether a distance in bytes fits the field that a link patches. -/
def Reaches : LinkKind → Int → Prop
  | .half, d => -0x8000 ≤ d ∧ d ≤ 0x7fff
  | .byte, d => d % 4 = 0 ∧ -0x80 ≤ d / 4 ∧ d / 4 ≤ 0x7f
  | .word, d => -0x800000 ≤ d ∧ d ≤ 0x7fffff
  | .none, _ | .info, _ | .absolute, _ => True

/-- The first word of a line with a distance patched in, for the links that patch it. -/
def displaced : LinkKind → Int → UInt32 → UInt32
  | .half, d, w => Word.withHalf w (UInt16.ofInt d)
  | .byte, d, w => Word.withLaneC w (UInt8.ofInt (d / 4))
  | .word, d, w => Word.ofOffset24 (Word.code w) (UInt32.ofInt d)
  | .none, _, w | .info, _, w | .absolute, _, w => w

/-- The value that a link packs into the second word of a line, for the links that do. -/
def packs? (origin offset : UInt32) (d : Int) : LinkKind → Option UInt32
  | .info => some (UInt32.ofInt d)
  | .absolute => some (origin + offset)
  | .none | .half | .byte | .word => none

/-- The line with a patched first word. -/
def withDistance (line : Line) (d : Int) : Line :=
  { line with codes := line.codes.modifyHead (displaced line.link d) }

/-- The line with another info word. -/
def withInfo (line : Line) (info : UInt32) : Line := { line with codes := line.codes.set 1 info }

theorem patch_eq_ok {line out : Line} {d : Int} {offset : UInt32} {s t : Assembly}
    (h : patch line d offset s = .ok out t) :
    Reaches line.link d ∧ ∃ log,
      (∃ v, packs? s.origin offset d line.link = some v ∧
        out = withInfo line (packed s.pool v).2 ∧
        t = { s with log := log, pool := (packed s.pool v).1 }) ∨
      (packs? s.origin offset d line.link = none ∧ out = withDistance line d ∧
        t = { s with log := log }) := by
  unfold patch at h
  obtain ⟨_, u, hu, h⟩ := bind_eq_ok.mp h
  have hlog := modify_eq_ok.mp hu
  subst hlog
  unfold withInfo withDistance
  cases hk : line.link with
  | none =>
    simp only [hk] at h
    obtain ⟨rfl, rfl⟩ := pure_eq_ok.mp h
    have hsame : out.codes.modifyHead (displaced .none d) = out.codes := by
      cases out.codes <;> rfl
    exact ⟨trivial, _, .inr ⟨rfl, by rw [hsame, ← hk], rfl⟩⟩
  | half =>
    simp only [hk] at h
    obtain ⟨hreach, rfl, rfl⟩ := refuse_eq_ok.mp h
    exact ⟨by unfold Reaches; omega, _, .inr ⟨rfl, rfl, rfl⟩⟩
  | byte =>
    simp only [hk] at h
    obtain ⟨hreach, rfl, rfl⟩ := refuse_eq_ok.mp h
    exact ⟨by unfold Reaches; omega, _, .inr ⟨rfl, rfl, rfl⟩⟩
  | word =>
    simp only [hk] at h
    obtain ⟨hreach, rfl, rfl⟩ := refuse_eq_ok.mp h
    exact ⟨by unfold Reaches; omega, _, .inr ⟨rfl, rfl, rfl⟩⟩
  | info =>
    simp only [hk] at h
    rw [bind_of_ok (infoWord_apply _ _)] at h
    obtain ⟨rfl, rfl⟩ := pure_eq_ok.mp h
    exact ⟨trivial, _, .inl ⟨_, rfl, rfl, rfl⟩⟩
  | absolute =>
    simp only [hk] at h
    obtain ⟨v, w, hget, h⟩ := bind_eq_ok.mp h
    obtain ⟨rfl, rfl⟩ := get_eq_ok.mp hget
    rw [bind_of_ok (infoWord_apply _ _)] at h
    obtain ⟨rfl, rfl⟩ := pure_eq_ok.mp h
    exact ⟨trivial, _, .inl ⟨_, rfl, rfl, rfl⟩⟩

theorem patch_eq_error {line : Line} {d : Int} {offset : UInt32} {s t : Assembly} {e : AsmError}
    (h : patch line d offset s = .error e t) :
    ¬ Reaches line.link d ∧ e = .outOfReach (line.target.getD "") d := by
  unfold patch at h
  obtain hnote | ⟨_, u, -, h⟩ := bind_eq_error h
  · cases hnote
  cases hk : line.link with
  | none =>
    simp only [hk] at h
    cases h
  | half =>
    simp only [hk] at h
    obtain ⟨hreach, rfl⟩ := refuse_eq_error h
    exact ⟨by unfold Reaches; omega, rfl⟩
  | byte =>
    simp only [hk] at h
    obtain ⟨hreach, rfl⟩ := refuse_eq_error h
    exact ⟨by unfold Reaches; omega, rfl⟩
  | word =>
    simp only [hk] at h
    obtain ⟨hreach, rfl⟩ := refuse_eq_error h
    exact ⟨by unfold Reaches; omega, rfl⟩
  | info =>
    simp only [hk] at h
    rw [bind_of_ok (infoWord_apply _ _)] at h
    cases h
  | absolute =>
    simp only [hk] at h
    rw [get_bind_apply, bind_of_ok (infoWord_apply _ _)] at h
    cases h

theorem patch_quiet (line : Line) (d : Int) (offset : UInt32) :
    Ensures Quiet (patch line d offset) := by
  intro s out t h
  obtain ⟨-, log, ⟨v, -, -, rfl⟩ | ⟨-, -, rfl⟩⟩ := patch_eq_ok h
  · exact (quiet_log s log).trans (quiet_pool _ (extends_packed s.pool v))
  · exact quiet_log s log

/-- What the target of a line can do to it. -/
inductive Aimed (line : Line) (kind : LinkKind) (word : String) (s : Assembly) :
    Line → Assembly → Prop
  | value {v : UInt32} (hkind : kind = .absolute) (hnumber : numberOf? word = some v) :
    Aimed line kind word s (withInfo { line with link := kind } (packed s.pool v).2)
      { s with pool := (packed s.pool v).1 }
  | distance {v : UInt32} {out : Line} {t : Assembly} (hkind : kind ≠ .absolute)
    (hnumber : numberOf? word = some v)
    (hpatch : patch { line with link := kind } v.toInt32.toInt 0 s = .ok out t) :
    Aimed line kind word s out t
  | constant {info : UInt32} {t : Assembly} (hkind : kind = .absolute)
    (hnumber : numberOf? word = none) (hinfo : operandInfo word s = .ok info t) :
    Aimed line kind word s (withInfo { line with link := kind } info) t
  | label (hnumber : numberOf? word = none) (hlabel : isLabel word = true) :
    Aimed line kind word s { line with link := kind, target := some word } s

theorem aimed_of_aim {line out : Line} {kind : LinkKind} {word : String} {s t : Assembly}
    (h : aim line kind word s = .ok out t) : Aimed line kind word s out t := by
  unfold aim at h
  cases hn : numberOf? word with
  | some v =>
    simp only [hn] at h
    split at h
    · rename_i hkind
      rw [bind_of_ok (infoWord_apply _ _)] at h
      obtain ⟨rfl, rfl⟩ := pure_eq_ok.mp h
      exact .value hkind hn
    · rename_i hkind
      exact .distance hkind hn h
  | none =>
    simp only [hn] at h
    split at h
    · rename_i hpool
      obtain ⟨info, u, hinfo, h⟩ := bind_eq_ok.mp h
      obtain ⟨rfl, rfl⟩ := pure_eq_ok.mp h
      exact .constant hpool.1 hn hinfo
    · split at h
      · rename_i hlabel
        obtain ⟨rfl, rfl⟩ := pure_eq_ok.mp h
        exact .label hn hlabel
      · exact (throw_eq_ok.mp h).elim

theorem Aimed.quiet {line out : Line} {kind : LinkKind} {word : String} {s t : Assembly}
    (h : Aimed line kind word s out t) : Quiet s t := by
  cases h with
  | value hkind hnumber => exact quiet_pool s (extends_packed s.pool _)
  | distance hkind hnumber hpatch => exact patch_quiet _ _ _ s out t hpatch
  | constant hkind hnumber hinfo => exact operandInfo_quiet word s _ t hinfo
  | label hnumber hlabel => exact .refl s

/-! ## Instructions -/

/-- The link with which the target of a form is patched in. -/
def linkOf : Form → LinkKind
  | .compareInfo => .half
  | .compareByte _ => .byte
  | .compareRegs => .info
  | .regInfo => .absolute
  | .distance => .word
  | _ => .none

/-- The operand that a form puts into the info word as a value. -/
def valueOperand? : Form → List String → Option String
  | .regs2Info, [_, _, value] => some value
  | .compareInfo, [_, value, _] => some value
  | .regInfo, [_, value] => some value
  | _, _ => none

theorem hasInfo_of_valueOperand? {form : Form} {operands : List String} {word : String}
    (h : valueOperand? form operands = some word) : hasInfo form = true := by
  cases form with
  | regs2Info => rfl
  | compareInfo => rfl
  | regInfo => rfl
  | _ => cases h

/-- What an instruction can be assembled to. Its registers are in its first word and matter only
to a load; `plain` has neither an info word nor a target, and `aimed` no value. -/
inductive Assembled (op : Opcode) (line : Line) (s : Assembly) :
    List String → Line → Assembly → Prop
  | plain {operands : List String} {w : UInt32} (hinfo : hasInfo op.form = false)
    (hw : Word.code w = op.code) : Assembled op line s operands { line with codes := [w] } s
  | valued {d src value : String} {w info : UInt32} {t : Assembly} (hform : op.form = .regs2Info)
    (hw : Word.code w = op.code) (hinfo : operandInfo value s = .ok info t) :
    Assembled op line s [d, src, value] { line with codes := [w, info] } t
  | compared {d value target : String} {w info : UInt32} {t u : Assembly} {out : Line}
    (hform : op.form = .compareInfo) (hw : Word.code w = op.code)
    (hinfo : operandInfo value s = .ok info t)
    (haim : Aimed { line with codes := [w, info] } .half target t out u) :
    Assembled op line s [d, value, target] out u
  | loaded {d target : String} {r : Reg} {out : Line} {t : Assembly} (hform : op.form = .regInfo)
    (hreg : Reg.ofName? d = some r)
    (haim : Aimed { line with codes := [Word.ofRegHalf op.code r 0, 0] } .absolute target s out t) :
    Assembled op line s [d, target] out t
  | aimed {operands : List String} {target : String} {w : UInt32} {rest : List UInt32}
    {out : Line} {t : Assembly} (hvalue : ∀ operands, valueOperand? op.form operands = none)
    (hlink : linkOf op.form ≠ .none) (hw : Word.code w = op.code)
    (hrest : rest.length = (hasInfo op.form).toNat)
    (haim : Aimed { line with codes := w :: rest } (linkOf op.form) target s out t) :
    Assembled op line s operands out t

theorem assembled_of_aim {op : Opcode} {form : Form} {line out : Line} {operands : List String}
    {target : String} {w : UInt32} {rest : List UInt32} {s t : Assembly} (hform : op.form = form)
    (hvalue : ∀ operands, valueOperand? form operands = none) (hlink : linkOf form ≠ .none)
    (hw : Word.code w = op.code) (hrest : rest.length = (hasInfo form).toNat)
    (h : aim { line with codes := w :: rest } (linkOf form) target s = .ok out t) :
    Assembled op line s operands out t := by
  subst hform
  exact .aimed hvalue hlink hw hrest (aimed_of_aim h)

theorem assembled_of_instruction {op : Opcode} {line out : Line} {operands : List String}
    {s t : Assembly} (h : instruction op line operands s = .ok out t) :
    Assembled op line s operands out t := by
  generalize hx : instruction op line operands = x at h
  unfold instruction at hx
  split at hx
  · rename_i hform
    subst hx
    obtain ⟨d, h⟩ := (register_reads _).bind_eq_ok h
    obtain ⟨r, h⟩ := (register_reads _).bind_eq_ok h
    obtain ⟨q, h⟩ := (register_reads _).bind_eq_ok h
    obtain ⟨rfl, rfl⟩ := pure_eq_ok.mp h
    exact .plain (by rw [hform]; rfl) (Fields.code_ofRegs _ _ _ _)
  · rename_i hform
    subst hx
    obtain ⟨d, h⟩ := (register_reads _).bind_eq_ok h
    obtain ⟨r, h⟩ := (register_reads _).bind_eq_ok h
    obtain ⟨rfl, rfl⟩ := pure_eq_ok.mp h
    exact .plain (by rw [hform]; rfl) (Fields.code_ofRegs _ _ _ _)
  · rename_i hform
    subst hx
    obtain ⟨d, h⟩ := (register_reads _).bind_eq_ok h
    obtain ⟨r, h⟩ := (register_reads _).bind_eq_ok h
    obtain ⟨b, h⟩ := (byteField_reads _ _).bind_eq_ok h
    obtain ⟨rfl, rfl⟩ := pure_eq_ok.mp h
    exact .plain (by rw [hform]; rfl) (Fields.code_ofRegsByte _ _ _ _)
  · rename_i hform
    subst hx
    obtain ⟨d, h⟩ := (register_reads _).bind_eq_ok h
    obtain ⟨r, h⟩ := (register_reads _).bind_eq_ok h
    obtain ⟨info, u, hinfo, h⟩ := bind_eq_ok.mp h
    obtain ⟨rfl, rfl⟩ := pure_eq_ok.mp h
    exact .valued hform (Fields.code_ofRegs _ _ _ _) hinfo
  · rename_i hform
    subst hx
    obtain ⟨d, h⟩ := (register_reads _).bind_eq_ok h
    obtain ⟨info, u, hinfo, h⟩ := bind_eq_ok.mp h
    exact .compared hform (Fields.code_ofRegs _ _ _ _) hinfo (aimed_of_aim h)
  · rename_i hform
    subst hx
    obtain ⟨d, h⟩ := (register_reads _).bind_eq_ok h
    obtain ⟨b, h⟩ := (byteField_reads _ _).bind_eq_ok h
    exact assembled_of_aim hform (fun _ => rfl) nofun (Fields.code_ofRegBytes _ _ _ _) rfl h
  · rename_i hform
    subst hx
    obtain ⟨d, h⟩ := (register_reads _).bind_eq_ok h
    obtain ⟨r, h⟩ := (register_reads _).bind_eq_ok h
    exact assembled_of_aim hform (fun _ => rfl) nofun (Fields.code_ofRegs _ _ _ _) rfl h
  · rename_i hform
    subst hx
    obtain ⟨d, h⟩ := (register_reads _).bind_eq_ok h
    obtain ⟨imm, h⟩ := (signedField_reads _ _).bind_eq_ok h
    obtain ⟨rfl, rfl⟩ := pure_eq_ok.mp h
    exact .plain (by rw [hform]; rfl) (Fields.code_ofRegHalf _ _ _)
  · rename_i hform
    subst hx
    obtain ⟨r, u, hreg, haim⟩ := bind_eq_ok.mp h
    obtain ⟨hname, rfl⟩ := register_eq_ok.mp hreg
    exact .loaded hform hname (aimed_of_aim haim)
  · rename_i hform
    subst hx
    obtain ⟨d, h⟩ := (register_reads _).bind_eq_ok h
    obtain ⟨rfl, rfl⟩ := pure_eq_ok.mp h
    exact .plain (by rw [hform]; rfl) (Fields.code_ofRegHalf _ _ _)
  · rename_i hform
    subst hx
    exact assembled_of_aim hform (fun _ => rfl) nofun (Fields.code_ofOffset24 _ _) rfl h
  · rename_i hform
    subst hx
    obtain ⟨d, h⟩ := (register_reads _).bind_eq_ok h
    obtain ⟨r, h⟩ := (register_reads _).bind_eq_ok h
    obtain ⟨rfl, rfl⟩ := pure_eq_ok.mp h
    exact .plain (by rw [hform]; rfl) (Fields.code_ofRegsByte _ _ _ _)
  · rename_i hform
    subst hx
    obtain ⟨d, h⟩ := (register_reads _).bind_eq_ok h
    obtain ⟨r, h⟩ := (register_reads _).bind_eq_ok h
    obtain ⟨b, h⟩ := (unsignedByte_reads _).bind_eq_ok h
    obtain ⟨rfl, rfl⟩ := pure_eq_ok.mp h
    exact .plain (by rw [hform]; rfl) (Fields.code_ofRegsByte _ _ _ _)
  · rename_i hform
    subst hx
    obtain ⟨rfl, rfl⟩ := pure_eq_ok.mp h
    exact .plain (by rw [hform]; rfl) (Fields.code_ofCode _)
  · subst hx
    exact (throw_eq_ok.mp h).elim

theorem Assembled.quiet {op : Opcode} {line out : Line} {operands : List String} {s t : Assembly}
    (h : Assembled op line s operands out t) : Quiet s t := by
  cases h with
  | plain hinfo hw => exact .refl s
  | valued hform hw hinfo => exact operandInfo_quiet _ s _ t hinfo
  | compared hform hw hinfo haim => exact (operandInfo_quiet _ s _ _ hinfo).trans haim.quiet
  | loaded hform hreg haim => exact haim.quiet
  | aimed hvalue hlink hw hrest haim => exact haim.quiet

/-! ## The words of a line -/

/-- The words are those of an instruction with this opcode, as many as it takes. -/
def Encodes (op : Opcode) (codes : List UInt32) : Prop :=
  ∃ w rest, codes = w :: rest ∧ Word.code w = op.code ∧ rest.length = (hasInfo op.form).toNat

@[simp]
theorem code_displaced (kind : LinkKind) (d : Int) (w : UInt32) :
    Word.code (displaced kind d w) = Word.code w := by
  cases kind <;> simp [displaced]

theorem Encodes.displaced {op : Opcode} {codes : List UInt32} (h : Encodes op codes)
    (kind : LinkKind) (d : Int) : Encodes op (codes.modifyHead (displaced kind d)) := by
  obtain ⟨w, rest, rfl, hw, hrest⟩ := h
  exact ⟨Lines.displaced kind d w, rest, rfl, by rw [code_displaced, hw], hrest⟩

theorem Encodes.set {op : Opcode} {codes : List UInt32} (h : Encodes op codes) (info : UInt32) :
    Encodes op (codes.set 1 info) := by
  obtain ⟨w, rest, rfl, hw, hrest⟩ := h
  exact ⟨w, rest.set 0 info, rfl, hw, by rw [List.length_set, hrest]⟩

theorem patch_encodes {op : Opcode} {line out : Line} {d : Int} {offset : UInt32}
    {s t : Assembly} (hp : patch line d offset s = .ok out t) (h : Encodes op line.codes) :
    Encodes op out.codes := by
  obtain ⟨-, log, ⟨v, -, hout, -⟩ | ⟨-, hout, -⟩⟩ := patch_eq_ok hp
  · rw [hout]
    exact h.set _
  · rw [hout]
    exact h.displaced line.link d

theorem Aimed.encodes {op : Opcode} {line out : Line} {kind : LinkKind} {word : String}
    {s t : Assembly} (h : Aimed line kind word s out t) (hcodes : Encodes op line.codes) :
    Encodes op out.codes := by
  cases h with
  | value hkind hnumber => exact hcodes.set _
  | distance hkind hnumber hpatch => exact patch_encodes hpatch hcodes
  | constant hkind hnumber hinfo => exact hcodes.set _
  | label hnumber hlabel => exact hcodes

theorem Assembled.encodes {op : Opcode} {line out : Line} {operands : List String}
    {s t : Assembly} (h : Assembled op line s operands out t) : Encodes op out.codes := by
  cases h with
  | plain hinfo hw => exact ⟨_, [], rfl, hw, by rw [hinfo]; rfl⟩
  | valued hform hw hinfo => exact ⟨_, [_], rfl, hw, by rw [hform]; rfl⟩
  | compared hform hw hinfo haim => exact haim.encodes ⟨_, [_], rfl, hw, by rw [hform]; rfl⟩
  | loaded hform hreg haim =>
    exact haim.encodes ⟨_, [_], rfl, Fields.code_ofRegHalf _ _ _, by rw [hform]; rfl⟩
  | aimed hvalue hlink hw hrest haim => exact haim.encodes ⟨_, _, rfl, hw, hrest⟩

/-! ## The place and the target of a line -/

/-- The two lines stand in the same place and are written in the same words. -/
structure SamePlace (line out : Line) : Prop where
  number : out.number = line.number
  pc : out.pc = line.pc
  words : out.words = line.words

theorem patch_samePlace {line out : Line} {d : Int} {offset : UInt32} {s t : Assembly}
    (h : patch line d offset s = .ok out t) :
    SamePlace line out ∧ out.target = line.target ∧ out.link = line.link := by
  obtain ⟨-, log, ⟨v, -, rfl, -⟩ | ⟨-, rfl, -⟩⟩ := patch_eq_ok h
  · exact ⟨⟨rfl, rfl, rfl⟩, rfl, rfl⟩
  · exact ⟨⟨rfl, rfl, rfl⟩, rfl, rfl⟩

theorem patch_length {line out : Line} {d : Int} {offset : UInt32} {s t : Assembly}
    (h : patch line d offset s = .ok out t) : out.codes.length = line.codes.length := by
  obtain ⟨-, log, ⟨v, -, rfl, -⟩ | ⟨-, rfl, -⟩⟩ := patch_eq_ok h
  · exact List.length_set
  · exact List.length_modifyHead

theorem Aimed.samePlace {line out : Line} {kind : LinkKind} {word : String} {s t : Assembly}
    (h : Aimed line kind word s out t) : SamePlace line out ∧ out.link = kind := by
  cases h with
  | value hkind hnumber => exact ⟨⟨rfl, rfl, rfl⟩, rfl⟩
  | distance hkind hnumber hpatch =>
    obtain ⟨hplace, -, hlink⟩ := patch_samePlace hpatch
    exact ⟨⟨hplace.number, hplace.pc, hplace.words⟩, hlink⟩
  | constant hkind hnumber hinfo => exact ⟨⟨rfl, rfl, rfl⟩, rfl⟩
  | label hnumber hlabel => exact ⟨⟨rfl, rfl, rfl⟩, rfl⟩

theorem Assembled.samePlace {op : Opcode} {line out : Line} {operands : List String}
    {s t : Assembly} (h : Assembled op line s operands out t) : SamePlace line out := by
  cases h with
  | plain hinfo hw => exact ⟨rfl, rfl, rfl⟩
  | valued hform hw hinfo => exact ⟨rfl, rfl, rfl⟩
  | compared hform hw hinfo haim =>
    exact ⟨haim.samePlace.1.number, haim.samePlace.1.pc, haim.samePlace.1.words⟩
  | loaded hform hreg haim =>
    exact ⟨haim.samePlace.1.number, haim.samePlace.1.pc, haim.samePlace.1.words⟩
  | aimed hvalue hlink hw hrest haim =>
    exact ⟨haim.samePlace.1.number, haim.samePlace.1.pc, haim.samePlace.1.words⟩

/-- A line waits for a label only in the form that its opcode has, and is linked accordingly. -/
theorem Assembled.linked {op : Opcode} {line out : Line} {operands : List String}
    {s t : Assembly} (h : Assembled op line s operands out t) (hfresh : line.target = none)
    {label : String} (hlabel : out.target = some label) :
    out.link = linkOf op.form ∧ linkOf op.form ≠ .none := by
  cases h with
  | plain hinfo hw => cases hfresh.symm.trans hlabel
  | valued hform hw hinfo => cases hfresh.symm.trans hlabel
  | compared hform hw hinfo haim =>
    rw [hform]
    exact ⟨haim.samePlace.2, nofun⟩
  | loaded hform hreg haim =>
    rw [hform]
    exact ⟨haim.samePlace.2, nofun⟩
  | aimed hvalue hlink hw hrest haim => exact ⟨haim.samePlace.2, hlink⟩

/-- A load that waits for a label names it after its register. -/
theorem Assembled.load {op : Opcode} {line out : Line} {operands : List String} {s t : Assembly}
    (h : Assembled op line s operands out t) (hfresh : line.target = none)
    (hform : op.form = .regInfo) {label : String} (hlabel : out.target = some label) :
    ∃ d r, operands = [d, label] ∧ Reg.ofName? d = some r ∧
      out.codes = [Word.ofRegHalf op.code r 0, 0] := by
  cases h with
  | plain hinfo hw => cases hfresh.symm.trans hlabel
  | valued hform' hw hinfo => cases hform.symm.trans hform'
  | compared hform' hw hinfo haim => cases hform.symm.trans hform'
  | loaded hform' hreg haim =>
    cases haim with
    | value hkind hnumber => cases hfresh.symm.trans hlabel
    | distance hkind hnumber hpatch => exact absurd rfl hkind
    | constant hkind hnumber hinfo => cases hfresh.symm.trans hlabel
    | label hnumber hword =>
      cases hlabel
      exact ⟨_, _, rfl, hreg, rfl⟩
  | aimed hvalue hlink hw hrest haim =>
    rw [hform] at hvalue
    cases hvalue ["", ""]

/-! ## The value operand of a line -/

/-- A distance in the first word leaves the info word alone. -/
theorem Aimed.codes_half {line out : Line} {word : String} {s t : Assembly} {w info : UInt32}
    (h : Aimed line .half word s out t) (hcodes : line.codes = [w, info]) :
    ∃ w', out.codes = [w', info] := by
  cases h with
  | value hkind hnumber => cases hkind
  | distance hkind hnumber hpatch =>
    obtain ⟨-, log, ⟨v, hv, -, -⟩ | ⟨-, hout, -⟩⟩ := patch_eq_ok hpatch
    · cases hv
    · rw [hout, withDistance, hcodes]
      exact ⟨_, rfl⟩
  | constant hkind hnumber hinfo => cases hkind
  | label hnumber hlabel => exact ⟨w, hcodes⟩

theorem Aimed.eq_of_number {line out : Line} {word : String} {s t : Assembly} {v : UInt32}
    (h : Aimed line .absolute word s out t) (hnumber : numberOf? word = some v) :
    out = withInfo { line with link := .absolute } (packed s.pool v).2 ∧
      t = { s with pool := (packed s.pool v).1 } := by
  cases h with
  | value hkind hn =>
    cases hn.symm.trans hnumber
    exact ⟨rfl, rfl⟩
  | distance hkind hn hpatch => exact absurd rfl hkind
  | constant hkind hn hinfo => cases hn.symm.trans hnumber
  | label hn hlabel => cases hn.symm.trans hnumber

/-- A number in the place of a value is packed, and nothing that is patched later touches it: a
line that still waits for a label waits for a distance in its first word. -/
theorem Assembled.packs {op : Opcode} {line out : Line} {operands : List String} {s t : Assembly}
    (h : Assembled op line s operands out t) (hfresh : line.target = none) {word : String}
    {v : UInt32} (hword : valueOperand? op.form operands = some word)
    (hnumber : numberOf? word = some v) :
    ∃ w, out.codes = [w, (packed s.pool v).2] ∧ Extends (packed s.pool v).1 t.pool ∧
      (out.target = none ∨ out.link = .half) := by
  cases h with
  | plain hinfo hw => cases hinfo.symm.trans (hasInfo_of_valueOperand? hword)
  | valued hform hw hinfo =>
    rw [hform] at hword
    cases hword
    rw [operandInfo_of_number hnumber, infoWord_apply] at hinfo
    cases hinfo
    exact ⟨_, rfl, .refl _, .inl hfresh⟩
  | compared hform hw hinfo haim =>
    rw [hform] at hword
    cases hword
    rw [operandInfo_of_number hnumber, infoWord_apply] at hinfo
    cases hinfo
    obtain ⟨w', hcodes⟩ := haim.codes_half rfl
    exact ⟨w', hcodes, haim.quiet.pool, .inr haim.samePlace.2⟩
  | loaded hform hreg haim =>
    rw [hform] at hword
    cases hword
    obtain ⟨rfl, rfl⟩ := haim.eq_of_number hnumber
    exact ⟨_, rfl, .refl _, .inl hfresh⟩
  | aimed hvalue hlink hw hrest haim => cases (hvalue _).symm.trans hword

/-! ## Whole lines -/

theorem numbers_reads (words : List String) : Reads (numbers words) := by
  induction words with
  | nil => exact .pure []
  | cons word words ih => exact (number_reads word).bind fun v => ih.bind fun vs => .pure (v :: vs)

theorem numbers_length {words : List String} {values : List UInt32} {s t : Assembly}
    (h : numbers words s = .ok values t) : values.length = words.length := by
  induction words generalizing values s t with
  | nil =>
    obtain ⟨rfl, -⟩ := pure_eq_ok.mp h
    rfl
  | cons word words ih =>
    obtain ⟨v, h⟩ := (number_reads word).bind_eq_ok h
    obtain ⟨rest, u, hrest, h⟩ := bind_eq_ok.mp h
    obtain ⟨rfl, -⟩ := pure_eq_ok.mp h
    rw [List.length_cons, List.length_cons, ih hrest]

/-- A line places numbers, at least one, or it is an instruction that its first word names. -/
theorem lineOf_eq_ok {line out : Line} {head : String} {operands : List String} {s t : Assembly}
    (h : lineOf line head operands s = .ok out t) :
    (head = wordDirective ∧ t = s ∧
      ∃ values, values ≠ [] ∧ out = { line with codes := values }) ∨
    (head ≠ wordDirective ∧ ∃ op, Opcode.ofMnemonic? head = some op ∧
      Assembled op line s operands out t) := by
  unfold lineOf at h
  split at h
  · rename_i hhead
    split at h
    · exact (throw_eq_ok.mp h).elim
    · rename_i hsome
      obtain ⟨values, u, hvalues, hout⟩ := bind_eq_ok.mp h
      obtain ⟨rfl, rfl⟩ := pure_eq_ok.mp hout
      have hsame := numbers_reads operands s values t hvalues
      refine .inl ⟨hhead, hsame, values, fun hnil => hsome ?_, rfl⟩
      rw [← List.length_eq_zero_iff, ← numbers_length hvalues, hnil, List.length_nil]
  · rename_i hhead
    cases hop : Opcode.ofMnemonic? head with
    | some op =>
      simp only [hop] at h
      exact .inr ⟨hhead, op, rfl, assembled_of_instruction h⟩
    | none =>
      simp only [hop] at h
      exact (throw_eq_ok.mp h).elim

theorem lineOf_quiet (line : Line) (head : String) (operands : List String) :
    Ensures Quiet (lineOf line head operands) := by
  intro s out t h
  obtain ⟨-, rfl, -⟩ | ⟨-, op, -, hop⟩ := lineOf_eq_ok h
  · exact .refl t
  · exact hop.quiet

theorem lineOf_samePlace {line out : Line} {head : String} {operands : List String}
    {s t : Assembly} (h : lineOf line head operands s = .ok out t) : SamePlace line out := by
  obtain ⟨-, -, values, -, rfl⟩ | ⟨-, op, -, hop⟩ := lineOf_eq_ok h
  · exact ⟨rfl, rfl, rfl⟩
  · exact hop.samePlace

/-- A line that is assembled has at least one word. -/
theorem lineOf_codes_ne_nil {line out : Line} {head : String} {operands : List String}
    {s t : Assembly} (h : lineOf line head operands s = .ok out t) : out.codes ≠ [] := by
  obtain ⟨-, -, values, hvalues, rfl⟩ | ⟨-, op, -, hop⟩ := lineOf_eq_ok h
  · exact hvalues
  · obtain ⟨w, rest, hcodes, -, -⟩ := hop.encodes
    rw [hcodes]
    exact List.cons_ne_nil w rest

end TaskMachine.Lines
