import TaskMachine.Expr.Script
import TaskMachine.Proofs.Assembler.Agreement
import TaskMachine.Proofs.Assembler.Linkage

/-!
# Labels are linked correctly

A line that waits for a label is patched with the distance to the label or with
its address, in one of five fields. The machine that executes the patched line
from its place in the image finds exactly that distance or address there, so a
jump or a taken branch arrives at the label and a load of the label gives its
address. Linking fails only where a label is missing or its distance does not
fit the field.
-/

namespace TaskMachine.Linking

open Stateful Constants Effects Counter Lines Agreement Linkage

/-- The words of the program lie in memory at its origin. -/
def InMemory (p : Program) (mem : Memory) : Prop := Holds mem p.codes

theorem InMemory.placed {p : Program} {mem : Memory} (h : InMemory p mem) {line : Line}
    (hline : line ∈ p.lines) : Placed line.codes mem (p.origin + line.pc) := by
  intro entry hentry
  apply h entry
  exact List.mem_flatMap.mpr ⟨line, Array.mem_toList_iff.mpr hline, hentry⟩

/-! ## Fields and decoders -/

theorem distance_half {d : Int} (h : Reaches .half d) (pool : Option Pool) (w info : UInt32)
    (c : Condition) :
    distance? pool (displaced .half d w) info (.branchInfo c) = some (UInt32.ofInt d) := by
  unfold distance? displaced
  rw [Fields.half_withHalf, Fields.signExtend16_ofInt d h.1 h.2]

theorem distance_byte {d : Int} (h : Reaches .byte d) (pool : Option Pool) (w info : UInt32)
    (c : Condition) (s : Bool) :
    distance? pool (displaced .byte d w) info (.branchByte c s) = some (UInt32.ofInt d) := by
  obtain ⟨hmod, hlo, hhi⟩ := h
  unfold distance? displaced
  rw [Fields.laneC_withLaneC, Fields.signExtend8_mul_four hmod hlo hhi]

theorem offset_word {d : Int} (h : Reaches .word d) (w : UInt32) :
    (Word.offset24 (displaced .word d w)).toUInt32 = UInt32.ofInt d :=
  Fields.offset24_ofOffset24 (Word.code w) d h.1 h.2

/-- What a patch has put into a line is what the machine will find there: the distance, or for a
load the address. -/
theorem patch_found {op : Opcode} {line out : Line} {d : Int} {offset : UInt32} {s t : Assembly}
    {pool : Pool} (hcodes : Encodes op line.codes) (htargets : Targets line.link op)
    (h : Asm.patch line d offset s = .ok out t) (hpool : Extends t.pool pool)
    (hsize : pool.items.size < 2 ^ 31) :
    ∃ w rest, out.codes = w :: rest ∧
      (distance? (some pool) w (infoOf out.codes) op.action = some (UInt32.ofInt d) ∨
        (op = .ldi ∧ value? (some pool) (infoOf out.codes) = some (s.origin + offset))) := by
  obtain ⟨hreach, log, hcase⟩ := patch_eq_ok h
  obtain ⟨w, rest, hw, -, hrest⟩ := hcodes
  rw [← takesInfo_action] at hrest
  -- A packed value sits in the only word after the first and is found in the grown pool.
  have hpacked (v : UInt32) (hinfo : takesInfo op.action = true)
      (hout : out = withInfo line (packed s.pool v).2)
      (ht : t = { s with log := log, pool := (packed s.pool v).1 }) :
      ∃ rest, out.codes = w :: rest ∧ value? (some pool) (infoOf out.codes) = some v := by
    rw [hinfo] at hrest
    obtain ⟨old, rfl⟩ := List.length_eq_one_iff.mp hrest
    have hnew : out.codes = [w, (packed s.pool v).2] := by rw [hout, withInfo, hw]; rfl
    have hgrown : Extends (packed s.pool v).1 pool := by rw [ht] at hpool; exact hpool
    refine ⟨_, hnew, ?_⟩
    rw [hnew]
    exact value?_packed hgrown (.of_size hsize v)
  generalize hk : line.link = kind at htargets
  rw [hk] at hreach hcase
  have hdisplaced (hout : out = withDistance line d) : out.codes = displaced kind d w :: rest := by
    rw [hout, withDistance, hw, hk]
    rfl
  cases htargets with
  | half c haction =>
    obtain ⟨v, hv, -, -⟩ | ⟨-, hout, -⟩ := hcase
    · cases hv
    · exact ⟨_, rest, hdisplaced hout, .inl (by rw [haction, distance_half hreach])⟩
  | byte c signed haction =>
    obtain ⟨v, hv, -, -⟩ | ⟨-, hout, -⟩ := hcase
    · cases hv
    · exact ⟨_, rest, hdisplaced hout, .inl (by rw [haction, distance_byte hreach])⟩
  | info c haction =>
    obtain ⟨v, hv, hout, ht⟩ | ⟨hv, -, -⟩ := hcase
    · cases hv
      obtain ⟨rest', hout', hvalue⟩ := hpacked _ (by rw [haction]; rfl) hout ht
      exact ⟨w, rest', hout', .inl (by rw [haction]; exact hvalue)⟩
    · cases hv
  | jump =>
    obtain ⟨v, hv, -, -⟩ | ⟨-, hout, -⟩ := hcase
    · cases hv
    · exact ⟨_, rest, hdisplaced hout, .inl (congrArg some (offset_word hreach w))⟩
  | call =>
    obtain ⟨v, hv, -, -⟩ | ⟨-, hout, -⟩ := hcase
    · cases hv
    · exact ⟨_, rest, hdisplaced hout, .inl (congrArg some (offset_word hreach w))⟩
  | absolute =>
    obtain ⟨v, hv, hout, ht⟩ | ⟨hv, -, -⟩ := hcase
    · cases hv
      obtain ⟨rest', hout', hvalue⟩ := hpacked _ rfl hout ht
      exact ⟨w, rest', hout', .inr ⟨rfl, hvalue⟩⟩
    · cases hv

/-! ## Executing a linked line -/

theorem suspension_of_distance {pool : Option Pool} {w info d : UInt32} {a : Action}
    (h : distance? pool w info a = some d) : a.suspension = none := by
  cases a with
  | kill => cases h
  | sleep => cases h
  | _ => rfl

/-- A taken branch or a jump leads from its own address by the distance in its words. -/
theorem step_taken {pool : Option Pool} {op : Opcode} {w d : UInt32} {rest : List UInt32}
    {m : Machine} (hcodes : Encodes op (w :: rest)) (hplaced : Placed (w :: rest) m.mem m.pc)
    (hd : distance? pool w (infoOf (w :: rest)) op.action = some d)
    (htaken : taken pool w (infoOf (w :: rest)) (past m).regs op.action = true) :
    ∃ m', Machine.step pool m = .ok none m' ∧ m'.pc = m.pc + d := by
  rw [past_regs, ← enter_regs m m.pc w op.action] at htaken
  obtain ⟨m', hperform, hpc⟩ := perform_taken (hplaced.enter_info hcodes) htaken hd
  refine ⟨{ m' with ran := m'.ran + 1 }, ?_, ?_⟩
  · rw [step_of_encodes hcodes hplaced, hperform, suspension_of_distance hd]
  · change m'.pc = _
    rw [hpc, pc_enter, UInt32.add_sub_cancel]

/-- A load of an info word puts the word's value into its register. -/
theorem step_loadInfo {pool : Option Pool} {w v : UInt32} {rest : List UInt32} {m : Machine}
    (hcodes : Encodes .ldi (w :: rest)) (hplaced : Placed (w :: rest) m.mem m.pc)
    (hvalue : value? pool (infoOf (w :: rest)) = some v) :
    ∃ m', Machine.step pool m = .ok none m' ∧ m'.regs.get (Word.regA w) = v := by
  have hperform :=
    perform_of_value w (hplaced.enter_info hcodes rfl) hvalue (a := Opcode.ldi.action) rfl
  refine ⟨_, by rw [step_of_encodes hcodes hplaced, hperform]; rfl, ?_⟩
  exact get_put_self _ (Word.regA w) v

/-! ## Whole programs -/

/-- The executed line arrives at the offset of its label, or loads the address of it. -/
def LeadsTo (p : Program) (line : Line) (op : Opcode) (w offset : UInt32) (m : Machine) : Prop :=
  (op = .jpl ∨ op = .calll ∨
      taken (some p.pool) w (infoOf line.codes) (past m).regs op.action = true →
    ∃ m', m.step (some p.pool) = .ok none m' ∧ m'.pc = p.origin + offset) ∧
  (op = .ldi →
    ∃ m', m.step (some p.pool) = .ok none m' ∧ m'.regs.get (Word.regA w) = p.origin + offset)

theorem leadsTo_of_found {p : Program} {line : Line} {op : Opcode} {w offset : UInt32}
    {rest : List UInt32} {m : Machine} (hcodes : Encodes op line.codes)
    (hw : line.codes = w :: rest) (hplaced : Placed line.codes m.mem m.pc)
    (hpc : m.pc = p.origin + line.pc)
    (hfound : distance? (some p.pool) w (infoOf line.codes) op.action =
        some (UInt32.ofInt (offset.toNat - line.pc.toNat)) ∨
      (op = .ldi ∧ value? (some p.pool) (infoOf line.codes) = some (p.origin + offset))) :
    LeadsTo p line op w offset m := by
  rw [hw] at hcodes hplaced hfound
  rw [LeadsTo, hw]
  constructor
  · intro hgoes
    have htaken : taken (some p.pool) w (infoOf (w :: rest)) (past m).regs op.action = true := by
      rcases hgoes with rfl | rfl | htaken
      · rfl
      · rfl
      · exact htaken
    rcases hfound with hd | ⟨rfl, -⟩
    · obtain ⟨m', hstep, hpc'⟩ := step_taken hcodes hplaced hd htaken
      exact ⟨m', hstep, by rw [hpc', hpc, Fields.add_distance]⟩
    · cases htaken
  · rintro rfl
    rcases hfound with hd | ⟨-, hvalue⟩
    · cases hd
    · exact step_loadInfo hcodes hplaced hvalue

/-- The line loads the label into the register of its first word, by the name of that register. -/
def LoadsInto (line : Line) (label : String) (w : UInt32) : Prop :=
  ∃ d, line.words = ["ldi", d, label] ∧ Reg.ofName? d = some (Word.regA w)

theorem loadsInto_of_provenance {p : Program} {operands : List String} {line : Line}
    {label : String} {w : UInt32} {rest : List UInt32} (h : Provenance p .ldi operands line)
    (hwords : line.words = "ldi" :: operands) (hlabel : line.target = some label)
    (hw : line.codes = w :: rest) : LoadsInto line label w := by
  obtain ⟨offset, -, hwaits, hlink, -, hpatch⟩ := h.patched hlabel
  obtain ⟨d, r, hoperands, hreg, hcodes⟩ := h.isAssembled.load rfl rfl hwaits
  obtain ⟨-, log, ⟨v, -, hout, -⟩ | ⟨hnone, -, -⟩⟩ := patch_eq_ok hpatch
  · have hset : line.codes = h.line.codes.set 1 (packed h.linking.pool v).2 :=
      congrArg Line.codes hout
    rw [hw, hcodes] at hset
    cases hset
    exact ⟨d, by rw [hwords, hoperands], by rw [Fields.regA_ofRegHalf, hreg]⟩
  · rw [hlink] at hnone
    cases hnone

section

variable [Interpreter]

/-- A line of a program that waits for a label leads to it. -/
theorem leadsTo_label {a : Assembler} {text : String} {p : Program}
    (hparse : (a.parse text).2 = .ok p) (hsize : p.pool.items.size < 2 ^ 31) {line : Line}
    (hline : line ∈ p.lines) {label : String} (hlabel : line.target = some label) :
    ∃ offset op w rest, p.labels.find? label = some offset ∧ line.codes = w :: rest ∧
      Opcode.ofCode? (Word.code w) = some op ∧
      (op = .ldi ∨ op = .jpl ∨ op = .calll ∨ conditional op.action = true) ∧
      (op = .ldi → LoadsInto line label w) ∧
      ∀ m : Machine, InMemory p m.mem → m.pc = p.origin + line.pc →
        LeadsTo p line op w offset m := by
  obtain ⟨head, operands, hwords, ⟨-, hnone⟩ | ⟨-, op, hhead, ⟨made⟩⟩⟩ :=
    provenance_of_parse hparse hline
  · cases hnone.symm.trans hlabel
  obtain ⟨offset, hfind, -, hlink, hsome, hpatch⟩ := made.patched hlabel
  have htargets : Targets made.line.link op := hlink ▸ targets_of_link op hsome
  obtain ⟨w, rest, hw, hfound⟩ :=
    patch_found made.isAssembled.encodes htargets hpatch made.resolvedPool hsize
  rw [made.origin] at hfound
  refine ⟨offset, op, w, rest, hfind, hw, ?_, htargets.opcode, ?_, ?_⟩
  · obtain ⟨w', rest', hw', hcode, -⟩ := made.encodes
    cases hw.symm.trans hw'
    rw [hcode, ofCode?_code]
  · rintro rfl
    rw [← mnemonic_of_ofMnemonic? hhead] at hwords
    exact loadsInto_of_provenance made hwords hlabel hw
  · intro m hmem hpc
    exact leadsTo_of_found made.encodes hw (hpc ▸ hmem.placed hline) hpc hfound

/-- Once a source has been read, an error is one of a line that cannot be linked. -/
theorem unlinkable_of_error {a : Assembler} {text : String} {s : Assembly}
    (hread : Asm.takeLines 1 "" none (Text.readLines text.toList) a.start = .ok () s)
    {e : AsmError} (h : (a.parse text).2 = .error e) :
    ∃ line ∈ s.lines, ∃ cause, Unlinkable s.labels line cause ∧
      e = .located line.number line.text cause := by
  rw [parse_of_read hread] at h
  split at h
  · cases h
  · rename_i e' t hresolve
    cases h
    obtain ⟨line, hline, cause, hbad, heq⟩ := resolveAll_eq_error hresolve
    exact ⟨line, Array.mem_toList_iff.mp hline, cause, hbad, heq⟩

theorem error_of_unlinkable {a : Assembler} {text : String} {s : Assembly}
    (hread : Asm.takeLines 1 "" none (Text.readLines text.toList) a.start = .ok () s)
    {line : Line} (hline : line ∈ s.lines) {cause : AsmError}
    (hbad : Unlinkable s.labels line cause) : ∃ e, (a.parse text).2 = .error e := by
  cases hp : (a.parse text).2 with
  | error e => exact ⟨e, rfl⟩
  | ok p =>
    obtain ⟨s', t, hread', hresolve, -⟩ := parse_eq_ok hp
    cases hread.symm.trans hread'
    obtain ⟨-, -, -, outs, -, hresolved⟩ :=
      resolveAll_eq_ok (List.nil_append s.lines.toList).symm hresolve
    obtain ⟨out, -, t₁, u₁, hlabels, -, -, hout, -⟩ :=
      exists_right_of_mem hresolved (Array.mem_toList_iff.mpr hline)
    exact absurd (hlabels ▸ hbad) (not_unlinkable hout cause)

/-- In every program that a source is assembled to, a line that waits for a label leads to it; and
a source that was read to its end fails exactly when some line waits for a label that is missing
or out of its reach, and then with the error of such a line. -/
theorem labels_linked (a : Assembler) (text : String) :
    (∀ p, (a.parse text).2 = .ok p → p.pool.items.size < 2 ^ 31 →
      ∀ line ∈ p.lines, ∀ label, line.target = some label →
        ∃ offset op w rest, p.labels.find? label = some offset ∧ line.codes = w :: rest ∧
          Opcode.ofCode? (Word.code w) = some op ∧
          (op = .ldi ∨ op = .jpl ∨ op = .calll ∨ conditional op.action = true) ∧
          (op = .ldi → LoadsInto line label w) ∧
          ∀ m : Machine, InMemory p m.mem → m.pc = p.origin + line.pc →
            LeadsTo p line op w offset m) ∧
    ∀ s, Asm.takeLines 1 "" none (Text.readLines text.toList) a.start = .ok () s →
      ((∃ e, (a.parse text).2 = .error e) ↔
        ∃ line ∈ s.lines, ∃ cause, Unlinkable s.labels line cause) ∧
      ∀ e, (a.parse text).2 = .error e →
        ∃ line ∈ s.lines, ∃ cause, Unlinkable s.labels line cause ∧
          e = .located line.number line.text cause := by
  constructor
  · intro p hparse hsize line hline label hlabel
    exact leadsTo_label hparse hsize hline hlabel
  · intro s hread
    refine ⟨⟨?_, ?_⟩, fun e he => unlinkable_of_error hread he⟩
    · rintro ⟨e, he⟩
      obtain ⟨line, hline, cause, hbad, -⟩ := unlinkable_of_error hread he
      exact ⟨line, hline, cause, hbad⟩
    · rintro ⟨line, hline, cause, hbad⟩
      exact error_of_unlinkable hread hline hbad

end

/-- A load of a label with a jump back over it. -/
def backSource : String := "top: ldi s0 top\njpl top"

def backJump : Line where
  number := 2
  pc := 8
  words := ["jpl", "top"]
  codes := [0xfffff85b]
  target := some "top"
  link := .word

def backLoad : Line where
  number := 1
  pc := 0
  words := ["ldi", "s0", "top"]
  codes := [0x105a, 0x80000100]
  target := some "top"
  link := .absolute

def backProgram : Program where
  origin := 0x100
  lines := #[backLoad, backJump]
  labels := ⟨[("top", 0)]⟩

def backMemory : Memory :=
  ⟨0x100, 12, #[(backProgram.image.flatMap Memory.wordBytes).toArray], by decide⟩

/-- A machine with the program in its memory. -/
def backMachine (pc : UInt32) : Machine where
  regs := Registers.zeroed.put Reg.pc pc
  mem := backMemory

/-- The jump goes to the label above it, the load puts its address into the register, and a jump
to a label that is nowhere is an error of the line it stands on. -/
theorem labels_linked_back :
    ((({ origin := 0x100 } : Assembler).parse backSource).2 = .ok backProgram ∧
      (∃ m', (backMachine 0x108).step (some backProgram.pool) = .ok none m' ∧ m'.pc = 0x100) ∧
      ∃ m' r, (backMachine 0x100).step (some backProgram.pool) = .ok none m' ∧
        Reg.ofName? "s0" = some r ∧ m'.regs.get r = 0x100) ∧
    ∃ s, Asm.takeLines 1 "" none (Text.readLines "jpl nowhere".toList) ({} : Assembler).start =
        .ok () s ∧
      ∃ line ∈ s.lines, ∃ cause, Unlinkable s.labels line cause := by
  constructor
  · have hparse : (({ origin := 0x100 } : Assembler).parse backSource).2 = .ok backProgram := by
      decide +kernel
    have hmem : InMemory backProgram backMemory := holds_of_all (by decide +kernel)
    refine ⟨hparse, ?_, ?_⟩
    · obtain ⟨offset, op, w, rest, hfind, hcodes, hop, -, -, hleads⟩ :=
        (labels_linked _ _).1 _ hparse (by decide) backJump (by decide +kernel) "top" rfl
      cases hfind
      cases hcodes
      have hjump : op = .jpl := Option.some.inj (hop.symm.trans (by decide +kernel))
      exact (hleads (backMachine 0x108) hmem (by decide +kernel)).1 (.inl hjump)
    · obtain ⟨offset, op, w, rest, hfind, hcodes, hop, -, hinto, hleads⟩ :=
        (labels_linked _ _).1 _ hparse (by decide) backLoad (by decide +kernel) "top" rfl
      cases hfind
      cases hcodes
      have hload : op = .ldi := Option.some.inj (hop.symm.trans (by decide +kernel))
      obtain ⟨d, hwords, hreg⟩ := hinto hload
      cases hwords
      obtain ⟨m', hstep, hget⟩ := (hleads (backMachine 0x100) hmem (by decide +kernel)).2 hload
      exact ⟨m', _, hstep, hreg, hget⟩
  · have hok : isOk (Asm.takeLines 1 "" none (Text.readLines "jpl nowhere".toList)
        ({} : Assembler).start) = true := by
      decide +kernel
    obtain ⟨_, s, hread⟩ := eq_ok_of_isOk hok
    obtain ⟨line, hline, cause, hbad, -⟩ := ((labels_linked _ _).2 s hread).2
      (.located 1 "jpl nowhere" (.labelMissing "nowhere")) (by decide +kernel)
    exact ⟨s, hread, line, hline, cause, hbad⟩

end TaskMachine.Linking
