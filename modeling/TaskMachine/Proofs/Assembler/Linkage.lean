import Mathlib.Data.List.Forall2
import TaskMachine.Proofs.Assembler.Reading

/-!
# Where the lines of a program come from

Every line of an assembled program was made from its words in some assembly, and
then resolved in a later one that knew all labels. The pool of the program
extends the pools of both, so that whatever was packed on the way can still be
read. Resolving fails only at a line whose label is missing or out of reach.
-/

namespace TaskMachine.Linkage

open Stateful Constants Lines Reading Asm

/-! ## Reading the lines -/

/-- The line is what its words were assembled to, and the pool holds what was packed for it. -/
def Made (pool : Pool) (line : Line) : Prop :=
  ∃ head operands s t, line.words = head :: operands ∧
    lineOf { number := line.number, pc := line.pc, words := line.words } head operands s =
      .ok line t ∧
    Extends t.pool pool

theorem Made.extends {before after : Pool} {line : Line} (h : Made before line)
    (hpool : Extends before after) : Made after line := by
  obtain ⟨head, operands, s, t, hwords, hline, ht⟩ := h
  exact ⟨head, operands, s, t, hwords, hline, ht.trans hpool⟩

/-- The pool grows over the same origin, and lines go on being made. -/
structure Grows (s t : Assembly) : Prop where
  origin : t.origin = s.origin
  pool : Extends s.pool t.pool
  lines : (∀ line ∈ s.lines, Made s.pool line) → ∀ line ∈ t.lines, Made t.pool line

theorem Grows.of_same_lines {s t : Assembly} (horigin : t.origin = s.origin)
    (hlines : t.lines = s.lines) (hpool : Extends s.pool t.pool) : Grows s t where
  origin := horigin
  pool := hpool
  lines h line hline := (h line (hlines ▸ hline)).extends hpool

theorem Grows.trans {s t u : Assembly} (h : Grows s t) (k : Grows t u) : Grows s u where
  origin := k.origin.trans h.origin
  pool := h.pool.trans k.pool
  lines hs := k.lines (h.lines hs)

theorem grows_emit {s t : Assembly} {number : Nat} {head : String} {operands : List String}
    {pc : UInt32} {line : Line}
    (h : lineOf { number, pc, words := head :: operands } head operands s = .ok line t) :
    Grows s { t with lines := t.lines.push line } := by
  have hquiet := lineOf_quiet _ _ _ s line t h
  have hplace := lineOf_samePlace h
  refine ⟨hquiet.origin, hquiet.pool, fun hs l hl => ?_⟩
  rcases Array.mem_push.mp hl with hold | rfl
  · exact (hs l (hquiet.lines ▸ hold)).extends hquiet.pool
  · refine ⟨head, operands, s, t, hplace.words, ?_, .refl _⟩
    rw [hplace.number, hplace.pc, hplace.words]
    exact h

theorem stable_grows : Stable Grows where
  refl _ := .of_same_lines rfl rfl (.refl _)
  trans := .trans
  log _ _ := .of_same_lines rfl rfl (.refl _)
  equates _ _ := .of_same_lines rfl rfl (.refl _)
  macros _ _ := .of_same_lines rfl rfl (.refl _)
  pool s item := .of_same_lines rfl rfl (extends_intern s.pool item)
  label _ _ _ := .of_same_lines rfl rfl (.refl _)
  emit h := grows_emit h

/-! ## Resolving the labels -/

/-- Why a line cannot be linked. -/
inductive Unlinkable (labels : Table UInt32) (line : Line) : AsmError → Prop
  | missing {label : String} (htarget : line.target = some label)
    (hmissing : labels.find? label = none) : Unlinkable labels line (.labelMissing label)
  | far {label : String} {offset : UInt32} (htarget : line.target = some label)
    (hfound : labels.find? label = some offset)
    (hfar : ¬ Reaches line.link (offset.toNat - line.pc.toNat)) :
    Unlinkable labels line (.outOfReach label (offset.toNat - line.pc.toNat))

theorem resolve_eq_ok {line out : Line} {s t : Assembly} (h : resolve line s = .ok out t) :
    (line.target = none ∧ out = line ∧ t = s) ∨
    ∃ label offset, line.target = some label ∧ s.labels.find? label = some offset ∧
      patch line (offset.toNat - line.pc.toNat) offset s = .ok out t := by
  unfold resolve at h
  cases htarget : line.target with
  | none =>
    simp only [htarget] at h
    obtain ⟨rfl, rfl⟩ := pure_eq_ok.mp h
    exact .inl ⟨rfl, rfl, rfl⟩
  | some label =>
    simp only [htarget] at h
    rw [get_bind_apply] at h
    cases hfound : s.labels.find? label with
    | none =>
      simp only [hfound] at h
      exact (throw_eq_ok.mp h).elim
    | some offset =>
      simp only [hfound] at h
      exact .inr ⟨label, offset, rfl, hfound, h⟩

theorem resolve_eq_error {line : Line} {s t : Assembly} {e : AsmError}
    (h : resolve line s = .error e t) : Unlinkable s.labels line e := by
  unfold resolve at h
  cases htarget : line.target with
  | none =>
    simp only [htarget] at h
    cases h
  | some label =>
    simp only [htarget] at h
    rw [get_bind_apply] at h
    cases hfound : s.labels.find? label with
    | none =>
      simp only [hfound] at h
      cases h
      exact .missing htarget hfound
    | some offset =>
      simp only [hfound] at h
      obtain ⟨hfar, rfl⟩ := patch_eq_error h
      rw [htarget]
      exact .far htarget hfound hfar

theorem resolve_quiet (line : Line) : Ensures Quiet (resolve line) := by
  intro s out t h
  obtain ⟨-, -, rfl⟩ | ⟨label, offset, -, -, hpatch⟩ := resolve_eq_ok h
  · exact .refl t
  · exact patch_quiet line _ _ s out t hpatch

theorem resolve_samePlace {line out : Line} {s t : Assembly} (h : resolve line s = .ok out t) :
    SamePlace line out ∧ out.target = line.target ∧ out.link = line.link := by
  obtain ⟨-, rfl, -⟩ | ⟨label, offset, -, -, hpatch⟩ := resolve_eq_ok h
  · exact ⟨⟨rfl, rfl, rfl⟩, rfl, rfl⟩
  · exact patch_samePlace hpatch

theorem resolve_length {line out : Line} {s t : Assembly} (h : resolve line s = .ok out t) :
    out.codes.length = line.codes.length := by
  obtain ⟨-, rfl, -⟩ | ⟨label, offset, -, -, hpatch⟩ := resolve_eq_ok h
  · rfl
  · exact patch_length hpatch

theorem resolve_encodes {op : Opcode} {line out : Line} {s t : Assembly}
    (h : resolve line s = .ok out t) (hcodes : Encodes op line.codes) : Encodes op out.codes := by
  obtain ⟨-, rfl, -⟩ | ⟨label, offset, -, -, hpatch⟩ := resolve_eq_ok h
  · exact hcodes
  · exact patch_encodes hpatch hcodes

/-- A line that resolves is not one that cannot be linked. -/
theorem not_unlinkable {line out : Line} {s t : Assembly} (h : resolve line s = .ok out t)
    (e : AsmError) : ¬ Unlinkable s.labels line e := by
  intro hbad
  obtain ⟨hnone, -, -⟩ | ⟨label, offset, htarget, hfound, hpatch⟩ := resolve_eq_ok h
  · cases hbad with
    | missing htarget hmissing => cases hnone.symm.trans htarget
    | far htarget hfound hfar => cases hnone.symm.trans htarget
  · cases hbad with
    | missing htarget' hmissing =>
      cases htarget.symm.trans htarget'
      cases hfound.symm.trans hmissing
    | far htarget' hfound' hfar =>
      cases htarget.symm.trans htarget'
      cases hfound.symm.trans hfound'
      exact hfar (patch_eq_ok hpatch).1

/-- Where two lists are related item by item, an item of one has its partner in the other. -/
theorem exists_left_of_mem {α β : Type} {R : α → β → Prop} {as : List α} {bs : List β}
    (h : List.Forall₂ R as bs) {b : β} (hb : b ∈ bs) : ∃ a ∈ as, R a b := by
  induction h with
  | nil => cases hb
  | cons hr hrest ih =>
    rcases List.mem_cons.mp hb with rfl | hb
    · exact ⟨_, List.mem_cons_self, hr⟩
    · obtain ⟨a, ha, hr⟩ := ih hb
      exact ⟨a, List.mem_cons_of_mem _ ha, hr⟩

theorem exists_right_of_mem {α β : Type} {R : α → β → Prop} {as : List α} {bs : List β}
    (h : List.Forall₂ R as bs) {a : α} (ha : a ∈ as) : ∃ b ∈ bs, R a b :=
  exists_left_of_mem (R := fun b a => R a b) (List.Forall₂.flip h) ha

/-- The line became the other one in an assembly with the same labels and origin, and the pool
holds what was packed for it. -/
def Resolved (s : Assembly) (pool : Pool) (line out : Line) : Prop :=
  ∃ t u, t.labels = s.labels ∧ t.origin = s.origin ∧ Extends s.pool t.pool ∧
    resolve line t = .ok out u ∧ Extends u.pool pool

theorem Resolved.of_later {s t : Assembly} {pool : Pool} {line out : Line}
    (h : Resolved t pool line out) (hlabels : t.labels = s.labels) (horigin : t.origin = s.origin)
    (hpool : Extends s.pool t.pool) : Resolved s pool line out := by
  obtain ⟨u, w, hl, ho, hp, hresolve, hw⟩ := h
  exact ⟨u, w, hl.trans hlabels, ho.trans horigin, hpool.trans hp, hresolve, hw⟩

/-- Resolving replaces the lines from one index on, one after the other. -/
theorem resolveAll_eq_ok {rest done : List Line} {s t : Assembly} {u : Unit}
    (hlines : s.lines.toList = done ++ rest) (h : resolveAll done.length rest s = .ok u t) :
    t.labels = s.labels ∧ t.origin = s.origin ∧ Extends s.pool t.pool ∧
    ∃ outs, t.lines.toList = done ++ outs ∧ List.Forall₂ (Resolved s t.pool) rest outs := by
  induction rest generalizing done s with
  | nil =>
    obtain ⟨-, rfl⟩ := pure_eq_ok.mp h
    exact ⟨rfl, rfl, .refl _, [], hlines, .nil⟩
  | cons line rest ih =>
    obtain ⟨out, s₁, hout, h⟩ := bind_eq_ok.mp h
    have hout := wrapping_eq_ok hout
    have hquiet := resolve_quiet line s out s₁ hout
    obtain ⟨_, s₂, hset, h⟩ := bind_eq_ok.mp h
    have hset := modify_eq_ok.mp hset
    have hlines₂ : s₂.lines.toList = (done ++ [out]) ++ rest := by
      rw [hset, Array.toList_setIfInBounds, hquiet.lines, hlines,
        List.set_append_right _ _ (Nat.le_refl _), Nat.sub_self, List.append_assoc]
      rfl
    have hlabels₂ : s₂.labels = s.labels := by rw [hset]; exact hquiet.labels
    have horigin₂ : s₂.origin = s.origin := by rw [hset]; exact hquiet.origin
    have hpool₂ : Extends s.pool s₂.pool := by rw [hset]; exact hquiet.pool
    have hindex : done.length + 1 = (done ++ [out]).length := by rw [List.length_append]; rfl
    rw [hindex] at h
    obtain ⟨hlabels, horigin, hpool, outs, houts, hrest⟩ := ih hlines₂ h
    have hfirst : Resolved s t.pool line out :=
      ⟨s, s₁, rfl, rfl, .refl _, hout, by rw [hset] at hpool; exact hpool⟩
    refine ⟨hlabels.trans hlabels₂, horigin.trans horigin₂, hpool₂.trans hpool, out :: outs, ?_,
      .cons hfirst (hrest.imp fun _ _ hres => hres.of_later hlabels₂ horigin₂ hpool₂)⟩
    rw [houts, List.append_assoc]
    rfl

/-- Resolving fails at a line that cannot be linked, and says which one. -/
theorem resolveAll_eq_error {index : Nat} {rest : List Line} {s t : Assembly} {e : AsmError}
    (h : resolveAll index rest s = .error e t) :
    ∃ line ∈ rest, ∃ cause, Unlinkable s.labels line cause ∧
      e = .located line.number line.text cause := by
  induction rest generalizing index s with
  | nil => cases h
  | cons line rest ih =>
    obtain h | ⟨out, s₁, hout, h⟩ := bind_eq_error h
    · obtain ⟨cause, hcause, rfl⟩ := wrapping_eq_error h
      exact ⟨line, List.mem_cons_self, cause, resolve_eq_error hcause, rfl⟩
    · have hquiet := resolve_quiet line s out s₁ (wrapping_eq_ok hout)
      obtain h | ⟨_, s₂, hset, h⟩ := bind_eq_error h
      · cases h
      · have hset := modify_eq_ok.mp hset
        obtain ⟨l, hl, cause, hcause, he⟩ := ih h
        have hlabels : s₂.labels = s.labels := by rw [hset]; exact hquiet.labels
        exact ⟨l, List.mem_cons_of_mem _ hl, cause, hlabels ▸ hcause, he⟩

/-! ## Whole programs -/

section

variable [Interpreter]

/-- What becomes of a source that is read to its end is decided by its labels. -/
theorem parse_of_read {a : Assembler} {text : String} {s : Assembly}
    (hread : takeLines 1 "" none (Text.readLines text.toList) a.start = .ok () s) :
    (a.parse text).2 =
      match resolveAll 0 s.lines.toList s with
      | .ok _ t => .ok { origin := t.origin, lines := t.lines, pool := t.pool, labels := t.labels }
      | .error e _ => .error e := by
  unfold Assembler.parse source
  rw [bind_of_ok hread, get_bind_apply]
  cases h : resolveAll 0 s.lines.toList s with
  | ok u t =>
    rw [bind_of_ok h]
    rfl
  | error e t => rw [bind_of_error h]

/-- A source that is accepted is read to its end and then resolved. -/
theorem parse_eq_ok {a : Assembler} {text : String} {p : Program}
    (h : (a.parse text).2 = .ok p) :
    ∃ s t, takeLines 1 "" none (Text.readLines text.toList) a.start = .ok () s ∧
      resolveAll 0 s.lines.toList s = .ok () t ∧
      p = { origin := t.origin, lines := t.lines, pool := t.pool, labels := t.labels } := by
  cases hread : takeLines 1 "" none (Text.readLines text.toList) a.start with
  | ok u s =>
    rw [parse_of_read hread] at h
    cases hresolve : resolveAll 0 s.lines.toList s with
    | ok u t =>
      rw [hresolve] at h
      cases h
      exact ⟨s, t, rfl, hresolve, rfl⟩
    | error e t =>
      rw [hresolve] at h
      cases h
  | error e s =>
    unfold Assembler.parse source at h
    rw [bind_of_error hread] at h
    cases h

theorem origin_of_parse {a : Assembler} {text : String} {p : Program}
    (h : (a.parse text).2 = .ok p) : p.origin = a.origin := by
  obtain ⟨s, t, hread, hresolve, rfl⟩ := parse_eq_ok h
  have hgrows := stable_grows.takeLines 1 "" none _ a.start () s hread
  obtain ⟨-, horigin, -⟩ := resolveAll_eq_ok (List.nil_append s.lines.toList).symm hresolve
  exact horigin.trans hgrows.origin

/-- Every line of a program was made from its words and then resolved, with the labels and the
origin of the program, and the program's pool holds all that was packed for it. -/
theorem line_of_parse {a : Assembler} {text : String} {p : Program}
    (h : (a.parse text).2 = .ok p) {out : Line} (hout : out ∈ p.lines) :
    ∃ line t u, Made p.pool line ∧ resolve line t = .ok out u ∧ t.labels = p.labels ∧
      t.origin = p.origin ∧ Extends u.pool p.pool := by
  obtain ⟨s, t, hread, hresolve, rfl⟩ := parse_eq_ok h
  have hgrows := stable_grows.takeLines 1 "" none _ a.start () s hread
  have hmade := hgrows.lines nofun
  obtain ⟨hlabels, horigin, hpool, outs, houts, hfrom⟩ :=
    resolveAll_eq_ok (List.nil_append s.lines.toList).symm hresolve
  have hmem : out ∈ outs := by
    rw [List.nil_append] at houts
    rw [← houts]
    exact Array.mem_toList_iff.mpr hout
  obtain ⟨line, hline, t₁, u₁, hl, ho, -, hres, hu⟩ := exists_left_of_mem hfrom hmem
  refine ⟨line, t₁, u₁, ?_, hres, hl.trans hlabels.symm, ho.trans horigin.symm, hu⟩
  exact (hmade line (Array.mem_toList_iff.mp hline)).extends hpool

end

/-- An instruction of a program: how its operands were assembled, and how it was resolved. -/
structure Provenance (p : Program) (op : Opcode) (operands : List String) (out : Line) where
  line : Line
  (before assembled linking resolved : Assembly)
  isAssembled : Assembled op { number := out.number, pc := out.pc, words := out.words } before
    operands line assembled
  isResolved : resolve line linking = .ok out resolved
  labels : linking.labels = p.labels
  origin : linking.origin = p.origin
  assembledPool : Extends assembled.pool p.pool
  resolvedPool : Extends resolved.pool p.pool

/-- Every line of a program places numbers and waits for no label, or is an instruction. -/
theorem provenance_of_parse [Interpreter] {a : Assembler} {text : String} {p : Program}
    (h : (a.parse text).2 = .ok p) {out : Line} (hout : out ∈ p.lines) :
    ∃ head operands, out.words = head :: operands ∧
      ((head = wordDirective ∧ out.target = none) ∨
        (head ≠ wordDirective ∧ ∃ op, Opcode.ofMnemonic? head = some op ∧
          Nonempty (Provenance p op operands out))) := by
  obtain ⟨line, t, u, ⟨head, operands, s, s', hwords, hline, hmade⟩, hres, hl, ho, hu⟩ :=
    line_of_parse h hout
  obtain ⟨⟨hnumber, hpc, hsame⟩, htarget, -⟩ := resolve_samePlace hres
  refine ⟨head, operands, hsame.trans hwords, ?_⟩
  obtain ⟨hword, -, values, -, heq⟩ | ⟨hhead, op, hop, hassembled⟩ := lineOf_eq_ok hline
  · exact .inl ⟨hword, htarget.trans (congrArg Line.target heq)⟩
  · rw [← hnumber, ← hpc, ← hsame] at hassembled
    exact .inr ⟨hhead, op, hop, ⟨line, s, s', t, u, hassembled, hres, hl, ho, hmade, hu⟩⟩

theorem Provenance.encodes {p : Program} {op : Opcode} {operands : List String} {out : Line}
    (h : Provenance p op operands out) : Encodes op out.codes :=
  resolve_encodes h.isResolved h.isAssembled.encodes

/-- An instruction that waits for a label was patched with the distance from it to the label. -/
theorem Provenance.patched {p : Program} {op : Opcode} {operands : List String} {out : Line}
    (h : Provenance p op operands out) {label : String} (hlabel : out.target = some label) :
    ∃ offset, p.labels.find? label = some offset ∧ h.line.target = some label ∧
      h.line.link = linkOf op.form ∧ linkOf op.form ≠ .none ∧
      patch h.line (offset.toNat - out.pc.toNat) offset h.linking = .ok out h.resolved := by
  obtain ⟨hplace, htarget, -⟩ := resolve_samePlace h.isResolved
  have hwaits : h.line.target = some label := htarget.symm.trans hlabel
  obtain ⟨hlink, hsome⟩ := h.isAssembled.linked rfl hwaits
  obtain ⟨hnone, -, -⟩ | ⟨label', offset, hlabel', hfind, hpatch⟩ := resolve_eq_ok h.isResolved
  · cases hnone.symm.trans hwaits
  · cases hwaits.symm.trans hlabel'
    rw [← hplace.pc] at hpatch
    exact ⟨offset, h.labels ▸ hfind, hwaits, hlink, hsome, hpatch⟩

end TaskMachine.Linkage
