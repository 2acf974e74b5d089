import TaskMachine.Assembler.Source
import TaskMachine.Expr.Script
import TaskMachine.Proofs.Stateful
import TaskMachine.Proofs.Tables

/-!
# An assembler does not remember the sources before

Every source starts from the settings of its assembler, whatever the sources
before it left there, and however they ended. Of the settings the origin and the
values of the predefined equates count: not in which order the equates were
defined, and not whether the assembler keeps a log, since nothing that is done to
a source looks at the log.
-/

namespace TaskMachine.History

open Stateful Asm Tables

/-- The assembly without its log. -/
def silenced (s : Assembly) : Assembly := { s with log := {} }

/-! ## The log is not looked at -/

theorem commutes_note (line : Unit → String) : Commutes silenced (note line) :=
  .modify fun _ => rfl

theorem commutes_setEquate (name value : String) : Commutes silenced (setEquate name value) :=
  .modify fun _ => rfl

theorem commutes_equate? (name : String) : Commutes silenced (equate? name) :=
  .get_bind (fun _ => rfl) fun _ => .pure _

theorem commutes_currentPc : Commutes silenced currentPc :=
  .get_bind (fun _ => rfl) fun _ => .pure _

theorem commutes_intern (item : PoolItem) : Commutes silenced (intern item) :=
  .get_bind (fun _ => rfl) fun _ => .bind (.modify fun _ => rfl) fun _ => .pure _

theorem commutes_wrapping {α : Type} {work : Asm α} (wrap : AsmError → AsmError)
    (h : Commutes silenced work) : Commutes silenced (wrapping wrap work) := by
  intro s
  unfold wrapping
  rw [h s]
  cases work s with
  | ok a t => rfl
  | error e t => rfl

theorem commutes_withScope {α : Type} {work : Asm α} (h : Commutes silenced work) :
    Commutes silenced (withScope work) := by
  intro s
  unfold withScope
  rw [h s]
  cases work s with
  | ok a t => rfl
  | error e t => rfl

/-! ## Operands -/

theorem commutes_number (word : String) : Commutes silenced (number word) := by
  unfold number
  split
  · exact .pure _
  · exact .throw _

theorem commutes_numbers (words : List String) : Commutes silenced (numbers words) := by
  induction words with
  | nil => exact .pure _
  | cons word words ih => exact .bind (commutes_number word) fun _ => .bind ih fun _ => .pure _

theorem commutes_signedField (bits : Nat) (word : String) :
    Commutes silenced (signedField bits word) :=
  .bind (commutes_number word) fun _ => .ite (.pure _) (.throw _)

theorem commutes_unsignedByte (word : String) : Commutes silenced (unsignedByte word) :=
  .bind (commutes_number word) fun _ => .ite (.pure _) (.throw _)

theorem commutes_byteField (signed : Bool) (word : String) :
    Commutes silenced (byteField signed word) :=
  .ite (commutes_signedField 8 word) (commutes_unsignedByte word)

theorem commutes_register (word : String) : Commutes silenced (register word) := by
  unfold register
  split
  · exact .pure _
  · exact .throw _

theorem commutes_infoWord (value : UInt32) : Commutes silenced (infoWord value) :=
  .ite (.pure _) (.bind (commutes_intern _) fun _ => .pure _)

theorem commutes_operandInfo (word : String) : Commutes silenced (operandInfo word) := by
  unfold operandInfo
  split
  · split
    · exact .pure _
    · exact .throw _
  · exact .bind (commutes_number word) fun value => commutes_infoWord value

theorem commutes_patch (line : Line) (distance : Int) (offset : UInt32) :
    Commutes silenced (patch line distance offset) := by
  refine .bind (commutes_note _) fun _ => ?_
  dsimp only
  split
  · exact .pure _
  · exact .ite (.throw _) (.pure _)
  · exact .ite (.throw _) (.pure _)
  · exact .ite (.throw _) (.pure _)
  · exact .bind (commutes_infoWord _) fun _ => .pure _
  · refine .get_bind (fun _ => rfl) fun _ => ?_
    exact .bind (commutes_infoWord _) fun _ => .pure _

theorem commutes_aim (line : Line) (kind : LinkKind) (word : String) :
    Commutes silenced (aim line kind word) := by
  unfold aim
  dsimp only
  split
  · exact .ite (.bind (commutes_infoWord _) fun _ => .pure _) (commutes_patch _ _ _)
  · refine .ite (.bind (commutes_operandInfo _) fun _ => .pure _) ?_
    exact .ite (.pure _) (.throw _)

/-! ## Lines -/

theorem commutes_instruction (op : Opcode) (line : Line) (operands : List String) :
    Commutes silenced (instruction op line operands) := by
  -- Every form reads its registers first, then its values, and its target last.
  have hregs {α : Type} {word : String} {g : Reg → Asm α} (h : ∀ r, Commutes silenced (g r)) :
      Commutes silenced (register word >>= g) := .bind (commutes_register word) h
  unfold instruction
  split
  · exact hregs fun _ => hregs fun _ => hregs fun _ => .pure _
  · exact hregs fun _ => hregs fun _ => .pure _
  · exact hregs fun _ => hregs fun _ => .bind (commutes_byteField _ _) fun _ => .pure _
  · exact hregs fun _ => hregs fun _ => .bind (commutes_operandInfo _) fun _ => .pure _
  · exact hregs fun _ => .bind (commutes_operandInfo _) fun _ => commutes_aim _ _ _
  · exact hregs fun _ => .bind (commutes_byteField _ _) fun _ => commutes_aim _ _ _
  · exact hregs fun _ => hregs fun _ => commutes_aim _ _ _
  · exact hregs fun _ => .bind (commutes_signedField _ _) fun _ => .pure _
  · exact hregs fun _ => commutes_aim _ _ _
  · exact hregs fun _ => .pure _
  · exact commutes_aim _ _ _
  · exact hregs fun _ => hregs fun _ => .pure _
  · exact hregs fun _ => hregs fun _ => .bind (commutes_unsignedByte _) fun _ => .pure _
  · exact .pure _
  · exact .throw _

theorem commutes_lineOf (line : Line) (head : String) (operands : List String) :
    Commutes silenced (lineOf line head operands) := by
  refine .ite (.ite (.throw _) (.bind (commutes_numbers _) fun _ => .pure _)) ?_
  split
  · exact commutes_instruction _ _ _
  · exact .throw _

theorem commutes_assembleWords (number : Nat) (words : List String) :
    Commutes silenced (assembleWords number words) := by
  cases words with
  | nil => exact .pure _
  | cons head operands =>
    refine .bind commutes_currentPc fun _ => ?_
    exact .bind (commutes_lineOf _ head operands) fun _ => .modify fun _ => rfl

theorem commutes_defineEquate (operands : List String) :
    Commutes silenced (defineEquate operands) := by
  unfold defineEquate
  split
  · refine .bind (commutes_equate? _) fun _ => ?_
    exact .ite (.bind (.throw _) fun _ => commutes_setEquate _ _) (commutes_setEquate _ _)
  · exact .throw _

theorem commutes_defineConstant (operands : List String) :
    Commutes silenced (defineConstant operands) := by
  unfold defineConstant
  split
  · rename_i name kind value more
    refine .bind (commutes_equate? name) fun _ => ?_
    cases constantOf kind value more with
    | ok item =>
      have hintern : Commutes silenced (do
          let index ← intern item
          setEquate name (poolReference index)) :=
        .bind (commutes_intern item) fun _ => commutes_setEquate _ _
      exact .ite (.bind (.throw _) fun _ => hintern) hintern
    | error e => exact .ite (.bind (.throw _) fun _ => .throw _) (.throw _)
  · exact .throw _

theorem commutes_defineLabel (label : String) : Commutes silenced (defineLabel label) := by
  have hplace : Commutes silenced (do
      let pc ← currentPc
      modify fun s => { s with labels := s.labels.insert label pc } : Asm Unit) :=
    .bind commutes_currentPc fun _ => .modify fun _ => rfl
  refine .get_bind (fun _ => rfl) fun _ => ?_
  exact .ite (.bind (.throw _) fun _ => hplace) hplace

theorem commutes_takeLabels (words : List String) : Commutes silenced (takeLabels words) := by
  induction words with
  | nil => exact .pure _
  | cons word words ih =>
    unfold takeLabels
    split
    · exact .pure _
    · exact .bind (commutes_defineLabel _) fun _ => ih

theorem commutes_bindParams (params args : List String) :
    Commutes silenced (bindParams params args) := by
  induction params generalizing args with
  | nil => exact .pure _
  | cons param params ih =>
    cases args with
    | nil => exact .pure _
    | cons arg args => exact .bind (commutes_setEquate param arg) fun _ => ih args

/-! ## Macros -/

theorem commutes_expandBody {read : LineReader}
    (hread : ∀ number line, Commutes silenced (read number line)) (name mark : String)
    (number : Nat) (lines : List String) :
    Commutes silenced (expandBody read name mark number lines) := by
  induction lines generalizing number with
  | nil => exact .pure _
  | cons line lines ih =>
    refine .bind (commutes_wrapping _ ?_) fun _ => ih (number + 1)
    exact .bind (hread _ _) fun words => commutes_assembleWords number words

theorem commutes_expand {read : LineReader}
    (hread : ∀ number line, Commutes silenced (read number line)) (number : Nat) (name : String)
    (m : MacroDef) (args : List String) : Commutes silenced (expand read number name m args) := by
  refine .ite (.throw _) (commutes_withScope ?_)
  exact .bind (commutes_bindParams _ _) fun _ => commutes_expandBody hread _ _ _ _

theorem commutes_readLineWith [Interpreter] {nested : LineReader}
    (hnested : ∀ number line, Commutes silenced (nested number line)) (number : Nat)
    (line : String) : Commutes silenced (readLineWith nested number line) := by
  refine .bind (commutes_setEquate _ _) fun _ => .get_bind (fun _ => rfl) fun s => ?_
  split
  · exact .throw _
  · exact .pure _
  · refine .ite (.bind (commutes_defineEquate _) fun _ => .pure _) ?_
    refine .ite (.bind (commutes_defineConstant _) fun _ => .pure _) ?_
    refine .get_bind (fun _ => rfl) fun s => .bind (commutes_takeLabels _) fun words => ?_
    split
    · exact .pure _
    · refine .get_bind (fun _ => rfl) fun s => ?_
      split
      · exact .bind (commutes_expand hnested _ _ _ _) fun _ => .pure _
      · exact .pure _

/-- Reading a line, by induction on how deep its macros may nest. -/
theorem commutes_readLine [Interpreter] (depth number : Nat) (line : String) :
    Commutes silenced (readLine depth number line) := by
  induction depth generalizing number line with
  | zero => exact commutes_readLineWith (fun _ _ => .throw _) number line
  | succ depth ih => exact commutes_readLineWith ih number line

theorem commutes_openMacro (number : Nat) (words : List String) :
    Commutes silenced (openMacro number words) := by
  cases words with
  | nil => exact .throw _
  | cons name params =>
    have hopen : Commutes silenced (do
        modify fun s => { s with macros := s.macros.insert name ⟨number + 1, params, []⟩ }
        return name : Asm String) :=
      .bind (.modify fun _ => rfl) fun _ => .pure _
    refine .get_bind (fun _ => rfl) fun _ => ?_
    exact .ite (.bind (.throw _) fun _ => hopen) hopen

theorem commutes_extendMacro (name line : String) :
    Commutes silenced (extendMacro name line) := by
  refine .modify fun s => ?_
  dsimp only [silenced]
  cases s.macros.find? name with
  | some m => rfl
  | none => rfl

/-! ## Sources -/

theorem commutes_takeLine [Interpreter] (number : Nat) (line : String) (opened : Option String) :
    Commutes silenced (takeLine number line opened) := by
  unfold takeLine
  split
  · exact .throw _
  · exact .bind (commutes_openMacro number _) fun _ => .pure _
  · exact .throw _
  · exact .pure _
  · exact .bind (commutes_extendMacro _ line) fun _ => .pure _
  · refine .bind (commutes_readLine _ number line) fun words => ?_
    exact .bind (commutes_assembleWords number words) fun _ => .pure _

theorem commutes_takeLines [Interpreter] (number : Nat) (before : String) (opened : Option String)
    (lines : List (List Char)) : Commutes silenced (takeLines number before opened lines) := by
  induction lines generalizing number before opened with
  | nil =>
    cases opened with
    | none => exact .pure _
    | some name => exact .throw _
  | cons raw rest ih =>
    have hline (u : Unit) : Commutes silenced (do
        let opened ← wrapping (.located number (stripped raw))
          (takeLine number (stripped raw) opened)
        takeLines (number + 1) (stripped raw) opened rest) :=
      .bind (commutes_wrapping _ (commutes_takeLine number _ opened)) fun opened => ih _ _ opened
    cases opened with
    | none => exact .bind (commutes_note _) hline
    | some name => exact .bind (commutes_note _) hline

theorem commutes_resolve (line : Line) : Commutes silenced (resolve line) := by
  unfold resolve
  split
  · exact .pure _
  · refine .get_bind (fun _ => rfl) fun s => ?_
    split
    · exact .throw _
    · exact commutes_patch _ _ _

theorem commutes_resolveAll (index : Nat) (lines : List Line) :
    Commutes silenced (resolveAll index lines) := by
  induction lines generalizing index with
  | nil => exact .pure _
  | cons line rest ih =>
    refine .bind (commutes_wrapping _ (commutes_resolve line)) fun _ => ?_
    exact .bind (.modify fun _ => rfl) fun _ => ih (index + 1)

/-- A source is assembled without a look at the log. -/
theorem commutes_source [Interpreter] (text : String) : Commutes silenced (source text) := by
  refine .bind (commutes_takeLines _ _ _ _) fun _ => .get_bind (fun _ => rfl) fun s => ?_
  refine .bind (commutes_resolveAll _ _) fun _ => .get_bind (fun _ => rfl) fun s => ?_
  exact .pure _

/-- What comes of a source, and all it leaves but the log, is decided by what it starts from. -/
theorem parse_of_start [Interpreter] {a b : Assembler} (h : silenced a.start = silenced b.start)
    (text : String) :
    (a.parse text).2 = (b.parse text).2 ∧
      silenced (a.parse text).1.assembly = silenced (b.parse text).1.assembly := by
  have hsource : onState silenced (source text a.start) = onState silenced (source text b.start) := by
    rw [← commutes_source text a.start, h, commutes_source text b.start]
  unfold Assembler.parse
  cases ha : source text a.start with
  | ok p s =>
    cases hb : source text b.start with
    | ok q t =>
      rw [ha, hb] at hsource
      obtain ⟨hprogram, hstate⟩ := EStateM.Result.ok.inj hsource
      exact ⟨congrArg Except.ok hprogram, hstate⟩
    | error e t =>
      rw [ha, hb] at hsource
      cases hsource
  | error e s =>
    cases hb : source text b.start with
    | ok q t =>
      rw [ha, hb] at hsource
      cases hsource
    | error e' t =>
      rw [ha, hb] at hsource
      obtain ⟨herror, hstate⟩ := EStateM.Result.error.inj hsource
      exact ⟨congrArg Except.error herror, hstate⟩

/-! ## The life of an assembler -/

/-- What is done with an assembler. -/
inductive Use where
  | parse (text : String)
  | define (name value : String)
  | place (origin : UInt32)
  | report (verbose : Bool)

def Use.perform [Interpreter] : Use → Assembler → Assembler
  | .parse text, a => (a.parse text).1
  | .define name value, a => a.define name value
  | .place origin, a => { a with origin }
  | .report verbose, a => { a with verbose }

/-- A new assembler after some uses. -/
def used [Interpreter] (uses : List Use) : Assembler := uses.foldl (fun a use => use.perform a) {}

/-- A new assembler with some predefined equates, of which a later one replaces an earlier one. -/
def fresh (origin : UInt32) (verbose : Bool) (defines : List (String × String)) : Assembler :=
  { origin, verbose, predefined := .ofList defines }

theorem ascending_insertAll {α : Type} {t : Table α} (h : Ascending t)
    (entries : List (String × α)) : Ascending (t.insertAll entries) := by
  induction entries generalizing t with
  | nil => exact h
  | cons e rest ih => exact ih (h.insert e.1 e.2)

theorem ascending_perform [Interpreter] {a : Assembler} (h : Ascending a.predefined) (use : Use) :
    Ascending (use.perform a).predefined := by
  cases use with
  | parse text =>
    change Ascending (a.parse text).1.predefined
    unfold Assembler.parse
    split
    · exact h
    · exact h
  | define name value => exact h.insert name value
  | place origin => exact h
  | report verbose => exact h

/-- The predefined equates of a used assembler, by induction on its uses. -/
theorem ascending_used [Interpreter] (uses : List Use) : Ascending (used uses).predefined := by
  have hfrom (a : Assembler) (h : Ascending a.predefined) :
      Ascending (uses.foldl (fun a use => use.perform a) a).predefined := by
    induction uses generalizing a with
    | nil => exact h
    | cons use rest ih => exact ih _ (ascending_perform h use)
  exact hfrom {} List.Pairwise.nil

/-- After any uses, among them sources that were accepted or refused at any point, an assembler
makes of a source what a new assembler makes of it that has the same origin and predefines equates
with the same values. The error or the program is the same, and so are the lines, labels, equates,
macros and constants that are left; the log is the same too where both keep one or neither. -/
theorem parse_independent_of_history [Interpreter] (uses : List Use)
    (defines : List (String × String)) (verbose : Bool) (text : String)
    (hdefines : ∀ name, (used uses).predefined.find? name = (Table.ofList defines).find? name) :
    let a := used uses
    let b := fresh a.origin verbose defines
    (a.parse text).2 = (b.parse text).2 ∧
    silenced (a.parse text).1.assembly = silenced (b.parse text).1.assembly ∧
    (verbose = a.verbose → (a.parse text).1.assembly = (b.parse text).1.assembly) := by
  intro a b
  have hpredefined : a.predefined = b.predefined :=
    eq_of_find? (ascending_used uses) (ascending_insertAll List.Pairwise.nil defines) hdefines
  have hstart : silenced a.start = silenced b.start := by
    unfold Assembler.start silenced
    rw [hpredefined]
    rfl
  obtain ⟨hresult, hleft⟩ := parse_of_start hstart text
  refine ⟨hresult, hleft, fun hverbose => ?_⟩
  have hsame : a.start = b.start := by
    unfold Assembler.start
    rw [hpredefined, ← hverbose]
    rfl
  unfold Assembler.parse
  rw [hsame]
  cases source text b.start with
  | ok p s => rfl
  | error e s => rfl

/-- An assembler that was left within a macro, with a constant and a label defined. -/
def abandoned : List Use :=
  [.define "M" "9", .define "N" "1", .parse ".pool K int 7\nend: .word K\n.macro end x",
    .report true, .define "M" "2"]

def counted : Program where
  origin := 0
  lines := #[{ number := 1, pc := 0, words := [".word", "2", "1", "1"], codes := [2, 1, 1] }]
  labels := ⟨[("end", 0)]⟩

theorem parse_independent_of_history_abandoned :
    ((used abandoned).parse "end: .word M N LINENO").2 = .ok counted ∧
    silenced ((used abandoned).parse "end: .word M N LINENO").1.assembly =
      silenced ((fresh 0 false [("N", "1"), ("M", "2")]).parse
        "end: .word M N LINENO").1.assembly := by
  have hdefines : (used abandoned).predefined = .ofList [("N", "1"), ("M", "2")] := by
    decide +kernel
  have hfresh : ((fresh 0 false [("N", "1"), ("M", "2")]).parse "end: .word M N LINENO").2 =
      .ok counted := by decide +kernel
  obtain ⟨hresult, hleft, -⟩ := parse_independent_of_history abandoned [("N", "1"), ("M", "2")]
    false "end: .word M N LINENO" fun name => by rw [hdefines]
  have horigin : (used abandoned).origin = 0 := by decide +kernel
  rw [horigin] at hresult hleft
  exact ⟨hresult.trans hfresh, hleft⟩

end TaskMachine.History
