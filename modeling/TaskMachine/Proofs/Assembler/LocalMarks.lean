import Mathlib.Data.List.Nodup
import Mathlib.Data.List.Pairwise
import TaskMachine.Expr.Script
import TaskMachine.Proofs.Assembler.Expansions
import TaskMachine.Proofs.Numeral.Spelling
import TaskMachine.Proofs.Tables

/-!
# Which expansions share their local labels

The mark of an expansion is made of the macro's name and the number of the line
that invokes it, and tells these two apart. A line at the top of a source is read
once. A line of a macro's body is read once in every expansion of the macro, and
what it invokes has the same mark each time. So two expansions have the same mark
only if they are the same line of a body in two expansions of one macro.
-/

namespace TaskMachine.LocalMarks

open Stateful Reading Expansions Numeral Tables

/-! ## The lines of bodies -/

theorem inBody_open {macros : Table MacroDef} {name : String} (hnew : macros.find? name = none)
    (first : Nat) (params : List String) (other : String) (n : Nat) :
    InBody (macros.insert name ⟨first, params, []⟩) other n ↔ InBody macros other n := by
  unfold InBody
  rw [find?_insert]
  by_cases hother : other = name
  · subst hother
    rw [if_pos rfl, hnew]
    constructor
    · rintro ⟨m, hm, hlow, hhigh⟩
      cases hm
      exact absurd hhigh (Nat.not_lt.mpr hlow)
    · rintro ⟨m, hm, -⟩
      cases hm
  · rw [if_neg hother]

theorem inBody_extend {macros : Table MacroDef} {name : String} {m : MacroDef}
    (hm : macros.find? name = some m) (line other : String) (n : Nat) :
    InBody (macros.insert name { m with body := m.body ++ [line] }) other n ↔
      InBody macros other n ∨ (other = name ∧ n = m.number + m.body.length) := by
  unfold InBody
  rw [find?_insert]
  by_cases hother : other = name
  · subst hother
    rw [if_pos rfl, hm]
    have hlength : (m.body ++ [line]).length = m.body.length + 1 := List.length_append
    constructor
    · rintro ⟨m', hm', hlow, hhigh⟩
      cases hm'
      dsimp only at hlow hhigh
      by_cases hlast : n = m.number + m.body.length
      · exact .inr ⟨rfl, hlast⟩
      · exact .inl ⟨m, rfl, hlow, by omega⟩
    · rintro (⟨m', hm', hlow, hhigh⟩ | ⟨-, rfl⟩)
      · cases hm'
        refine ⟨_, rfl, hlow, ?_⟩
        dsimp only
        omega
      · refine ⟨_, rfl, Nat.le_add_right _ _, ?_⟩
        dsimp only
        omega
  · rw [if_neg hother]
    simp [hother]

/-! ## Reading a source -/

/-- What holds of the macros and the record when the lines before a number have been taken in:
every line of a body is one of those, belongs to one macro, and invokes nothing by itself. -/
structure Sound (number : Nat) (opened : Option String) (macros : Table MacroDef)
    (es : List Expansion) : Prop where
  record : Under macros [] (· < number) es
  bodies : ∀ name m, macros.find? name = some m → m.number + m.body.length ≤ number
  current : ∀ name, opened = some name →
    ∃ m, macros.find? name = some m ∧ m.number + m.body.length = number
  owned : ∀ name other n, InBody macros name n → InBody macros other n → name = other
  apart : ∀ e ∈ es, e.outer = [] → ∀ name, ¬ InBody macros name e.site.number

namespace Sound

variable {number : Nat} {opened : Option String} {macros : Table MacroDef} {es : List Expansion}

theorem start : Sound 1 none {} [] where
  record := .nil
  bodies name m h := by cases h
  current name h := by cases h
  owned name other n h := by
    obtain ⟨m, hm, -⟩ := h
    cases hm
  apart e he := by cases he

theorem lt_of_inBody (h : Sound number opened macros es) {name : String} {n : Nat}
    (hn : InBody macros name n) : n < number := by
  obtain ⟨m, hm, -, hhigh⟩ := hn
  exact Nat.lt_of_lt_of_le hhigh (h.bodies name m hm)

/-- A line that invokes nothing and may become a line of the macro that is being defined. -/
theorem grow {macros' : Table MacroDef} {opened' : Option String}
    (h : Sound number opened macros es)
    (hkept : ∀ name n, InBody macros name n → InBody macros' name n)
    (hadded : ∀ name n, InBody macros' name n → InBody macros name n ∨
      (opened = some name ∧ n = number))
    (hbodies : ∀ name m, macros'.find? name = some m → m.number + m.body.length ≤ number + 1)
    (hcurrent : ∀ name, opened' = some name →
      ∃ m, macros'.find? name = some m ∧ m.number + m.body.length = number + 1) :
    Sound (number + 1) opened' macros' es where
  record :=
    { marked := h.record.marked
      distinct := h.record.distinct
      reached := (h.record.mono fun n (hn : n < number) => Nat.lt_succ_of_lt hn).reached
      enclosed := by
        intro e he
        obtain houter | ⟨d, hd, hchain, hbody⟩ := h.record.enclosed e he
        · exact .inl houter
        · exact .inr ⟨d, hd, hchain, hkept _ _ hbody⟩ }
  bodies := hbodies
  current := hcurrent
  owned name other n hname hother := by
    obtain hname | ⟨hopened, rfl⟩ := hadded name n hname
    · obtain hother | ⟨-, rfl⟩ := hadded other n hother
      · exact h.owned name other n hname hother
      · exact absurd (h.lt_of_inBody hname) (Nat.lt_irrefl _)
    · obtain hother | ⟨hopened', -⟩ := hadded other n hother
      · exact absurd (h.lt_of_inBody hother) (Nat.lt_irrefl _)
      · exact Option.some.inj (hopened.symm.trans hopened')
  apart e he houter name hbody := by
    have hlt := h.record.of_outer he houter
    obtain hold | ⟨-, hn⟩ := hadded name _ hbody
    · exact h.apart e he houter name hold
    · omega

theorem skip (h : Sound number opened macros es) : Sound (number + 1) none macros es := by
  refine h.grow (fun _ _ hn => hn) (fun _ _ hn => .inl hn) (fun name m hm => ?_) nofun
  exact Nat.le_succ_of_le (h.bodies name m hm)

/-- A line that is assembled where it stands. -/
theorem read {new : List Expansion} (h : Sound number opened macros es)
    (hnew : Under macros [] (· = number) new) : Sound (number + 1) none macros (es ++ new) where
  record := (h.record.append hnew fun n hn => Nat.ne_of_lt hn).mono fun n hn => by omega
  bodies := h.skip.bodies
  current := nofun
  owned := h.owned
  apart e he houter name hbody := by
    rcases List.mem_append.mp he with he | he
    · exact h.apart e he houter name hbody
    · have hlt := h.lt_of_inBody hbody
      rw [hnew.of_outer he houter] at hlt
      exact Nat.lt_irrefl _ hlt

end Sound

/-- A macro is opened under a new name and with an empty body behind its line. -/
theorem openMacro_eq_ok {number : Nat} {words : List String} {name : String} {s t : Assembly}
    (h : Asm.openMacro number words s = .ok name t) :
    s.macros.find? name = none ∧
      ∃ params, t.macros = s.macros.insert name ⟨number + 1, params, []⟩ := by
  cases words with
  | nil => cases h
  | cons first params =>
    obtain ⟨s', t', hget, hrest⟩ := bind_eq_ok.mp h
    obtain ⟨rfl, rfl⟩ := get_eq_ok.mp hget
    split at hrest
    · exact absurd hrest (Ensures.throw_bind (R := fun _ _ => False) _ _ _ _ _)
    · rename_i hnew
      obtain ⟨u, t₁, hmodify, hname⟩ := bind_eq_ok.mp hrest
      obtain ⟨rfl, rfl⟩ := pure_eq_ok.mp hname
      rw [modify_eq_ok.mp hmodify]
      refine ⟨?_, params, rfl⟩
      simpa [Table.contains] using hnew

theorem Sound.openMacro {number : Nat} {opened : Option String} {words : List String}
    {name : String} {s t : Assembly} {es : List Expansion} (h : Sound number opened s.macros es)
    (hopen : Asm.openMacro number words s = .ok name t) :
    Sound (number + 1) (some name) t.macros es := by
  obtain ⟨hnew, params, hmacros⟩ := openMacro_eq_ok hopen
  rw [hmacros]
  have hbody := inBody_open hnew (number + 1) params
  have hfound : (s.macros.insert name ⟨number + 1, params, []⟩).find? name =
      some ⟨number + 1, params, []⟩ := by
    rw [find?_insert, if_pos rfl]
  refine h.grow (fun other n => (hbody other n).mpr)
    (fun other n hn => .inl ((hbody other n).mp hn)) (fun other m hm => ?_) fun other hother => ?_
  · rw [find?_insert] at hm
    split at hm
    · cases hm
      exact Nat.le_refl _
    · exact Nat.le_succ_of_le (h.bodies other m hm)
  · cases hother
    exact ⟨_, hfound, rfl⟩

theorem Sound.extendMacro {number : Nat} {name : String} {s t : Assembly} {u : Unit}
    {es : List Expansion} (h : Sound number (some name) s.macros es) {line : String}
    (hextend : Asm.extendMacro name line s = .ok u t) :
    Sound (number + 1) (some name) t.macros es := by
  obtain ⟨m, hm, hend⟩ := h.current name rfl
  have hmacros : t.macros = s.macros.insert name { m with body := m.body ++ [line] } := by
    rw [modify_eq_ok.mp hextend, hm]
  have hbody := inBody_extend hm line
  have hfound : (s.macros.insert name { m with body := m.body ++ [line] }).find? name =
      some { m with body := m.body ++ [line] } := by
    rw [find?_insert, if_pos rfl]
  have hlength : m.number + (m.body ++ [line]).length = number + 1 := by
    rw [List.length_append, List.length_singleton, ← hend]
    omega
  rw [hmacros]
  refine h.grow (fun other n hn => (hbody other n).mpr (.inl hn)) (fun other n hn => ?_)
    (fun other m' hm' => ?_) fun other hother => ?_
  · obtain hold | ⟨rfl, hlast⟩ := (hbody other n).mp hn
    · exact .inl hold
    · exact .inr ⟨rfl, hlast.trans hend⟩
  · rw [find?_insert] at hm'
    split at hm'
    · cases hm'
      exact Nat.le_of_eq hlength
    · exact Nat.le_succ_of_le (h.bodies other m' hm')
  · cases hother
    exact ⟨_, hfound, hlength⟩

/-- The line opens or closes the definition of a macro. -/
def Delimits (line : String) : Prop :=
  ∃ head rest, (Text.words line.toList).map String.ofList = head :: rest ∧
    (head = ".macro" ∨ head = ".endm")

theorem not_delimits {line : String}
    (hopens : ∀ rest, (Text.words line.toList).map String.ofList ≠ ".macro" :: rest)
    (hcloses : ∀ rest, (Text.words line.toList).map String.ofList ≠ ".endm" :: rest) :
    ¬ Delimits line := by
  rintro ⟨head, rest, hwords, rfl | rfl⟩
  · exact hopens rest hwords
  · exact hcloses rest hwords

section

variable [Interpreter]

/-- A line outside of macros is read and assembled. -/
theorem takeLine_of_not_delimits {line : String} (h : ¬ Delimits line) (number : Nat) :
    Asm.takeLine number line none = (do
      let words ← Asm.readLine macroDepthLimit number line
      Asm.assembleWords number words
      return none) :=
  takeLine_of_code (fun rest hwords => h ⟨_, rest, hwords, .inl rfl⟩)
    fun rest hwords => h ⟨_, rest, hwords, .inr rfl⟩

theorem recordingTakeLine_of_not_delimits {line : String} (h : ¬ Delimits line) (number : Nat) :
    Recording.takeLine number line none = (do
      let words ← Recording.readLine macroDepthLimit [] number line
      Recording.plain (Asm.assembleWords number words)
      return none) := by
  unfold Recording.takeLine
  split
  · rename_i hwords
    exact absurd ⟨_, _, hwords, .inl rfl⟩ h
  · rename_i hwords
    exact absurd ⟨_, _, hwords, .inr rfl⟩ h
  · rename_i hnone _ _
    cases hnone
  · rfl

/-- Any other line belongs to the definition of a macro, and expands nothing. -/
theorem recordingTakeLine_of_definition {line : String} {opened : Option String}
    (hdefines : opened ≠ none ∨ Delimits line) (number : Nat) :
    Recording.takeLine number line opened = Recording.plain (Asm.takeLine number line opened) := by
  unfold Recording.takeLine
  split
  · rfl
  · rfl
  · rfl
  · rename_i hopens hcloses
    exact hdefines.elim (absurd rfl) (absurd · (not_delimits hopens hcloses))

/-- The expansions of a line outside of macros come behind those on record. -/
theorem exists_recorded {line : String} (h : ¬ Delimits line) (number : Nat) (s : Assembly)
    (es : List Expansion) :
    ∃ new, Recording.takeLine number line none (s, es) =
        beside (es ++ new) (Asm.takeLine number line none s) ∧
      Under s.macros [] (· = number) new := by
  have hread : Follows s.macros (Under s.macros [] (· = number))
      (Recording.readLine macroDepthLimit [] number line)
      (Asm.readLine macroDepthLimit number line) :=
    matches_readLine macroDepthLimit [] number line
  rw [takeLine_of_not_delimits h, recordingTakeLine_of_not_delimits h]
  exact hread.bind_quiet (steady_sameMacros.readLine macroDepthLimit number line)
    (fun words => .plain_bind rfl (steady_sameMacros.assembleWords number words)
      fun _ => .quiet_pure (none : Option String)) s es rfl

/-- A line that belongs to the definition of a macro. -/
theorem sound_definition {number : Nat} {opened next : Option String} {s t : Assembly}
    {es : List Expansion} (h : Sound number opened s.macros es) {line : String}
    (hline : Asm.takeLine number line opened s = .ok next t)
    (hdefines : opened ≠ none ∨ Delimits line) : Sound (number + 1) next t.macros es := by
  generalize hx : Asm.takeLine number line opened = x at hline
  unfold Asm.takeLine at hx
  split at hx
  · subst hx
    cases hline
  · subst hx
    have hopened : (Asm.openMacro number _ >>= fun name => pure (some name)) s = .ok next t := hline
    obtain ⟨name, t', hopen, hline⟩ := bind_eq_ok.mp hopened
    obtain ⟨rfl, rfl⟩ := pure_eq_ok.mp hline
    exact h.openMacro hopen
  · subst hx
    cases hline
  · subst hx
    obtain ⟨rfl, rfl⟩ := pure_eq_ok.mp hline
    exact h.skip
  · subst hx
    obtain ⟨u, t', hextend, hline⟩ := bind_eq_ok.mp hline
    obtain ⟨rfl, rfl⟩ := pure_eq_ok.mp hline
    exact h.extendMacro hextend
  · rename_i hopens hcloses
    exact hdefines.elim (absurd rfl) (absurd · (not_delimits hopens hcloses))

/-- One line of a source: the recording work does what the assembler does, and what held before
the line holds behind it, also where the line fails. -/
theorem sound_takeLine {number : Nat} {opened : Option String} {s : Assembly} {es : List Expansion}
    (h : Sound number opened s.macros es) (line : String) :
    ∃ es', Recording.takeLine number line opened (s, es) =
        beside es' (Asm.takeLine number line opened s) ∧
      Sound (number + 1) none s.macros es' ∧
      ∀ next t, Asm.takeLine number line opened s = .ok next t →
        Sound (number + 1) next t.macros es' := by
  by_cases hdefines : opened ≠ none ∨ Delimits line
  · rw [recordingTakeLine_of_definition hdefines]
    exact ⟨es, rfl, h.skip, fun next t hline => sound_definition h hline hdefines⟩
  · obtain ⟨hopened, hcode⟩ := not_or.mp hdefines
    obtain rfl := not_not.mp hopened
    obtain ⟨new, hrun, hnew⟩ := exists_recorded hcode number s es
    refine ⟨es ++ new, hrun, h.read hnew, fun next t hok => ?_⟩
    rw [takeLine_of_not_delimits hcode] at hok
    have hkeep : Ensures SameMacros (do
        let words ← Asm.readLine macroDepthLimit number line
        Asm.assembleWords number words
        return (none : Option String)) :=
      steady_sameMacros.bind (steady_sameMacros.readLine _ _ _) fun words =>
        steady_sameMacros.bind (steady_sameMacros.assembleWords number words) fun _ =>
          steady_sameMacros.pure none
    have hmacros : t.macros = s.macros := hkeep s next t hok
    obtain ⟨words, s₁, hwords, hok⟩ := bind_eq_ok.mp hok
    obtain ⟨_, s₂, hemit, hok⟩ := bind_eq_ok.mp hok
    obtain ⟨rfl, rfl⟩ := pure_eq_ok.mp hok
    rw [hmacros]
    exact h.read hnew

/-- All lines of a source, by induction on the lines that are left. -/
theorem sound_takeLines {number : Nat} {opened : Option String} {s : Assembly}
    {es : List Expansion} (h : Sound number opened s.macros es) (before : String)
    (lines : List (List Char)) :
    ∃ es', Recording.takeLines number before opened lines (s, es) =
        beside es' (Asm.takeLines number before opened lines s) ∧
      ∃ number' macros, Sound number' none macros es' := by
  induction lines generalizing number before opened s es with
  | nil => exact ⟨es, rfl, _, _, h.skip⟩
  | cons raw rest ih =>
    let s₁ : Assembly :=
      { s with log := s.log.note fun _ => decimalNat number ++ ": " ++ String.ofList raw }
    obtain ⟨es₁, hline, hfailed, hnext⟩ := sound_takeLine (s := s₁) h (stripped raw)
    have hwrapped := wrapping_beside (.located number (stripped raw)) hline
    rw [takeLines_cons, Recording.takeLines,
      bind_of_ok (show Recording.plain (Asm.note _) (s, es) = .ok () (s₁, es) from rfl),
      bind_of_ok (show Asm.note _ s = .ok () s₁ from rfl)]
    cases hok : Asm.takeLine number (stripped raw) opened s₁ with
    | ok next t =>
      obtain ⟨es', hrun, hsound⟩ := ih (hnext next t hok) (stripped raw)
      refine ⟨es', ?_, hsound⟩
      rw [wrapping_of_ok hok] at hwrapped
      rw [bind_of_ok hwrapped, bind_of_ok (wrapping_of_ok hok)]
      exact hrun
    | error e t =>
      refine ⟨es₁, ?_, _, _, hfailed⟩
      rw [wrapping_of_error hok] at hwrapped
      rw [bind_of_error hwrapped, bind_of_error (wrapping_of_error hok)]
      rfl

end

/-! ## Marks -/

theorem toList_localMark (name : String) (number : Nat) :
    (localMark name number).toList =
      name.toList ++ '_' :: (Nat.toDigits 10 number ++ ['_']) := by
  unfold localMark
  rw [String.toList_append, String.toList_append, String.toList_append,
    Spelling.toList_decimalNat, List.append_assoc, List.append_assoc]
  rfl

theorem toDigits_inj {m n : Nat} (h : Nat.toDigits 10 m = Nat.toDigits 10 n) : m = n :=
  calc m = Nat.ofDigitChars 10 (Nat.toDigits 10 m) 0 := Nat.ofDigitChars_ten_toDigits.symm
    _ = Nat.ofDigitChars 10 (Nat.toDigits 10 n) 0 := by rw [h]
    _ = n := Nat.ofDigitChars_ten_toDigits

/-- Texts that are cut at their first underscore have the same part before it. -/
theorem eq_of_cut {xs ys as bs : List Char} (hxs : '_' ∉ xs) (hys : '_' ∉ ys)
    (h : xs ++ '_' :: as = ys ++ '_' :: bs) : xs = ys := by
  have hsplit := congrArg (List.splitOn '_') h
  rw [List.splitOn_append_cons_self_of_not_mem hxs,
    List.splitOn_append_cons_self_of_not_mem hys] at hsplit
  exact (List.cons.inj hsplit).1

/-- Digits have no underscore, so that the last two underscores of a mark enclose its number. -/
theorem localMark_inj {a b : String} {m n : Nat} (h : localMark a m = localMark b n) :
    a = b ∧ m = n := by
  have hlists := congrArg (fun text : String => text.toList.reverse) h
  simp only [toList_localMark, List.reverse_append, List.reverse_cons, List.reverse_nil,
    List.nil_append, List.append_assoc, List.cons_append, List.cons.injEq, true_and] at hlists
  have hdigits : Nat.toDigits 10 m = Nat.toDigits 10 n :=
    List.reverse_inj.mp (eq_of_cut (by simp [Nat.underscore_not_in_toDigits])
      (by simp [Nat.underscore_not_in_toDigits]) hlists)
  rw [hdigits] at hlists
  have hnames := (List.cons.inj (List.append_cancel_left hlists)).2
  exact ⟨String.toList_inj.mp (List.reverse_inj.mp hnames), toDigits_inj hdigits⟩

/-- Labels under different marks of one macro are different. -/
theorem label_ne {name : String} {m n : Nat} (h : m ≠ n) (x y : String) :
    localMark name m ++ x ≠ localMark name n ++ y := by
  intro heq
  have hlists := congrArg String.toList heq
  rw [String.toList_append, String.toList_append, toList_localMark, toList_localMark,
    List.append_assoc, List.append_assoc, List.cons_append, List.cons_append] at hlists
  have htail := (List.cons.inj (List.append_cancel_left hlists)).2
  rw [List.append_assoc, List.append_assoc] at htail
  exact h (toDigits_inj (eq_of_cut Nat.underscore_not_in_toDigits Nat.underscore_not_in_toDigits
    htail))

/-- The same line of a body invokes both, in two expansions of one macro. -/
structure Repeated (es : List Expansion) (d e : Expansion) : Prop where
  site : d.site = e.site
  inside : ∃ d' ∈ es, ∃ e' ∈ es, d' ≠ e' ∧ d'.site.name = e'.site.name ∧
    d.outer = d'.chain ∧ e.outer = e'.chain

theorem Sound.chain_ne {number : Nat} {opened : Option String} {macros : Table MacroDef}
    {es : List Expansion} (h : Sound number opened macros es) {d e : Expansion} (hd : d ∈ es)
    (he : e ∈ es) (hne : d ≠ e) : d.chain ≠ e.chain := by
  have hsymm : Std.Symm fun d e : Expansion => d.chain ≠ e.chain := ⟨fun _ _ => Ne.symm⟩
  exact h.record.distinct.forall hd he hne

theorem Sound.repeated {number : Nat} {opened : Option String} {macros : Table MacroDef}
    {es : List Expansion} (h : Sound number opened macros es) {d e : Expansion} (hd : d ∈ es)
    (he : e ∈ es) (hne : d ≠ e) (hsite : d.site = e.site) : Repeated es d e := by
  have hchain := h.chain_ne hd he hne
  have houter : d.outer ≠ e.outer := fun hsame => hchain (congrArg₂ List.cons hsite hsame)
  refine ⟨hsite, ?_⟩
  obtain htop | ⟨d', hd', hdchain, hdbody⟩ := h.record.enclosed d hd
  · obtain htop' | ⟨e', he', hechain, hebody⟩ := h.record.enclosed e he
    · exact absurd (htop.trans htop'.symm) houter
    · exact absurd (hsite ▸ hebody) (h.apart d hd htop _)
  · obtain htop' | ⟨e', he', hechain, hebody⟩ := h.record.enclosed e he
    · exact absurd (hsite ▸ hdbody) (h.apart e he htop' _)
    · refine ⟨d', hd', e', he', ?_, ?_, hdchain.symm, hechain.symm⟩
      · rintro rfl
        exact houter (hdchain.symm.trans hechain)
      · exact h.owned _ _ _ hdbody (hsite ▸ hebody)

/-- The record of a source is the one of its run, and what is known of records holds of it. -/
theorem sound_expansions [Interpreter] (a : Assembler) (text : String) :
    Recording.takeLines 1 "" none (Text.readLines text.toList) (a.start, []) =
        beside (expansions a text)
          (Asm.takeLines 1 "" none (Text.readLines text.toList) a.start) ∧
      ∃ number macros, Sound number none macros (expansions a text) := by
  have hstart : Sound 1 none a.start.macros [] := Sound.start
  obtain ⟨es, hrun, hsound⟩ := sound_takeLines hstart "" (Text.readLines text.toList)
  have hes : expansions a text = es := by
    unfold expansions
    rw [hrun]
    cases Asm.takeLines 1 "" none (Text.readLines text.toList) a.start with
    | ok u t => rfl
    | error e t => rfl
  rw [hes]
  exact ⟨hrun, hsound⟩

/-- Of the expansions that reading a source performs, two have the same mark exactly when the same
line of a body invokes both, in two expansions of one macro. Expansions of one macro with different
marks share no local label. Where a macro that expands others is expanded only once, all marks are
different. -/
theorem marks_differ_unless_repeated [Interpreter] (a : Assembler) (text : String) :
    Recording.takeLines 1 "" none (Text.readLines text.toList) (a.start, []) =
      beside (expansions a text)
        (Asm.takeLines 1 "" none (Text.readLines text.toList) a.start) ∧
    (expansions a text).Nodup ∧
    (∀ d ∈ expansions a text, ∀ e ∈ expansions a text, d ≠ e →
      (d.mark = e.mark ↔ Repeated (expansions a text) d e)) ∧
    (∀ d ∈ expansions a text, ∀ e ∈ expansions a text, d.site.name = e.site.name →
      d.mark ≠ e.mark → ∀ x y, d.mark ++ x ≠ e.mark ++ y) ∧
    ((∀ d ∈ expansions a text, (∃ e ∈ expansions a text, e.outer = d.chain) →
        ∀ d' ∈ expansions a text, d'.site.name = d.site.name → d' = d) →
      ((expansions a text).map Expansion.mark).Nodup) := by
  obtain ⟨hrun, number, macros, h⟩ := sound_expansions a text
  generalize expansions a text = es at hrun h
  have hmark := h.record.marked
  have hnodup : es.Nodup := h.record.distinct.imp fun hchain heq => hchain (congrArg _ heq)
  have hiff : ∀ d ∈ es, ∀ e ∈ es, d ≠ e → (d.mark = e.mark ↔ Repeated es d e) := by
    intro d hd e he hne
    rw [hmark d hd, hmark e he]
    constructor
    · intro hsame
      obtain ⟨hname, hnumber⟩ := localMark_inj hsame
      have hsite : d.site = e.site := by
        obtain ⟨⟨_, _⟩, _, _⟩ := d
        obtain ⟨⟨_, _⟩, _, _⟩ := e
        cases hname
        cases hnumber
        rfl
      exact h.repeated hd he hne hsite
    · rintro ⟨hsite, -⟩
      rw [hsite]
  refine ⟨hrun, hnodup, hiff, ?_, ?_⟩
  · intro d hd e he hname hne x y
    rw [hmark d hd, hmark e he, hname] at hne ⊢
    exact label_ne (fun hnumber => hne (by rw [hnumber])) x y
  · intro honce
    refine hnodup.map_on fun d hd e he hsame => ?_
    by_contra hne
    obtain ⟨-, d', hd', e', he', hne', hname, hdouter, -⟩ := (hiff d hd e he hne).mp hsame
    exact hne' (honce d' hd' ⟨d, hd, hdouter⟩ e' he' hname.symm).symm

/-- A macro that is invoked twice at the top of a source. -/
def twice : String := ".macro ADD\naddq s0 s0 1\n.endm\nADD\nADD"

theorem marks_differ_unless_repeated_twice :
    (expansions {} twice).map Expansion.mark = ["ADD_4_", "ADD_5_"] ∧
      ((expansions {} twice).map Expansion.mark).Nodup := by
  have htop : ∀ d ∈ expansions {} twice, d.outer = [] := by decide +kernel
  refine ⟨by decide +kernel, (marks_differ_unless_repeated {} twice).2.2.2.2 ?_⟩
  rintro d hd ⟨e, he, houter⟩
  rw [htop e he] at houter
  cases houter

/-- A macro that is invoked in the body of another, which is invoked twice. -/
def nestedTwice : String := ".macro IN\naddq s0 s0 1\n.endm\n.macro OUT\nIN\n.endm\nOUT\nOUT"

/-- The line in the body invokes with the same mark each time. -/
theorem marks_repeat_nested : ¬ ∀ a text, ((expansions a text).map Expansion.mark).Nodup := by
  intro hclaim
  have hmarks : (expansions {} nestedTwice).map Expansion.mark =
      ["OUT_7_", "IN_5_", "OUT_8_", "IN_5_"] := by decide +kernel
  have hnodup := hclaim {} nestedTwice
  rw [hmarks] at hnodup
  exact absurd hnodup (by decide)

end TaskMachine.LocalMarks
