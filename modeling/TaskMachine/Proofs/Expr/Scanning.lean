import Mathlib.Data.List.TakeWhile
import TaskMachine.Expr.Token

/-!
# Names stand in the text

A name that the scanner finds in a text is one of the longest stretches of it that
have only characters of names. For a name ends where no such character follows, and
it begins behind one that no name has: whatever else is a token ends in such a
character, but for reserved words, which end like names, and numbers, behind which
only a reserved word may follow at once.
-/

namespace TaskMachine.Scanning

open TaskMachine.Expr Token

/-! ## Runs -/

theorem runs_of_forall {cs : List Char} (hne : cs ≠ []) (h : ∀ c ∈ cs, isNamePart c = true) :
    runs cs = [cs] := by
  have hsep : ∀ c ∈ cs, (!isNamePart c) = false := fun c hc => by rw [h c hc, Bool.not_true]
  unfold runs
  rw [List.splitOnP_eq_singleton hsep]
  exact List.filter_cons_of_pos (decide_eq_true hne)

theorem eq_of_mem_runs {cs w : List Char} (h : ∀ c ∈ cs, isNamePart c = true) (hw : w ∈ runs cs) :
    w = cs := by
  cases cs with
  | nil => exact absurd hw List.not_mem_nil
  | cons c cs => rwa [runs_of_forall (List.cons_ne_nil c cs) h, List.mem_singleton] at hw

/-- Behind its first characters of names, a text is at its end or goes on with another one. -/
theorem dropWhile_cases (cs : List Char) :
    cs.dropWhile isNamePart = [] ∨
      ∃ c rest, isNamePart c = false ∧ cs.dropWhile isNamePart = c :: rest := by
  cases h : cs.dropWhile isNamePart with
  | nil => exact .inl rfl
  | cons c rest =>
    refine .inr ⟨c, rest, ?_, rfl⟩
    have := List.head_dropWhile_not isNamePart (l := cs) (by rw [h]; exact List.cons_ne_nil _ _)
    simpa [h] using this

/-- A text has the run that it begins with, and those behind. -/
theorem runs_eq (cs : List Char) :
    runs cs = runs (cs.takeWhile isNamePart) ++ runs (cs.dropWhile isNamePart) := by
  conv => lhs; rw [← List.takeWhile_append_dropWhile (p := isNamePart) (l := cs)]
  obtain hnil | ⟨c, rest, hc, hcons⟩ := dropWhile_cases cs
  · rw [hnil, runs_nil, List.append_nil, List.append_nil]
  · rw [hcons, runs_append_cons _ hc, runs_cons hc]

/-! ## What is left of a text -/

/-- What is left of a text that is being scanned: it has no other runs than the text, but that it
may begin in the middle of one with a reserved word. -/
structure Left (whole rest : List Char) : Prop where
  first : ∀ w ∈ runs (rest.takeWhile isNamePart), String.ofList w ∈ reserved ∨ w ∈ runs whole
  others : runs (rest.dropWhile isNamePart) ⊆ runs whole

variable {whole rest : List Char}

theorem Left.of_subset (h : runs rest ⊆ runs whole) : Left whole rest := by
  rw [runs_eq, List.append_subset] at h
  exact ⟨fun w hw => .inr (h.1 hw), h.2⟩

theorem Left.refl (whole : List Char) : Left whole whole := .of_subset (List.Subset.refl _)

theorem Left.nil (whole : List Char) : Left whole [] := .of_subset (List.nil_subset _)

/-- Behind a character that no name has, all runs are runs of the text. -/
theorem Left.behind {c : Char} (pre : List Char) (h : Left whole (pre ++ c :: rest))
    (hc : isNamePart c = false) : runs rest ⊆ runs whole := by
  have hothers := h.others
  rw [List.dropWhile_append] at hothers
  split at hothers
  · rwa [List.dropWhile_cons_of_neg (by simp [hc]), runs_cons hc] at hothers
  · rw [runs_append_cons _ hc, List.append_subset] at hothers
    exact hothers.2

theorem Left.after {c : Char} (pre : List Char) (h : Left whole (pre ++ c :: rest))
    (hc : isNamePart c = false) : Left whole rest := .of_subset (h.behind _ hc)

/-- The text may be cut where no name begins. -/
theorem Left.cut {pre : List Char} (h : Left whole (pre ++ rest))
    (hfirst : ∀ w ∈ runs (rest.takeWhile isNamePart), String.ofList w ∈ reserved) :
    Left whole rest := by
  refine ⟨fun w hw => .inl (hfirst w hw), ?_⟩
  obtain hnil | ⟨c, rest', hc, hcons⟩ := dropWhile_cases rest
  · rw [hnil]
    exact List.nil_subset _
  · rw [hcons, runs_cons hc]
    rw [← List.takeWhile_append_dropWhile (p := isNamePart) (l := rest), hcons,
      ← List.append_assoc] at h
    exact h.behind _ hc

/-- The text may be cut before a character that no name has. -/
theorem Left.before {c : Char} (pre : List Char) (h : Left whole (pre ++ c :: rest))
    (hc : isNamePart c = false) : Left whole (c :: rest) :=
  .of_subset (runs_cons hc rest ▸ h.behind _ hc)

theorem Left.dropWhile {cs : List Char} {p : Char → Bool} (pre : List Char)
    (h : Left whole (pre ++ cs)) (hp : ∀ c, p c = false → isNamePart c = false) :
    Left whole (cs.dropWhile p) := by
  rw [← List.takeWhile_append_dropWhile (p := p) (l := cs), ← List.append_assoc] at h
  cases hrest : cs.dropWhile p with
  | nil => exact .nil whole
  | cons c rest =>
    have hc := List.head_dropWhile_not p (l := cs) (by rw [hrest]; exact List.cons_ne_nil _ _)
    simp only [hrest, List.head_cons] at hc
    rw [hrest] at h
    exact h.before _ (hp c hc)

/-! ## Tokens -/

/-- All names among the tokens have a property. -/
def Fine (N : String → Prop) (ts : List Token) : Prop := ∀ s, .name s ∈ ts → N s

section Fine

variable {N : String → Prop} {t : Token} {ts : List Token}

theorem Fine.tail (h : Fine N (t :: ts)) : Fine N ts :=
  fun s hs => h s (List.mem_cons_of_mem t hs)

theorem Fine.drop (h : Fine N ts) (n : Nat) : Fine N (ts.drop n) :=
  fun s hs => h s (List.mem_of_mem_drop hs)

theorem Fine.cons (ht : ∀ s, t = .name s → N s) (hts : Fine N ts) : Fine N (t :: ts) := by
  intro s hs
  obtain hhead | htail := List.mem_cons.mp hs
  · exact ht s hhead.symm
  · exact hts s htail

end Fine

/-- What is found at the head of a text that is left: a token that, if it is a name, stands in the
text, and what is left behind it. -/
def Finds (whole : List Char) (r : Option (Token × List Char)) : Prop :=
  ∀ t rest, r = some (t, rest) → (∀ s, t = .name s → s ∈ names whole) ∧ Left whole rest

theorem literal?_eq_some {q : Quoting} {skip : Nat} {cs : List Char} {acc : List UInt8} {t : Token}
    (h : literal? q skip cs acc = some (t, rest)) :
    (∀ s, t ≠ .name s) ∧ ∃ pre, cs = pre ++ q.quote :: rest := by
  induction cs generalizing skip acc with
  | nil => cases h
  | cons c cs ih =>
    have hlater {skip : Nat} {acc : List UInt8} (h : literal? q skip cs acc = some (t, rest)) :
        (∀ s, t ≠ .name s) ∧ ∃ pre, c :: cs = pre ++ q.quote :: rest := by
      obtain ⟨ht, pre, rfl⟩ := ih h
      exact ⟨ht, c :: pre, rfl⟩
    cases skip with
    | succ k => exact hlater h
    | zero =>
      unfold literal? at h
      dsimp only at h
      split_ifs at h with hends _ _ hraw
      · cases h
        refine ⟨fun s hs => ?_, ?_⟩
        · unfold Quoting.token at hs
          split_ifs at hs
        · obtain ⟨rest, hrest⟩ := List.isPrefixOf_iff_prefix.mp hends
          rw [← hrest, List.drop_left]
          unfold Quoting.marks
          split_ifs
          · exact ⟨[q.quote, q.quote], rfl⟩
          · exact ⟨[], rfl⟩
      · split at h
        · cases h
        · exact hlater h
      · split at h
        · cases h
        · split at h
          · exact hlater h
          · split at h
            · exact hlater h
            · cases h
      · exact hlater h

/-- A string literal ends in its quote. -/
theorem finds_quoted? {cs : List Char} {r : Option (Token × List Char)} (h : Left whole cs)
    (hr : quoted? cs = some r) : Finds whole r := by
  -- The quote comes behind the marks of the literal, if there are any.
  have hbody (marks : List Char) {body : List Char} {quote : Char} {raw anyBytes : Bool}
      (hcs : cs = marks ++ quote :: body)
      (hbody : (if quote = '"' ∨ quote = '\'' then
          let tripled := [quote, quote].isPrefixOf body
          some (literal? ⟨quote, tripled, raw, anyBytes⟩ 0
            (if tripled then body.drop 2 else body) [])
        else none) = some r) : Finds whole r := by
    split_ifs at hbody with hquote
    cases hbody
    intro t rest hfound
    obtain ⟨ht, pre, hpre⟩ := literal?_eq_some hfound
    refine ⟨fun s hs => absurd hs (ht s), ?_⟩
    obtain ⟨before, hbefore⟩ : ∃ before, body = before ++ quote :: rest := by
      split_ifs at hpre
      · exact ⟨body.take 2 ++ pre, by rw [List.append_assoc, ← hpre, List.take_append_drop]⟩
      · exact ⟨pre, hpre⟩
    rw [hcs, hbefore, ← List.cons_append, ← List.append_assoc] at h
    exact h.after _ (by obtain rfl | rfl := hquote <;> decide)
  unfold quoted? at hr
  dsimp only at hr
  split at hr
  · cases hr
  · rename_i heq
    split at heq
    · exact hbody ['r', 'b'] (by rw [← heq]; rfl) hr
    · exact hbody ['r'] (by rw [← heq]; rfl) hr
    · exact hbody ['b'] (by rw [← heq]; rfl) hr
    · exact hbody [] heq hr

/-- What is read is a number, and what follows it is the end of the text. -/
def ReadsNumber (cs : List Char) (r : Option (Token × List Char)) : Prop :=
  ∀ t rest, r = some (t, rest) → (∀ s, t ≠ .name s) ∧ rest <:+ cs

theorem readsNumber_markedInt? (base : Nat) (cs : List Char) :
    ReadsNumber cs (markedInt? base cs) := by
  intro t rest h
  unfold markedInt? at h
  dsimp only at h
  split_ifs at h
  cases h
  exact ⟨nofun, List.dropWhile_suffix _⟩

theorem suffix_of_exponentChars? {cs exponent : List Char}
    (h : exponentChars? cs = some (exponent, rest)) : rest <:+ cs := by
  unfold exponentChars? at h
  split at h
  · cases h
    exact List.suffix_refl _
  · rename_i e cs
    split_ifs at h
    · dsimp only at h
      split_ifs at h
      cases h
      refine (List.dropWhile_suffix _).trans (.trans ?_ (List.suffix_cons e cs))
      split
      · split_ifs
        · exact List.suffix_cons _ _
        · exact List.suffix_refl _
      · exact List.suffix_refl _
    · cases h
      exact List.suffix_refl _

theorem readsNumber_plainNumber? (cs : List Char) : ReadsNumber cs (plainNumber? cs) := by
  intro t rest h
  unfold plainNumber? at h
  dsimp only at h
  split at h
  · cases h
  · rename_i exponent behind hexponent
    have hbehind : behind <:+ cs := by
      refine (suffix_of_exponentChars? hexponent).trans ?_
      split
      · rename_i tail htail
        refine (List.dropWhile_suffix _).trans (.trans (List.suffix_cons '.' tail) ?_)
        rw [← htail]
        exact List.dropWhile_suffix _
      · exact List.dropWhile_suffix _
    split_ifs at h
    · cases h
      exact ⟨nofun, hbehind⟩
    · obtain ⟨bits, -, hbits⟩ := Option.map_eq_some_iff.mp h
      cases hbits
      exact ⟨nofun, hbehind⟩

theorem readsNumber_number? (cs : List Char) : ReadsNumber cs (number? cs) := by
  have hmarked (base : Nat) (m : Char) (cs : List Char) :
      ReadsNumber ('0' :: m :: cs) (markedInt? base cs) := by
    intro t rest h
    obtain ⟨ht, hrest⟩ := readsNumber_markedInt? base cs t rest h
    exact ⟨ht, hrest.trans ((List.suffix_cons m cs).trans (List.suffix_cons '0' _))⟩
  unfold number?
  split
  · split_ifs
    · exact hmarked _ _ _
    · exact hmarked _ _ _
    · exact hmarked _ _ _
    · exact readsNumber_plainNumber? _
  · exact readsNumber_plainNumber? _

theorem finds_number? {cs : List Char} (h : Left whole cs) :
    Finds whole ((number? cs).filter fun (_, rest) => endsNumber rest) := by
  intro t rest hfound
  obtain ⟨hnumber, hends⟩ := Option.filter_eq_some_iff.mp hfound
  obtain ⟨ht, pre, rfl⟩ := readsNumber_number? cs t rest hnumber
  refine ⟨fun s hs => absurd hs (ht s), h.cut fun w hw => ?_⟩
  simp only [endsNumber, Bool.or_eq_true, decide_eq_true_eq] at hends
  obtain hnil | hreserved := hends
  · rw [hnil] at hw
    exact absurd hw List.not_mem_nil
  · rwa [eq_of_mem_runs (fun c => List.mem_takeWhile_imp) hw]

theorem finds_operator? {cs : List Char} (h : Left whole cs) : Finds whole (operator? cs) := by
  have hmarks : ∀ op ∈ operators, (op.toList.getLast?.map isNamePart) = some false := by decide
  intro t rest hfound
  obtain ⟨op, hop, hmark⟩ := Option.map_eq_some_iff.mp hfound
  cases hmark
  refine ⟨nofun, ?_⟩
  obtain ⟨c, hlast, hc⟩ := Option.map_eq_some_iff.mp (hmarks op (List.mem_of_find?_eq_some hop))
  obtain ⟨pre, hpre⟩ := List.getLast?_eq_some_iff.mp hlast
  have hprefix := List.find?_some hop
  obtain ⟨behind, rfl⟩ := List.isPrefixOf_iff_prefix.mp hprefix
  rw [← String.length_toList, List.drop_left]
  rw [hpre, List.append_assoc] at h
  exact h.after _ hc

/-- A name that begins a text that is left stands in the text, unless it is reserved. -/
theorem finds_name {c : Char} {cs : List Char} (h : Left whole (c :: cs))
    (hc : isNameStart c = true) :
    let word := String.ofList (c :: cs.takeWhile isNamePart)
    Finds whole (some (if word ∈ reserved then .mark word else .name word,
      cs.dropWhile isNamePart)) := by
  intro word t rest hfound
  cases hfound
  have hpart : isNamePart c = true := by rw [isNamePart, hc, Bool.true_or]
  have hfirst : (c :: cs).takeWhile isNamePart = c :: cs.takeWhile isNamePart :=
    List.takeWhile_cons_of_pos hpart
  refine ⟨fun s hs => ?_, .dropWhile [c] h fun _ hd => hd⟩
  split_ifs at hs with hreserved
  cases hs
  have hrun : c :: cs.takeWhile isNamePart ∈ runs ((c :: cs).takeWhile isNamePart) := by
    rw [runs_of_forall (by rw [hfirst]; exact List.cons_ne_nil _ _)
      fun d => List.mem_takeWhile_imp, hfirst]
    exact List.mem_singleton_self _
  exact List.mem_map_of_mem ((h.first _ hrun).resolve_left hreserved)

/-! ## Scanning -/

theorem isNamePart_of_isLineEnd {c : Char} (h : isLineEnd c = true) : isNamePart c = false := by
  simp only [isLineEnd, Bool.or_eq_true, decide_eq_true_eq] at h
  obtain rfl | rfl := h <;> decide

theorem isNamePart_of_isBlank {c : Char} (h : isBlank c = true) : isNamePart c = false := by
  simp only [isBlank, Bool.or_eq_true, decide_eq_true_eq] at h
  obtain rfl | rfl := h <;> decide

theorem left_afterComment {cs : List Char} (pre : List Char) (h : Left whole (pre ++ cs)) :
    Left whole (afterComment cs) := by
  refine h.dropWhile pre fun c hc => ?_
  simp only [Bool.and_eq_false_iff, Bool.not_eq_false', decide_eq_false_iff_not,
    Classical.not_not] at hc
  obtain hend | rfl := hc
  · exact isNamePart_of_isLineEnd hend
  · decide

theorem left_skipBlankLines (fuel : Nat) {cs : List Char} (h : Left whole cs) :
    Left whole (skipBlankLines fuel cs) := by
  induction fuel generalizing cs with
  | zero => exact h
  | succ fuel ih =>
    have hline : ∀ c rest, Left whole (c :: rest) →
        Left whole (if isLineEnd c then skipBlankLines fuel rest else []) := by
      intro c rest hline
      split_ifs with hc
      · exact ih (hline.after [] (isNamePart_of_isLineEnd hc))
      · exact .nil whole
    unfold skipBlankLines
    dsimp only
    split
    · exact .nil whole
    · rename_i c rest hrest
      have hleft : Left whole (cs.takeWhile isBlank ++ c :: rest) := by
        rwa [← hrest, List.takeWhile_append_dropWhile]
      split
      · have hbehind : Left whole (afterComment rest) :=
          left_afterComment (cs.takeWhile isBlank ++ [c]) (by rwa [List.append_assoc])
        split
        · rename_i d rest' hend
          exact hline d rest' (hend ▸ hbehind)
        · exact .nil whole
      · split
        · rename_i hend
          refine hline c rest (hleft.before _ ?_)
          obtain hend | rfl := hend
          · exact isNamePart_of_isLineEnd hend
          · decide
        · exact h

theorem fine_openLine? {N : String → Prop} {margins margins' : List Nat} {width : Nat}
    {blocks : List Token} (h : openLine? margins width = some (margins', blocks)) :
    Fine N blocks := by
  unfold openLine? at h
  dsimp only at h
  split at h
  · cases h
  · split_ifs at h
    · cases h
      intro s hs
      cases List.eq_of_mem_replicate hs
    · cases h
      intro s hs
      cases List.mem_singleton.mp hs

theorem fine_finish {N : String → Prop} (margins : List Nat) {acc : List Token} (h : Fine N acc) :
    Fine N (finish margins acc) := by
  intro s hs
  obtain hs | hs := List.mem_append.mp hs
  · have hmem := List.mem_reverse.mp hs
    split_ifs at hmem
    · exact h s hmem
    · exact (h.cons nofun) s hmem
  · cases List.eq_of_mem_replicate hs

/-- All names that the scanner finds stand in the text. -/
theorem fine_scanFrom {fuel depth : Nat} {margins : List Nat} {cs : List Char}
    {acc ts : List Token} (h : scanFrom fuel depth margins cs acc = some ts)
    (hleft : Left whole cs) (hacc : Fine (· ∈ names whole) acc) : Fine (· ∈ names whole) ts := by
  induction fuel generalizing depth margins cs acc with
  | zero =>
    cases cs with
    | nil =>
      cases h
      exact fine_finish margins hacc
    | cons c cs => cases h
  | succ fuel ih =>
    cases cs with
    | nil =>
      cases h
      exact fine_finish margins hacc
    | cons c cs =>
      -- Every token goes on in the same way, whichever it is.
      have hnext {r : Option (Token × List Char)} {token : Token} {rest : List Char}
          (hr : Finds whole r) (hfound : r = some (token, rest))
          (h : scanFrom fuel (depthAfter depth token) margins rest (token :: acc) = some ts) :
          Fine (· ∈ names whole) ts := by
        obtain ⟨htoken, hrest⟩ := hr token rest hfound
        exact ih h hrest (hacc.cons htoken)
      unfold scanFrom at h
      dsimp only at h
      split at h
      · cases h
        exact fine_finish margins hacc
      split at h
      · rename_i r hquoted
        split at h
        · exact hnext (finds_quoted? hleft hquoted) rfl h
        · cases h
      split at h
      · rename_i hblank
        exact ih h (hleft.after [] (isNamePart_of_isBlank hblank)) hacc
      split at h
      · exact ih h (left_afterComment [c] hleft) hacc
      split at h
      · split at h
        · cases h
        · rename_i d rest
          split at h
          · rename_i hend
            exact ih h (hleft.after [c] (isNamePart_of_isLineEnd hend)) hacc
          · cases h
      split at h
      · rename_i hend
        have hbehind : Left whole cs := hleft.after [] (isNamePart_of_isLineEnd hend)
        split at h
        · exact ih h hbehind hacc
        split at h
        · cases h
          exact fine_finish margins (hacc.cons nofun)
        · rename_i d rest hskip
          split at h
          · cases h
          · rename_i margins' blocks hopen
            have hline : Left whole (d :: rest) := hskip ▸ left_skipBlankLines fuel hbehind
            refine ih h hline fun s hs => ?_
            obtain hs | hs := List.mem_append.mp hs
            · exact fine_openLine? hopen s hs
            · exact (hacc.cons nofun) s hs
      split at h
      · split at h
        · exact hnext (finds_number? hleft) ‹_› h
        · cases h
      split at h
      · rename_i hstart
        exact hnext (finds_name hleft hstart) rfl h
      · split at h
        · exact hnext (finds_operator? hleft) ‹_› h
        · cases h

theorem fine_scan {cs : List Char} {ts : List Token} (h : scan cs = some ts) :
    Fine (· ∈ names cs) ts := fine_scanFrom h (.refl cs) nofun

end TaskMachine.Scanning
