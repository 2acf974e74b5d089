import Mathlib.Logic.Basic
import TaskMachine.Expr.Script
import TaskMachine.Proofs.Expr.Scanning

/-!
# Scripts see only the names in them

The interpreter `Expr.starlark` is lexical. The parser makes up no names: those of the
trees that it builds are among the tokens, and so they stand in the script. Resolving
and evaluating a tree looks up no other names either, so that a script comes to the
same under all definitions that agree on the names in it.
-/

namespace TaskMachine.Names

open TaskMachine.Expr Scanning

/-! ## Names of trees -/

mutual

/-- All names that a tree looks up have a property. -/
def Within (N : String → Prop) : Tree → Prop
  | .name s => N s
  | .int _ | .float _ | .text _ | .octets _ => True
  | .list items | .tuple items => AllWithin N items
  | .dict keys values => AllWithin N keys ∧ AllWithin N values
  | .unary _ x | .attribute x _ | .named _ x => Within N x
  | .binary _ x y | .index x y => Within N x ∧ Within N y
  | .choice c x y => Within N c ∧ Within N x ∧ Within N y
  | .call f args => Within N f ∧ AllWithin N args

def AllWithin (N : String → Prop) : List Tree → Prop
  | [] => True
  | x :: xs => Within N x ∧ AllWithin N xs

end

variable {N : String → Prop}

theorem allWithin_iff {xs : List Tree} : AllWithin N xs ↔ ∀ x ∈ xs, Within N x := by
  induction xs with
  | nil => exact iff_of_true trivial nofun
  | cons x xs ih => rw [AllWithin, ih, List.forall_mem_cons]

/-! ## Looking names up -/

section Lookup

variable {known known' : String → Bool} {env env' : String → Option Value}

mutual

theorem resolves_congr (h : ∀ s, N s → known s = known' s) (t : Tree) (ht : Within N t) :
    t.resolves known = t.resolves known' := by
  match t with
  | .name s => exact h s ht
  | .int _ | .float _ | .text _ | .octets _ => rfl
  | .list items | .tuple items => exact resolvesAll_congr h items ht
  | .dict keys values =>
    exact congrArg₂ and (resolvesAll_congr h keys ht.1) (resolvesAll_congr h values ht.2)
  | .unary _ x | .attribute x _ | .named _ x => exact resolves_congr h x ht
  | .binary _ x y | .index x y =>
    exact congrArg₂ and (resolves_congr h x ht.1) (resolves_congr h y ht.2)
  | .choice c x y =>
    simp only [Tree.resolves, resolves_congr h c ht.1, resolves_congr h x ht.2.1,
      resolves_congr h y ht.2.2]
  | .call f args =>
    simp only [Tree.resolves, resolves_congr h f ht.1, resolvesAll_congr h args ht.2]

theorem resolvesAll_congr (h : ∀ s, N s → known s = known' s) (ts : List Tree)
    (hts : AllWithin N ts) : Tree.resolvesAll known ts = Tree.resolvesAll known' ts := by
  match ts with
  | [] => rfl
  | t :: ts =>
    exact congrArg₂ and (resolves_congr h t hts.1) (resolvesAll_congr h ts hts.2)

end

mutual

theorem isTarget_congr (h : ∀ s, N s → known s = known' s) (t : Tree) (ht : Within N t) :
    t.isTarget known = t.isTarget known' := by
  match t with
  | .index x i => exact congrArg₂ and (resolves_congr h x ht.1) (resolves_congr h i ht.2)
  | .attribute x _ => exact resolves_congr h x ht
  | .list items | .tuple items => exact areTargets_congr h items ht
  | .name _ | .int _ | .float _ | .text _ | .octets _ | .dict _ _ | .unary _ _ | .binary _ _ _
  | .choice _ _ _ | .call _ _ | .named _ _ => rfl

theorem areTargets_congr (h : ∀ s, N s → known s = known' s) (ts : List Tree)
    (hts : AllWithin N ts) : Tree.areTargets known ts = Tree.areTargets known' ts := by
  match ts with
  | [] => rfl
  | t :: ts => exact congrArg₂ and (isTarget_congr h t hts.1) (areTargets_congr h ts hts.2)

end

mutual

theorem eval_congr (h : ∀ s, N s → env s = env' s) (t : Tree) (ht : Within N t) :
    t.eval env = t.eval env' := by
  match t with
  | .name s => simp only [Tree.eval, h s ht]
  | .int _ | .float _ | .text _ | .octets _ => rfl
  | .list items | .tuple items => simp only [Tree.eval, evalAll_congr h items ht]
  | .dict keys values =>
    simp only [Tree.eval, evalAll_congr h keys ht.1, evalAll_congr h values ht.2]
  | .unary _ x | .named _ x => simp only [Tree.eval, eval_congr h x ht]
  | .attribute _ _ => rfl
  | .binary _ x y | .index x y =>
    simp only [Tree.eval, eval_congr h x ht.1, eval_congr h y ht.2]
  | .choice c x y =>
    simp only [Tree.eval, eval_congr h c ht.1, eval_congr h x ht.2.1, eval_congr h y ht.2.2]
  | .call f args =>
    simp only [Tree.eval, eval_congr h f ht.1, evalAll_congr h args ht.2]

theorem evalAll_congr (h : ∀ s, N s → env s = env' s) (ts : List Tree) (hts : AllWithin N ts) :
    Tree.evalAll env ts = Tree.evalAll env' ts := by
  match ts with
  | [] => rfl
  | t :: ts => simp only [Tree.evalAll, eval_congr h t hts.1, evalAll_congr h ts hts.2]

end

end Lookup

/-! ## Carrying statements out -/

/-- The scopes differ at most in what the surroundings define for names without the property. -/
structure Agree (N : String → Prop) (scope scope' : Scope) : Prop where
  bound : scope'.bound = scope.bound
  values : scope'.values = scope.values
  outer : ∀ s, N s → scope.outer s = scope'.outer s

theorem Agree.get? {scope scope' : Scope} (h : Agree N scope scope') (s : String) (hs : N s) :
    scope.get? s = scope'.get? s := by
  unfold Scope.get?
  rw [h.bound, h.values, h.outer s hs]

theorem Agree.knows {scope scope' : Scope} (h : Agree N scope scope') (s : String) (hs : N s) :
    scope.knows s = scope'.knows s := by
  unfold Scope.knows
  rw [h.bound, h.outer s hs]

theorem Agree.bind {scope scope' : Scope} (h : Agree N scope scope') (s : String) (v : Value) :
    Agree N (scope.bind s v) (scope'.bind s v) where
  bound := h.bound
  values := congrArg ((s, v) :: ·) h.values
  outer := h.outer

/-- From one heap, both actions fail, or both end at one heap and in scopes that agree. -/
def Alongside (N : String → Prop) (x x' : Action Scope) : Prop :=
  ∀ heap, Option.Rel (fun p p' => Agree N p.1 p'.1 ∧ p'.2 = p.2) (x heap) (x' heap)

namespace Alongside

theorem pure {scope scope' : Scope} (h : Agree N scope scope') :
    Alongside N (Pure.pure scope) (Pure.pure scope') :=
  fun _ => .some ⟨h, rfl⟩

theorem none : Alongside N (fun _ => Option.none) (fun _ => Option.none) := fun _ => .none

/-- What comes before is the same for both. -/
theorem after {α : Type} (y : Action α) {f f' : α → Action Scope}
    (h : ∀ a, Alongside N (f a) (f' a)) : Alongside N (y >>= f) (y >>= f') := by
  intro heap
  change Option.Rel _ ((y heap).bind fun p => f p.1 p.2) ((y heap).bind fun p => f' p.1 p.2)
  cases y heap with
  | none => exact .none
  | some p => exact h p.1 p.2

theorem bind {x x' : Action Scope} {f f' : Scope → Action Scope} (hx : Alongside N x x')
    (h : ∀ scope scope', Agree N scope scope' → Alongside N (f scope) (f' scope')) :
    Alongside N (x >>= f) (x' >>= f') := by
  intro heap
  change Option.Rel _ ((x heap).bind fun p => f p.1 p.2) ((x' heap).bind fun p => f' p.1 p.2)
  have hrel := hx heap
  generalize x heap = r at hrel ⊢
  generalize x' heap = r' at hrel ⊢
  cases hrel with
  | none => exact .none
  | some hp =>
    obtain ⟨hscope, hheap⟩ := hp
    rw [Option.bind_some, Option.bind_some, hheap]
    exact h _ _ hscope _

end Alongside

mutual

theorem assign_alongside {scope scope' : Scope} (h : Agree N scope scope') (t : Tree)
    (ht : Within N t) (v : Value) : Alongside N (t.assign scope v) (t.assign scope' v) := by
  match t with
  | .name s => exact .pure (h.bind s v)
  | .index x i =>
    simp only [Tree.assign, eval_congr h.get? x ht.1, eval_congr h.get? i ht.2]
    exact .after _ fun _ => .after _ fun _ => .after _ fun _ => .after _ fun _ =>
      .after _ fun _ => .pure h
  | .list targets | .tuple targets =>
    refine .after _ fun _ => .after _ fun items => ?_
    split
    · exact assignAll_alongside h targets ht items.toList
    · exact .none
  | .int _ | .float _ | .text _ | .octets _ | .dict _ _ | .unary _ _ | .binary _ _ _
  | .choice _ _ _ | .attribute _ _ | .call _ _ | .named _ _ => exact .none

theorem assignAll_alongside {scope scope' : Scope} (h : Agree N scope scope') (ts : List Tree)
    (hts : AllWithin N ts) (vs : List Value) :
    Alongside N (Tree.assignAll scope ts vs) (Tree.assignAll scope' ts vs) := by
  match ts, vs with
  | [], _ => exact .pure h
  | _ :: _, [] => exact .pure h
  | t :: ts, v :: vs =>
    exact (assign_alongside h t hts.1 v).bind fun _ _ hnext =>
      assignAll_alongside hnext ts hts.2 vs

end

theorem augment_alongside {scope scope' : Scope} (h : Agree N scope scope') {t x : Tree}
    (ht : Within N t) (hx : Within N x) (op : Operator) :
    Alongside N (t.augment scope op x) (t.augment scope' op x) := by
  unfold Tree.augment
  split
  · simp only [eval_congr h.get? _ ht.1, eval_congr h.get? _ ht.2, eval_congr h.get? x hx]
    exact .after _ fun _ => .after _ fun _ => .after _ fun _ => .after _ fun _ =>
      .after _ fun _ => .after _ fun _ => .after _ fun _ => .after _ fun _ => .after _ fun _ =>
        .pure h
  · simp only [eval_congr h.get? t ht, eval_congr h.get? x hx]
    exact .after _ fun _ => .after _ fun _ => .after _ fun _ => assign_alongside h t ht _

/-- All names that a statement looks up have a property. -/
def StatementWithin (N : String → Prop) : Statement → Prop
  | .assign target x => Within N target ∧ Within N x
  | .augment target _ x => Within N target ∧ Within N x
  | .bare x => Within N x
  | _ => True

theorem statement_resolves_congr {known known' : String → Bool}
    (h : ∀ s, N s → known s = known' s) {s : Statement} (hs : StatementWithin N s) :
    s.resolves known = s.resolves known' := by
  cases s with
  | assign target x =>
    simp only [Statement.resolves, isTarget_congr h target hs.1, resolves_congr h x hs.2]
  | augment target op x =>
    simp only [Statement.resolves, isTarget_congr h target hs.1, resolves_congr h x hs.2]
  | bare x => exact resolves_congr h x hs
  | pass | load names | misplaced => rfl

theorem execute_alongside {scope scope' : Scope} (h : Agree N scope scope') {s : Statement}
    (hs : StatementWithin N s) : Alongside N (s.execute scope) (s.execute scope') := by
  cases s with
  | assign target x =>
    simp only [Statement.execute, eval_congr h.get? x hs.2]
    exact .after _ fun v => assign_alongside h target hs.1 v
  | augment target op x => exact augment_alongside h hs.1 hs.2 op
  | bare x =>
    simp only [Statement.execute, eval_congr h.get? x hs]
    exact .after _ fun _ => .pure h
  | pass => exact .pure h
  | load names | misplaced => exact .none

/-- A list of statements, by induction on it. -/
theorem executeAll_alongside {statements : List Statement}
    (hall : ∀ s ∈ statements, StatementWithin N s) {scope scope' : Scope}
    (h : Agree N scope scope') :
    Alongside N (statements.foldlM Statement.execute scope)
      (statements.foldlM Statement.execute scope') := by
  induction statements generalizing scope scope' with
  | nil => exact .pure h
  | cons s statements ih =>
    obtain ⟨hs, hrest⟩ := List.forall_mem_cons.mp hall
    rw [List.foldlM_cons, List.foldlM_cons]
    exact (execute_alongside h hs).bind fun _ _ hnext => ih hrest hnext

/-! ## Parsing -/

/-- What is parsed, if anything, is as it should be, and so is what is left of the tokens. -/
def Yields {α : Type} (N : String → Prop) (P : α → Prop) (r : Option (α × List Token)) : Prop :=
  ∀ x rest, r = some (x, rest) → P x ∧ Fine N rest

/-- What is left of the tokens, if anything, is as it should be. -/
def Leaves (N : String → Prop) (r : Option (List Token)) : Prop :=
  ∀ rest, r = some rest → Fine N rest

section Parts

variable {α β : Type} {P : α → Prop} {Q : β → Prop}

theorem Yields.none : Yields N P none := nofun

theorem Yields.some {x : α} {rest : List Token} (hx : P x) (hrest : Fine N rest) :
    Yields N P (some (x, rest)) := by
  intro y rest' h
  cases h
  exact ⟨hx, hrest⟩

theorem Yields.bind {r : Option (α × List Token)} {f : α × List Token → Option (β × List Token)}
    (hr : Yields N P r) (hf : ∀ x rest, P x → Fine N rest → Yields N Q (f (x, rest))) :
    Yields N Q (r >>= f) := by
  cases r with
  | none => exact nofun
  | some p =>
    obtain ⟨hx, hrest⟩ := hr p.1 p.2 rfl
    exact hf p.1 p.2 hx hrest

theorem Yields.after {r : Option (List Token)} {f : List Token → Option (β × List Token)}
    (hr : Leaves N r) (hf : ∀ rest, Fine N rest → Yields N Q (f rest)) : Yields N Q (r >>= f) := by
  cases r with
  | none => exact nofun
  | some rest => exact hf rest (hr rest rfl)

theorem Yields.ite {c : Prop} [Decidable c] {r r' : Option (α × List Token)} (h : Yields N P r)
    (h' : Yields N P r') : Yields N P (if c then r else r') := by
  split
  · exact h
  · exact h'

theorem Yields.leaves {r : Option (α × List Token)} {f : α × List Token → Option (List Token)}
    (hr : Yields N P r) (hf : ∀ x rest, Fine N rest → Leaves N (f (x, rest))) :
    Leaves N (r >>= f) := by
  cases r with
  | none => exact nofun
  | some p => exact hf p.1 p.2 (hr p.1 p.2 rfl).2

theorem Leaves.after {r : Option (List Token)} {f : List Token → Option (List Token)}
    (hr : Leaves N r) (hf : ∀ rest, Fine N rest → Leaves N (f rest)) : Leaves N (r >>= f) := by
  cases r with
  | none => exact nofun
  | some rest => exact hf rest (hr rest rfl)

theorem Leaves.some {ts : List Token} (h : Fine N ts) : Leaves N (some ts) := by
  intro rest hrest
  cases hrest
  exact h

theorem Leaves.ite {c : Prop} [Decidable c] {r r' : Option (List Token)} (h : Leaves N r)
    (h' : Leaves N r') : Leaves N (if c then r else r') := by
  split
  · exact h
  · exact h'

end Parts

theorem leaves_expect (m : String) {ts : List Token} (h : Fine N ts) :
    Leaves N (Tree.expect m ts) := by
  intro rest hrest
  unfold Tree.expect at hrest
  split at hrest
  · split at hrest
    · cases hrest
      exact h.tail
    · cases hrest
  · cases hrest

theorem fine_operator? {ts rest : List Token} {op : Operator} {n : Nat} (h : Fine N ts)
    (hop : Tree.operator? ts = some (op, n, rest)) : Fine N rest := by
  unfold Tree.operator? at hop
  split at hop
  · cases hop
    exact h.tail.tail
  · obtain ⟨p, -, hp⟩ := Option.map_eq_some_iff.mp hop
    cases hp
    exact h.tail
  · cases hop

/-- What the parsers of expressions make of tokens, with so many calls nested. -/
structure Parses (N : String → Prop) (fuel : Nat) : Prop where
  test {ts} : Fine N ts → Yields N (Within N) (Tree.test fuel ts)
  operand level {ts} : Fine N ts → Yields N (Within N) (Tree.operand fuel level ts)
  operators level first {x ts} : Within N x → Fine N ts →
    Yields N (Within N) (Tree.operators fuel level first x ts)
  primary {ts} : Fine N ts → Yields N (Within N) (Tree.primary fuel ts)
  entries {ts} : Fine N ts →
    Yields N (∀ e ∈ ·, Within N e.1 ∧ Within N e.2) (Tree.entries fuel ts)
  suffixes {x ts} : Within N x → Fine N ts → Yields N (Within N) (Tree.suffixes fuel x ts)
  arguments first {ts} : Fine N ts → Yields N (AllWithin N) (Tree.arguments fuel first ts)
  argument {ts} : Fine N ts → Yields N (Within N) (Tree.argument fuel ts)
  moreItems trailing {ts} : Fine N ts → Yields N (AllWithin N) (Tree.moreItems fuel trailing ts)
  expression trailing {ts} : Fine N ts → Yields N (Within N) (Tree.expression fuel trailing ts)

namespace Parses

theorem zero : Parses N 0 where
  test _ := nofun
  operand _ _ := nofun
  operators _ _ _ _ := nofun
  primary _ := nofun
  entries _ := nofun
  suffixes _ _ := nofun
  arguments _ _ := nofun
  argument _ := nofun
  moreItems _ _ := nofun
  expression _ _ := nofun

variable {fuel : Nat} (ih : Parses N fuel)

include ih

theorem succ_test {ts : List Token} (h : Fine N ts) :
    Yields N (Within N) (Tree.test (fuel + 1) ts) := by
  rw [Tree.test]
  refine (ih.operand 0 h).bind fun x ts hx hts => .ite ?_ (.some hx hts)
  refine (ih.operand 0 (hts.drop 1)).bind fun c ts hc hts => ?_
  refine .after (leaves_expect _ hts) fun ts hts => ?_
  exact (ih.test hts).bind fun y ts hy hts => .some ⟨hc, hx, hy⟩ hts

theorem succ_operand (level : Nat) {ts : List Token} (h : Fine N ts) :
    Yields N (Within N) (Tree.operand (fuel + 1) level ts) := by
  rw [Tree.operand]
  refine .ite ?_ (.ite ?_ ?_)
  · split
    · rename_i x ts' hprimary
      obtain ⟨hx, hts⟩ := ih.primary h x ts' hprimary
      exact ih.suffixes hx hts
    · exact .none
  · exact (ih.operand _ (h.drop 1)).bind fun x ts hx hts => .some hx hts
  · exact (ih.operand _ h).bind fun x ts hx hts => ih.operators _ _ hx hts

theorem succ_operators (level : Nat) (first : Bool) {x : Tree} {ts : List Token}
    (hx : Within N x) (h : Fine N ts) :
    Yields N (Within N) (Tree.operators (fuel + 1) level first x ts) := by
  rw [Tree.operators]
  split
  · exact .some hx h
  · rename_i op n rest hop
    refine .ite (.some hx h) (.ite .none ?_)
    refine (ih.operand _ (fine_operator? h hop)).bind fun y ts hy hts => ?_
    exact ih.operators _ _ ⟨hx, hy⟩ hts

theorem succ_primary {ts : List Token} (h : Fine N ts) :
    Yields N (Within N) (Tree.primary (fuel + 1) ts) := by
  cases ts with
  | nil => exact nofun
  | cons t ts =>
    have hts := h.tail
    rw [Tree.primary.eq_def]
    cases t with
    | name s => exact .some (h s List.mem_cons_self) hts
    | int _ | float _ | text _ | octets _ => exact .some trivial hts
    | lineEnd | indent | outdent => exact .none
    | mark op =>
      refine .ite (.ite (.some trivial (hts.drop 1)) ?_)
        (.ite (.ite (.some trivial (hts.drop 1)) ?_)
        (.ite (.ite (.some ⟨trivial, trivial⟩ (hts.drop 1)) ?_) ?_))
      · refine (ih.expression _ hts).bind fun x ts hx hts => ?_
        exact .after (leaves_expect _ hts) fun ts hts => .some hx hts
      · refine (ih.test hts).bind fun x ts hx hts => ?_
        refine (ih.moreItems _ hts).bind fun items ts hitems hts => ?_
        exact .after (leaves_expect _ hts) fun ts hts => .some ⟨hx, hitems⟩ hts
      · refine (ih.entries hts).bind fun entries ts hentries hts => .some ⟨?_, ?_⟩ hts
        · rw [allWithin_iff, List.forall_mem_map]
          exact fun e he => (hentries e he).1
        · rw [allWithin_iff, List.forall_mem_map]
          exact fun e he => (hentries e he).2
      · cases Tree.sign? op with
        | none => exact .none
        | some sign =>
          refine (ih.primary hts).bind fun x ts hx hts => ?_
          exact (ih.suffixes hx hts).bind fun x ts hx hts => .some hx hts

theorem succ_entries {ts : List Token} (h : Fine N ts) :
    Yields N (∀ e ∈ ·, Within N e.1 ∧ Within N e.2) (Tree.entries (fuel + 1) ts) := by
  rw [Tree.entries]
  refine (ih.test h).bind fun key ts hkey hts => .after (leaves_expect _ hts) fun ts hts => ?_
  refine (ih.test hts).bind fun value ts hvalue hts => ?_
  have hone : ∀ e ∈ [(key, value)], Within N e.1 ∧ Within N e.2 :=
    List.forall_mem_singleton.mpr ⟨hkey, hvalue⟩
  refine .ite (.some hone (hts.drop 1)) (.after (leaves_expect _ hts) fun ts hts => ?_)
  refine .ite (.some hone (hts.drop 1)) ((ih.entries hts).bind fun rest ts hrest hts => ?_)
  exact .some (List.forall_mem_cons.mpr ⟨⟨hkey, hvalue⟩, hrest⟩) hts

theorem succ_suffixes {x : Tree} {ts : List Token} (hx : Within N x) (h : Fine N ts) :
    Yields N (Within N) (Tree.suffixes (fuel + 1) x ts) := by
  rw [Tree.suffixes.eq_def]
  dsimp only
  split
  · exact ih.suffixes hx h.tail.tail
  · refine (ih.expression _ h.tail).bind fun i ts hi hts => ?_
    exact .after (leaves_expect _ hts) fun ts hts => ih.suffixes ⟨hx, hi⟩ hts
  · exact (ih.arguments _ h.tail).bind fun args ts hargs hts => ih.suffixes ⟨hx, hargs⟩ hts
  · exact .some hx h

theorem succ_arguments (first : Bool) {ts : List Token} (h : Fine N ts) :
    Yields N (AllWithin N) (Tree.arguments (fuel + 1) first ts) := by
  rw [Tree.arguments]
  refine .ite (.some trivial (h.drop 1)) ?_
  dsimp only
  refine .ite (.after (.some h) fun ts hts => ?_) (.after (leaves_expect _ h) fun ts hts => ?_)
  all_goals
    refine .ite (.some trivial (hts.drop 1)) ((ih.argument hts).bind fun x ts hx hts => ?_)
    exact (ih.arguments _ hts).bind fun rest ts hrest hts => .some ⟨hx, hrest⟩ hts

theorem succ_argument {ts : List Token} (h : Fine N ts) :
    Yields N (Within N) (Tree.argument (fuel + 1) ts) := by
  rw [Tree.argument.eq_def]
  dsimp only
  split
  · exact (ih.test h.tail.tail).bind fun x ts hx hts => .some hx hts
  · exact ih.test h

theorem succ_moreItems (trailing : Bool) {ts : List Token} (h : Fine N ts) :
    Yields N (AllWithin N) (Tree.moreItems (fuel + 1) trailing ts) := by
  rw [Tree.moreItems]
  refine .ite (.ite (.ite (.some trivial (h.drop 1)) .none) ?_) (.some trivial h)
  refine (ih.test (h.drop 1)).bind fun x ts hx hts => ?_
  exact (ih.moreItems _ hts).bind fun items ts hitems hts => .some ⟨hx, hitems⟩ hts

theorem succ_expression (trailing : Bool) {ts : List Token} (h : Fine N ts) :
    Yields N (Within N) (Tree.expression (fuel + 1) trailing ts) := by
  rw [Tree.expression]
  refine (ih.test h).bind fun x ts hx hts => .ite ?_ (.some hx hts)
  exact (ih.moreItems _ hts).bind fun items ts hitems hts => .some ⟨hx, hitems⟩ hts

theorem succ : Parses N (fuel + 1) where
  test := ih.succ_test
  operand := ih.succ_operand
  operators := ih.succ_operators
  primary := ih.succ_primary
  entries := ih.succ_entries
  suffixes := ih.succ_suffixes
  arguments := ih.succ_arguments
  argument := ih.succ_argument
  moreItems := ih.succ_moreItems
  expression := ih.succ_expression

end Parses

/-- The parsers of expressions make up no names, by induction on how deep calls nest. -/
theorem parses (fuel : Nat) : Parses N fuel := by
  induction fuel with
  | zero => exact .zero
  | succ fuel ih => exact ih.succ

/-! ## Statements -/

theorem loadedNames?_fine {ts : List Token} (h : Fine N ts) :
    Yields N (fun _ => True) (Statement.loadedNames? ts) := by
  fun_induction Statement.loadedNames? ts with
  | case1 ts => exact .some trivial h.tail
  | case2 ts => exact .some trivial h.tail.tail
  | case3 content ts ih => exact (ih h.tail.tail).bind fun _ _ _ hts => .some trivial hts
  | case4 s content ts ih =>
    exact (ih h.tail.tail.tail.tail).bind fun _ _ _ hts => .some trivial hts
  | case5 ts => exact .none

theorem load?_within {ts : List Token} (h : Fine N ts) :
    Yields N (StatementWithin N) (Statement.load? ts) := by
  unfold Statement.load?
  split
  · exact (loadedNames?_fine h.tail.tail).bind fun _ _ _ hts => .ite .none (.some trivial hts)
  · exact .none

section Lines

variable {ts : List Token} (fuel : Nat) (h : Fine N ts)

include h

theorem assignment?_within : Yields N (StatementWithin N) (Statement.assignment? fuel ts) := by
  refine ((parses fuel).expression false h).bind fun x ts hx hts => ?_
  dsimp only
  split
  · refine .ite ?_ ?_
    · refine ((parses fuel).expression false hts.tail).bind fun y ts hy hts => ?_
      exact .some ⟨hx, hy⟩ hts
    · split
      · refine ((parses fuel).expression false hts.tail).bind fun y ts hy hts => ?_
        exact .some ⟨hx, hy⟩ hts
      · exact .some hx hts
  · exact .some hx hts

theorem returned?_within : Yields N (StatementWithin N) (Statement.returned? fuel ts) := by
  unfold Statement.returned?
  split
  · exact .some trivial h
  · exact .some trivial h
  · rw [Option.map_eq_bind]
    exact ((parses fuel).expression false h).bind fun _ _ _ hts => .some trivial hts

theorem small?_within : Yields N (StatementWithin N) (Statement.small? fuel ts) := by
  unfold Statement.small?
  split
  · refine .ite (.some trivial h.tail) (.ite (.some trivial h.tail) (.ite ?_ (.ite ?_ ?_)))
    · exact returned?_within fuel h.tail
    · exact load?_within h.tail
    · exact assignment?_within fuel h
  · exact assignment?_within fuel h

theorem line?_within : Yields N (StatementWithin N) (Statement.line? fuel ts) := by
  refine (small?_within fuel h).bind fun s ts hs hts => ?_
  dsimp only
  split
  · exact .some hs hts
  · exact .some hs hts.tail
  · exact .none

theorem afterVariables?_fine : Leaves N (Statement.afterVariables? fuel ts) := by
  induction fuel generalizing ts with
  | zero => exact nofun
  | succ fuel ih =>
    refine ((parses fuel).operand _ h).leaves fun _ _ hts => .ite (ih (hts.drop 1)) (.some hts)

end Lines

/-- What the parsers of statements that govern blocks leave of tokens. -/
structure Skips (N : String → Prop) (fuel : Nat) : Prop where
  control {ts} : Fine N ts → ∀ r, Statement.afterControl? fuel ts = some r → Leaves N r
  branch {ts} : Fine N ts → Leaves N (Statement.afterBranch? fuel ts)
  alternatives {ts} : Fine N ts → Leaves N (Statement.afterAlternatives? fuel ts)
  block {ts} : Fine N ts → Leaves N (Statement.afterBlock? fuel ts)
  lines {ts} : Fine N ts → Leaves N (Statement.afterLines? fuel ts)

namespace Skips

theorem zero : Skips N 0 where
  control _ := nofun
  branch _ := nofun
  alternatives _ := nofun
  block _ := nofun
  lines _ := nofun

variable {fuel : Nat} (ih : Skips N fuel)

include ih

theorem succ_control {ts : List Token} (h : Fine N ts) (r : Option (List Token))
    (hr : Statement.afterControl? (fuel + 1) ts = some r) : Leaves N r := by
  rw [Statement.afterControl?.eq_def] at hr
  dsimp only at hr
  split at hr
  · have hrest := h.tail
    split at hr
    · cases hr
      exact .after (ih.branch hrest) fun _ hts => ih.alternatives hts
    split at hr
    · cases hr
      exact ih.branch hrest
    split at hr
    · cases hr
      refine .after (afterVariables?_fine fuel hrest) fun _ hts => ?_
      refine .after (leaves_expect _ hts) fun _ hts => ?_
      refine ((parses fuel).expression false hts).leaves fun _ _ hts => ?_
      exact .after (leaves_expect _ hts) fun _ hts => ih.block hts
    · cases hr
  · cases hr

theorem succ_branch {ts : List Token} (h : Fine N ts) :
    Leaves N (Statement.afterBranch? (fuel + 1) ts) := by
  rw [Statement.afterBranch?]
  refine ((parses fuel).test h).leaves fun _ _ hts => ?_
  exact .after (leaves_expect _ hts) fun _ hts => ih.block hts

theorem succ_alternatives {ts : List Token} (h : Fine N ts) :
    Leaves N (Statement.afterAlternatives? (fuel + 1) ts) := by
  rw [Statement.afterAlternatives?]
  refine .ite (.after (ih.branch (h.drop 1)) fun _ hts => ih.alternatives hts) (.ite ?_ (.some h))
  exact .after (leaves_expect _ (h.drop 1)) fun _ hts => ih.block hts

theorem succ_block {ts : List Token} (h : Fine N ts) :
    Leaves N (Statement.afterBlock? (fuel + 1) ts) := by
  rw [Statement.afterBlock?.eq_def]
  dsimp only
  split
  · exact ih.lines h.tail.tail
  · rw [Option.map_eq_bind]
    exact (line?_within fuel h).leaves fun _ _ hts => .some hts

theorem succ_lines {ts : List Token} (h : Fine N ts) :
    Leaves N (Statement.afterLines? (fuel + 1) ts) := by
  rw [Statement.afterLines?.eq_def]
  dsimp only
  split
  · exact .some h.tail
  · split
    · rename_i r hr
      exact .after (ih.control h r hr) fun _ hts => ih.lines hts
    · refine .after ?_ fun _ hts => ih.lines hts
      rw [Option.map_eq_bind]
      exact (line?_within fuel h).leaves fun _ _ hts => .some hts

theorem succ : Skips N (fuel + 1) where
  control := ih.succ_control
  branch := ih.succ_branch
  alternatives := ih.succ_alternatives
  block := ih.succ_block
  lines := ih.succ_lines

end Skips

theorem skips (fuel : Nat) : Skips N fuel := by
  induction fuel with
  | zero => exact .zero
  | succ fuel ih => exact ih.succ

/-- The statements that tokens make up look up no names but those among the tokens. -/
theorem all?_within (fuel : Nat) {ts : List Token} (h : Fine N ts) {statements : List Statement}
    (hall : Statement.all? fuel ts = some statements) :
    ∀ s ∈ statements, StatementWithin N s := by
  induction fuel generalizing ts statements with
  | zero => cases hall
  | succ fuel ih =>
    rw [Statement.all?.eq_def] at hall
    dsimp only at hall
    split at hall
    · cases hall
      exact nofun
    · exact ih h.tail hall
    · split at hall
      · rename_i r hr
        obtain ⟨ts', hts', hbehind⟩ := Option.bind_eq_some_iff.mp hall
        obtain ⟨rest, hrest, hdone⟩ := Option.bind_eq_some_iff.mp hbehind
        cases hdone
        have hts' := (skips fuel).control h r hr ts' hts'
        exact List.forall_mem_cons.mpr ⟨trivial, ih hts' hrest⟩
      · obtain ⟨⟨s, ts'⟩, hline, hall⟩ := Option.bind_eq_some_iff.mp hall
        obtain ⟨rest, hrest, hdone⟩ := Option.bind_eq_some_iff.mp hall
        cases hdone
        obtain ⟨hs, hts'⟩ := line?_within fuel h s ts' hline
        exact List.forall_mem_cons.mpr ⟨hs, ih hts' hrest⟩

/-! ## Scripts -/

theorem parse_within {script : List Char} {statements : List Statement}
    (h : Statement.parse script = some statements) :
    ∀ s ∈ statements, StatementWithin (· ∈ names script) s := by
  obtain ⟨ts, hscan, hall⟩ := Option.bind_eq_some_iff.mp h
  exact all?_within _ (fine_scan hscan) hall

/-- A script comes to the same under all definitions that agree on the names in it. -/
theorem lexical_starlark : @Interpreter.Lexical starlark := by
  intro defined defined' script name h
  have hlookup (s : String) (hs : s ∈ names script) : lookup defined s = lookup defined' s := by
    unfold lookup
    rw [h s hs]
  change evaluate defined script name = evaluate defined' script name
  unfold evaluate
  cases hparse : Statement.parse script with
  | none => rfl
  | some statements =>
    have hwithin := parse_within hparse
    have hagree : Agree (· ∈ names script)
        { outer := lookup defined, bound := statements.flatMap Statement.bound }
        { outer := lookup defined', bound := statements.flatMap Statement.bound } :=
      ⟨rfl, rfl, hlookup⟩
    have hresolves : statements.all (Statement.resolves (Scope.knows
          { outer := lookup defined, bound := statements.flatMap Statement.bound })) =
        statements.all (Statement.resolves (Scope.knows
          { outer := lookup defined', bound := statements.flatMap Statement.bound })) := by
      rw [Bool.eq_iff_iff, List.all_eq_true, List.all_eq_true]
      exact forall₂_congr fun s hs => by
        rw [statement_resolves_congr hagree.knows (hwithin s hs)]
    have hrun := executeAll_alongside hwithin hagree {}
    dsimp only [StateT.run]
    rw [hresolves]
    generalize List.foldlM Statement.execute _ statements {} = r at hrun ⊢
    generalize List.foldlM Statement.execute _ statements {} = r' at hrun ⊢
    cases hrun with
    | none => rfl
    | some hp =>
      dsimp only
      rw [hp.1.values]

end TaskMachine.Names
