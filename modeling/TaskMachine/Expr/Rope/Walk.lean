import TaskMachine.Expr.Rope

/-!
# Walks through ropes

Searching a rope, mapping its items and taking a state through them. What a rope
repeats is looked at as few times as will do: once in a search, and until a
state no longer moves. Each walk says the same as it would on the list that the
rope stands for.
-/

namespace TaskMachine.Expr.Rope

variable {α β σ : Type}

/-- The first answer of a search through the items. Searching a repeated sequence once is
enough. -/
def findSome? (f : α → Option β) : Rope α → Option β
  | .leaf items => items.findSome? f
  | .node x y => (x.findSome? f).or (y.findSome? f)
  | .power count x => if count = 0 then none else x.findSome? f

/-- Whether all items are as asked. -/
def all (p : α → Bool) (r : Rope α) : Bool :=
  (r.findSome? fun a => if p a then none else some ()).isNone

/-- Each item replaced by the items of a list. -/
def flatMap (f : α → List β) : Rope α → Rope β
  | .leaf items => .leaf (items.flatMap f)
  | .node x y => append (x.flatMap f) (y.flatMap f)
  | .power count x => replicate count (x.flatMap f)

/-- A move made so often, or until it leaves the state as it is. -/
def settle (move : σ → Option σ) : Nat → σ → Option σ
  | 0, _ => none
  | n + 1, s =>
    match move s with
    | none => none
    | some s => some ((settle move n s).getD s)

/-- Takes a state through the items, list by list. There is no answer where the state stays as it
is, and a repeated sequence that leaves it so once is passed over. -/
def advance? (move : List α → σ → Option σ) : Rope α → σ → Option σ
  | .leaf items, s => move items s
  | .node x y, s =>
    match x.advance? move s with
    | none => y.advance? move s
    | some s => some ((y.advance? move s).getD s)
  | .power count x, s => settle (x.advance? move) count s

/-- The state after all items. -/
def advance (move : List α → σ → Option σ) (r : Rope α) (s : σ) : σ := (r.advance? move s).getD s

end TaskMachine.Expr.Rope
