/-!
# Ropes

The sequences of the interpreter. A finite sequence is kept as it was built: from
lists, by putting one sequence after another, and by repeating one. Repetition
costs nothing until the items are needed one by one. The list that `toList` gives
is what a rope stands for.

`append` and `replicate` build ropes without empty parts, and put short parts
together in one list. So a rope never has more parts than items, however it was
built.
-/

namespace TaskMachine.Expr

/-- A sequence by its construction. -/
inductive Rope (α : Type) where
  | leaf (items : List α)
  | node (x y : Rope α)
  | power (count : Nat) (x : Rope α)
with
  /-- The number of items. It is kept with each part, so that asking for it takes no search. -/
  @[computed_field] length : (α : Type) → Rope α → Nat
  | _, .leaf items => items.length
  | _, .node x y => x.length + y.length
  | _, .power count x => count * x.length
  deriving Repr

namespace Rope

variable {α : Type}

/-- The sequence of the items of a list. -/
def ofList (items : List α) : Rope α := .leaf items

/-- The sequence without items. -/
def empty : Rope α := .leaf []

/-- The items in order, before those of a list. -/
def toListOnto : Rope α → List α → List α
  | .leaf items, tail => items ++ tail
  | .node x y, tail => x.toListOnto (y.toListOnto tail)
  | .power count x, tail => Nat.repeat (fun rest => x.toListOnto rest) count tail

/-- The items in order. -/
def toList (r : Rope α) : List α := r.toListOnto []

/-- Whether there are no items. -/
def isEmpty (r : Rope α) : Bool := r.length == 0

/-- How many items are kept in one list rather than in parts. -/
def leafSize : Nat := 128

/-- Two sequences in one list, if they are short. -/
def glue? (x y : Rope α) : Option (Rope α) :=
  if x.length + y.length ≤ leafSize then some (.leaf (x.toList ++ y.toList)) else none

/-- One sequence after the other. Short ones share a list with their neighbours. -/
def append (x y : Rope α) : Rope α :=
  if x.isEmpty then y
  else if y.isEmpty then x
  else
    match glue? x y, x, y with
    | some r, _, _ => r
    | none, .node a b, y =>
      match glue? b y with
      | some r => .node a r
      | none => .node (.node a b) y
    | none, x, .node a b =>
      match glue? x a with
      | some r => .node r b
      | none => .node x (.node a b)
    | none, x, y => .node x y

/-- A sequence repeated. Of a short one as many copies share a list as fit. -/
def replicate (count : Nat) (x : Rope α) : Rope α :=
  if count * x.length = 0 then .empty
  else
    let fit := leafSize / x.length
    if fit ≤ 1 then .power count x
    else
      let copies (n : Nat) : Rope α := .leaf (Rope.power n x).toList
      append (.power (count / fit) (copies fit)) (copies (count % fit))

/-- The item at a position. -/
def get? : Rope α → Nat → Option α
  | .leaf items, i => items[i]?
  | .node x y, i => if i < x.length then x.get? i else y.get? (i - x.length)
  | .power count x, i => if i < count * x.length then x.get? (i % x.length) else none

/-- The sequence with the item at a position replaced. A repeated sequence is taken apart around
that position only. -/
def set : Rope α → Nat → α → Rope α
  | .leaf items, i, a => .leaf (items.set i a)
  | .node x y, i, a =>
    if i < x.length then .node (x.set i a) y else .node x (y.set (i - x.length) a)
  | .power count x, i, a =>
    if i < count * x.length then
      let before := i / x.length
      append (replicate before x)
        (append (x.set (i % x.length) a) (replicate (count - (before + 1)) x))
    else .power count x

end Rope

end TaskMachine.Expr
