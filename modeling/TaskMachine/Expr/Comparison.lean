import TaskMachine.Expr.Heap

/-!
# Comparing values

How Starlark compares. Lists and tuples compare item by item, and dictionaries by
what they hold under their keys, but not to any depth: a list may even be its own
item. Besides equality and order, this says which values count as true and which
have items.
-/

namespace TaskMachine.Expr

namespace Value

/-- Whether a value counts as true. -/
def truth (heap : Heap) : Value → Bool
  | .none => false
  | .bool b => b
  | .int n => n ≠ 0
  | .float bits => Float.ofBits bits != 0
  | .text bytes => !bytes.isEmpty
  | .octets bytes => !bytes.isEmpty
  | .tuple items => !items.isEmpty
  | .list place => !(heap.list place).isEmpty
  | .dict place => (heap.dict place).size ≠ 0
  | .builtin _ => true

/-- The items that a value lists; a dictionary lists its keys. -/
def items? (heap : Heap) : Value → Option (Rope Value)
  | .tuple items => some items
  | .list place => some (heap.list place)
  | .dict place => some (heap.dict place).keys
  | _ => .none

/-- Whether a dictionary holds equal values under all the keys of some entries. -/
def equalEntries? (equal : Value → Value → Option Bool) (d : Dict) :
    List (Value × Value) → Option Bool
  | [] => some true
  | (key, v) :: rest =>
    match d.get? key with
    | .none => some false
    | some w =>
      match equal v w with
      | some true => equalEntries? equal d rest
      | answer => answer

/-- Whether two dictionaries hold equal values under the same keys. Different sizes settle it at
once. -/
def equalDicts? (equal : Value → Value → Option Bool) (a b : Dict) : Option Bool :=
  if a.size = b.size then equalEntries? equal b a.entries.toList else some false

/-- Whether two values are equal, without going deeper than a number of levels. -/
def equalWithin? (heap : Heap) : Nat → Value → Value → Option Bool
  | 0, _, _ => .none
  | depth + 1, x, y =>
    equalUsing? (equalWithin? heap depth)
      (fun a b => equalRopes? (equalWithin? heap depth) (heap.list a) (heap.list b))
      (fun a b => equalDicts? (equalWithin? heap depth) (heap.dict a) (heap.dict b)) x y

/-- The order of two sequences of values: the first unequal items decide, or else the lengths. -/
def orderRopes? (equal : Value → Value → Option Bool) (order : Value → Value → Option Ordering)
    (x y : Rope Value) : Option Ordering :=
  let unequal (a b : Value) : Option (Option Ordering) :=
    match equal a b with
    | some true => .none
    | some false => some (order a b)
    | .none => some .none
  (x.zipFindSome? unequal y).getD (some (compare x.length y.length))

/-- The order of two values, for kinds that have one, without going deeper than a number of
levels. -/
def orderWithin? (heap : Heap) : Nat → Value → Value → Option Ordering
  | 0, _, _ => .none
  | depth + 1, x, y =>
    let ofItems (a b : Rope Value) : Option Ordering :=
      orderRopes? (equalWithin? heap depth) (orderWithin? heap depth) a b
    match x, y with
    | .bool a, .bool b => some (compare a.toNat b.toNat)
    | .int a, .int b => some (compare a b)
    | .int a, .float b => some (orderIntFloat a b)
    | .float a, .int b => some (orderIntFloat b a).swap
    | .float a, .float b => some (orderFloats a b)
    | .text a, .text b => some (orderBytes a b)
    | .octets a, .octets b => some (orderBytes a b)
    | .tuple a, .tuple b => ofItems a b
    | .list a, .list b => ofItems (heap.list a) (heap.list b)
    | _, _ => .none

/-- Whether two values are equal; nothing if they are nested too deeply to tell. -/
def equal? (heap : Heap) (x y : Value) : Option Bool := equalWithin? heap comparisonDepth x y

/-- The order of two values, for kinds that have one. -/
def order? (heap : Heap) (x y : Value) : Option Ordering := orderWithin? heap comparisonDepth x y

end Value

end TaskMachine.Expr
