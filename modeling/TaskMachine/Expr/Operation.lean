import TaskMachine.Expr.Comparison
import TaskMachine.Expr.Format
import TaskMachine.Expr.Tree
import TaskMachine.Text.Needle

/-!
# Operators of expressions

What the operators of Starlark do with values, and how items of lists and
dictionaries are found and replaced. An operation that does not apply to its
operands gives nothing.
-/

namespace TaskMachine.Expr

open Numeral

namespace Value

/-- What repetition must stay below, in bytes or items. -/
def repeatBound : Nat := 0x40000000

/-- A sequence repeated. Counts below one give the empty sequence, and only it may be repeated
any number of times. -/
def repeated? {α : Type} (items : Rope α) (count : Int) : Option (Rope α) :=
  if items.isEmpty then some .empty
  else do
    let n ← (Value.int count).toInt32?
    if n < 1 then some .empty
    else if repeatBound ≤ items.length * n.toNat then .none
    else some (.replicate n.toNat items)

/-- The operation on two numbers as floats. -/
def onFloats? (f : Float → Float → Float) (x y : Value) : Option Value := do
  let a ← x.toFloat?
  let b ← y.toFloat?
  return .float (f (Float.ofBits a) (Float.ofBits b)).toBits

/-- Sums of numbers, and texts and tuples one after the other. -/
def add? : Value → Value → Option Value
  | .int a, .int b => some (.int (a + b))
  | .text a, .text b => some (.text (.append a b))
  | .tuple a, .tuple b => some (.tuple (.append a b))
  | x, y => onFloats? (· + ·) x y

/-- Differences of numbers. -/
def sub? : Value → Value → Option Value
  | .int a, .int b => some (.int (a - b))
  | x, y => onFloats? (· - ·) x y

/-- Products of numbers, and repeated strings and tuples. -/
def mul? : Value → Value → Option Value
  | .int a, .int b => some (.int (a * b))
  | .text a, .int n => (repeated? a n).map .text
  | .int n, .text a => (repeated? a n).map .text
  | .octets a, .int n => (repeated? a n).map .octets
  | .int n, .octets a => (repeated? a n).map .octets
  | .tuple a, .int n => (repeated? a n).map .tuple
  | .int n, .tuple a => (repeated? a n).map .tuple
  | x, y => onFloats? (· * ·) x y

/-- Quotients of numbers as floats; there are none by zero. -/
def div? (x y : Value) : Option Value := do
  let b ← y.toFloat?
  if Float.ofBits b == 0 then .none else onFloats? (· / ·) x y

/-- Quotients rounded down; there are none by zero. -/
def floorDiv? : Value → Value → Option Value
  | .int a, .int b => if b = 0 then .none else some (.int (a.fdiv b))
  | x, y => do
    let b ← y.toFloat?
    if Float.ofBits b == 0 then .none else onFloats? (fun a b => (a / b).floor) x y

/-- The remainder of truncated division, with the sign of the dividend, for a divisor that is not
zero. Finite floats have an exact one. -/
def truncatedRem (a b : UInt64) : UInt64 :=
  let nan := UInt64.ofNat binary64.quietNan
  match binary64.decode a.toNat, binary64.decode b.toNat with
  | .finite negative ma qa, .finite _ mb qb =>
    let q := min qa qb
    let r := ma * twoPow (qa - q).toNat % (mb * twoPow (qb - q).toNat)
    match binary64.roundRatio negative (r * twoPow q.toNat) (twoPow (-q).toNat) with
    | some bits => UInt64.ofNat bits
    | .none => nan
  | .finite _ _ _, .infinite _ => a
  | _, _ => nan

/-- The remainder of floats with the sign of the divisor, unless it is zero. -/
def floatRem (a b : UInt64) : UInt64 :=
  let r := truncatedRem a b
  let below (bits : UInt64) : Bool := Float.ofBits bits < 0
  if below a != below b && Float.ofBits r != 0 then (Float.ofBits r + Float.ofBits b).toBits else r

/-- Remainders with the sign of the divisor, and format strings. -/
def rem? (heap : Heap) : Value → Value → Option Value
  | .int a, .int b => if b = 0 then .none else some (.int (a.fmod b))
  | .text f, v => (format? heap f v).map .text
  | x, y => do
    let a ← x.toFloat?
    let b ← y.toFloat?
    if Float.ofBits b == 0 then .none else return .float (floatRem a b)

/-- Bitwise operations on two's-complement integers without end. -/
def bitwise? (f : Nat → Nat → Nat) : Value → Value → Option Value
  | .int a, .int b =>
    let width := max a.natAbs.log2 b.natAbs.log2 + 2
    let low (n : Int) : Nat := (n % (twoPow width : Int)).toNat
    let r := f (low a) (low b)
    some (.int (if twoPow (width - 1) ≤ r then (r : Int) - twoPow width else r))
  | _, _ => .none

/-- Shifts by a count that is not negative; to the left the count is below 512. -/
def shift? (left : Bool) : Value → Value → Option Value
  | .int a, y => do
    let n ← y.toInt32?
    if n < 0 ∨ (left ∧ 512 ≤ n) then .none
    else if left then return .int (a * twoPow n.toNat)
    else return .int (a >>> n.toNat)
  | _, _ => .none

/-- Whether one string of bytes occurs in another. -/
def occurs (x y : Rope UInt8) : Bool :=
  if y.length < x.length then false
  else
    let needle := Text.Needle.ofBytes x.toList
    let move (bytes : List UInt8) (found : Nat) : Option Nat :=
      let further := needle.follow found bytes
      if further = found then .none else some further
    needle.isFound (y.advance move 0)

/-- Whether some item of a sequence equals a value, unless one before it is nested too deeply to
tell. -/
def isItem? (heap : Heap) (x : Value) (items : Rope Value) : Option Bool :=
  let answer := items.findSome? fun v =>
    match v.equal? heap x with
    | some false => .none
    | found => some found
  answer.getD (some false)

/-- Membership. What cannot be a key is in no dictionary. -/
def isIn? (heap : Heap) (x : Value) : Value → Option Bool
  | .tuple items => isItem? heap x items
  | .list place => isItem? heap x (heap.list place)
  | .dict place => some ((heap.dict place).get? x).isSome
  | .text bytes =>
    match x with
    | .text sub => some (occurs sub bytes)
    | _ => .none
  | .octets bytes =>
    match x with
    | .octets sub => some (occurs sub bytes)
    | .int n =>
      if 0 ≤ n ∧ n < 0x100 then some (occurs (.ofList [UInt8.ofNat n.toNat]) bytes) else .none
    | _ => .none
  | _ => .none

/-- The position that an index tells, which counts from the end when it is negative. -/
def position? (length : Nat) (i : Value) : Option Nat := do
  let n ← i.toInt32?
  let n := if n < 0 then n + length else n
  if 0 ≤ n ∧ n < length then some n.toNat else .none

/-- The item at an index. -/
def item? {α : Type} (items : Rope α) (i : Value) : Option α :=
  (position? items.length i).bind items.get?

/-- Indexing. -/
def index? (heap : Heap) : Value → Value → Option Value
  | .tuple items, i => item? items i
  | .list place, i => item? (heap.list place) i
  | .dict place, key => (heap.dict place).get? key
  | .text bytes, i => (item? bytes i).map fun b => .text (.ofList [b])
  | .octets bytes, i => (item? bytes i).map fun b => .octets (.ofList [b])
  | _, _ => .none

/-- Replaces an item of a list, or puts a value into a dictionary. -/
def setItem? (heap : Heap) (container i v : Value) : Option Heap :=
  match container with
  | .list place =>
    let items := heap.list place
    (position? items.length i).map fun n => heap.setList place (items.set n v)
  | .dict place => ((heap.dict place).insert? i v).map (heap.setDict place)
  | _ => .none

/-- What two values give that are neither two lists nor two dictionaries, or are compared. -/
def combine? (heap : Heap) (op : Operator) (x y : Value) : Option Value :=
  let ordered (p : Ordering → Bool) : Option Value := (x.order? heap y).map fun o => .bool (p o)
  match op with
  | .or => some (if x.truth heap then x else y)
  | .and => some (if x.truth heap then y else x)
  | .eq => (x.equal? heap y).map .bool
  | .ne => (x.equal? heap y).map fun b => .bool (!b)
  | .lt => ordered (· == .lt)
  | .gt => ordered (· == .gt)
  | .le => ordered (· != .gt)
  | .ge => ordered (· != .lt)
  | .isIn => (x.isIn? heap y).map .bool
  | .notIn => (x.isIn? heap y).map fun b => .bool (!b)
  | .bitOr => bitwise? Nat.lor x y
  | .bitXor => bitwise? Nat.xor x y
  | .bitAnd => bitwise? Nat.land x y
  | .shl => shift? true x y
  | .shr => shift? false x y
  | .sub => x.sub? y
  | .add => x.add? y
  | .mul => x.mul? y
  | .rem => x.rem? heap y
  | .div => x.div? y
  | .floorDiv => x.floorDiv? y

/-- An operator applied to two values. Sums and products of lists are new lists, and unions of
dictionaries new dictionaries. -/
def operate (op : Operator) (x y : Value) : Action Value := do
  let heap ← get
  match op, x, y with
  | .add, .list a, .list b => Action.newList (.append (heap.list a) (heap.list b))
  | .mul, .list a, .int n => Action.newList (← repeated? (heap.list a) n)
  | .mul, .int n, .list a => Action.newList (← repeated? (heap.list a) n)
  | .bitOr, .dict a, .dict b =>
    Action.newDict ((heap.dict a).insertAll (heap.dict b).entries.toList)
  | _, _, _ => combine? heap op x y

/-- An operator applied to the value of a target that gets the outcome. A list grows by the items
of anything that has items, and a dictionary by the entries of another. -/
def operateInPlace (op : Operator) (x y : Value) : Action Value := do
  let heap ← get
  match op, x, y, y.items? heap with
  | .add, .list a, _, some items =>
    set (heap.setList a (.append (heap.list a) items))
    return x
  | .bitOr, .dict a, .dict b, _ =>
    set (heap.setDict a ((heap.dict a).insertAll (heap.dict b).entries.toList))
    return x
  | _, _, _, _ => operate op x y

end Value

end TaskMachine.Expr
