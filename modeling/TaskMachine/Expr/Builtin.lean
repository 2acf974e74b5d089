import TaskMachine.Expr.Operation
import TaskMachine.Numeral.Literal
import TaskMachine.Numeral.Radix

/-!
# Built-in functions

What some functions that every Starlark expression may call do with their
arguments, of which some may be given by name. A call that does not fit gives
nothing, and neither does one of the functions that are only known by name here.
-/

namespace TaskMachine.Expr

open Numeral

namespace Value

/-- What a search for the item whose key comes furthest has come to. -/
inductive Extreme where
  /-- There was no item yet. -/
  | empty
  /-- The best item so far, with its key. -/
  | best (key item : Value)
  /-- Some item has no key, or keys have no order. -/
  | failed

namespace Extreme

/-- Looks at one more item; there is no answer if that changes nothing. -/
def step? (heap : Heap) (direction : Ordering) (key : Value → Option Value) (s : Extreme)
    (x : Value) : Option Extreme :=
  match s, key x with
  | .failed, _ => .none
  | _, .none => some .failed
  | .empty, some k => some (.best k x)
  | .best k _, some k' =>
    match k'.order? heap k with
    | .none => some .failed
    | some o => if o == direction then some (.best k' x) else .none

/-- Looks at more items; there is no answer if that changes nothing. -/
def move? (heap : Heap) (direction : Ordering) (key : Value → Option Value) (items : List Value)
    (s : Extreme) : Option Extreme :=
  items.foldl (fun moved x => ((moved.getD s).step? heap direction key x).or moved) .none

/-- The best item. -/
def item? : Extreme → Option Value
  | .best _ x => some x
  | _ => .none

end Extreme

/-- The first item whose key comes furthest in a direction. -/
def extreme? (heap : Heap) (direction : Ordering) (key : Value → Option Value)
    (items : Rope Value) : Option Value :=
  (items.advance (Extreme.move? heap direction key) .empty).item?

/-- Reads an integer from text in a base, zero meaning the base that the text itself marks. -/
def readInt? (base : Nat) (cs : List Char) : Option Int :=
  let (negative, body) := splitSign cs
  let marked : Option (Nat × List Char) :=
    match body with
    | '0' :: m :: d :: ds =>
      if m = 'o' ∨ m = 'O' then some (8, d :: ds)
      else if m = 'x' ∨ m = 'X' then some (16, d :: ds)
      else if m = 'b' ∨ m = 'B' then some (2, d :: ds)
      else .none
    | _ => .none
  let digits? : Option (Nat × List Char) :=
    match marked with
    | some (b, ds) => if base = 0 ∨ b = base then some (b, ds) else some (base, body)
    | .none =>
      match body with
      | '0' :: _ :: _ => if base = 0 then (if body.all (· = '0') then some (10, body) else .none)
                         else some (base, body)
      | _ => some (if base = 0 then 10 else base, body)
  match digits? with
  | some (b, ds) =>
    if ds = [] then .none
    else do
      let values ← ds.mapM fun c => (digitValue? c).filter (· < b)
      let n := ofDigits b values
      return if negative then -(n : Int) else n
  | .none => .none

/-- Whether a text has no more than two characters that are no digits of a base, which for zero
is the highest that a text can mark. No integer has more: there is a sign, and a letter that marks
the base. -/
def isMostlyDigits (base : Nat) (bytes : Rope UInt8) : Bool :=
  let highest := if base = 0 then 16 else base
  let isDigit (b : UInt8) : Bool := (digitValue? (Char.ofNat b.toNat)).any (· < highest)
  let move (bytes : List UInt8) (others : Nat) : Option Nat :=
    let more := min 3 (others + bytes.countP fun b => !isDigit b)
    if more = others then .none else some more
  bytes.advance move 0 < 3

/-- Conversion to an integer, from text in a base. -/
def toInt? : Value → Option Value → Option Value
  | .text bytes, base => do
    let b ← (base.getD (.int 10)).toInt32?
    if b = 0 ∨ (2 ≤ b ∧ b ≤ 36) then
      if isMostlyDigits b.toNat bytes then
        (readInt? b.toNat (bytes.toList.map fun c => Char.ofNat c.toNat)).map .int
      else .none
    else .none
  | .bool b, .none => some (.int b.toNat)
  | v, .none => v.wholePart?.map .int
  | _, some _ => .none

/-- The functions that take one argument, and `min` and `max` of several. -/
def callPlain? (heap : Heap) (name : String) (args : List Value) : Option Value :=
  match name, args with
  | "len", [.text bytes] => some (.int bytes.length)
  | "len", [.octets bytes] => some (.int bytes.length)
  | "len", [v] => (v.items? heap).map fun items => .int items.length
  | "abs", [.int n] => some (.int n.natAbs)
  | "abs", [.float bits] => some (.float (Float.ofBits bits).abs.toBits)
  | "min", [v] => (v.items? heap).bind fun items => extreme? heap .lt some items
  | "min", vs => extreme? heap .lt some (.ofList vs)
  | "max", [v] => (v.items? heap).bind fun items => extreme? heap .gt some items
  | "max", vs => extreme? heap .gt some (.ofList vs)
  | "int", [v] => toInt? v .none
  | "int", [v, base] => toInt? v (some base)
  | "bool", [] => some (.bool false)
  | "bool", [v] => some (.bool (v.truth heap))
  | "str", [.octets bytes] =>
    some (.text (if bytes.all (· < 0x80) then bytes
      else .ofList (Text.Utf8.encode (Text.Utf8.decode bytes.toList))))
  | "str", [v] => some (.text (v.display heap))
  | "ord", [.text bytes] =>
    if 4 < bytes.length then .none else (soleChar? bytes.toList).map fun c => .int c.toNat
  | "ord", [.octets bytes] =>
    if bytes.length = 1 then (bytes.get? 0).map fun b => .int b.toNat else .none
  | _, _ => .none

/-- The arguments of `int` in order, of which some are given by name. -/
def intArguments? (args : List Value) (named : List (String × Value)) : Option (List Value) :=
  let free := ["x", "base"].drop args.length
  if named.all fun (key, _) => key ∈ free then
    match args, named.lookup "x", named.lookup "base" with
    | [], some x, .none => some [x]
    | [], some x, some base => some [x, base]
    | [x], _, some base => some [x, base]
    | _, _, _ => .none
  else .none

/-- A function applied to arguments, the last of them given by name. -/
def call? (heap : Heap) (name : String) (args : List Value) (named : List (String × Value)) :
    Option Value :=
  match name, named with
  | _, [] => callPlain? heap name args
  | "int", _ => (intArguments? args named).bind (callPlain? heap name)
  | _, [("key", .builtin key)] =>
    let items := match args with
      | [v] => v.items? heap
      | _ => some (.ofList args)
    let key v := callPlain? heap key [v]
    match name with
    | "min" => items.bind fun items => extreme? heap .lt key items
    | "max" => items.bind fun items => extreme? heap .gt key items
    | _ => .none
  | _, _ => .none

/-- The names that are defined everywhere. -/
def universe? (name : String) : Option Value :=
  match name with
  | "None" => some .none
  | "True" => some (.bool true)
  | "False" => some (.bool false)
  | _ =>
    if name ∈ ["abs", "any", "all", "bool", "bytes", "chr", "dict", "dir", "enumerate", "fail",
        "float", "getattr", "hasattr", "hash", "int", "len", "list", "max", "min", "ord", "print",
        "range", "repr", "reversed", "sorted", "str", "tuple", "type", "zip"] then
      some (.builtin name)
    else .none

end Value

end TaskMachine.Expr
