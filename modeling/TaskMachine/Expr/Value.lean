import TaskMachine.Expr.Rope.Zip
import TaskMachine.Numeral.Shortest

/-!
# Values of expressions

The values of Starlark. Integers of any size, floats, truth values, text and other
strings of bytes, tuples, nothing and the built-in functions are what they are.
Lists and dictionaries can change, so such a value only tells which one it is.
Numbers of both kinds compare by their exact values.
-/

namespace TaskMachine.Expr

open Numeral

/-- A value; a float is kept as its bit pattern. -/
inductive Value where
  | none
  | bool (b : Bool)
  | int (n : Int)
  | float (bits : UInt64)
  | text (bytes : Rope UInt8)
  /-- A string of bytes that is not meant as text. -/
  | octets (bytes : Rope UInt8)
  | tuple (items : Rope Value)
  /-- The list at a place of the heap. -/
  | list (place : Nat)
  /-- The dictionary at a place of the heap. -/
  | dict (place : Nat)
  | builtin (name : String)
  deriving Repr

namespace Value

/-- Whether two strings of bytes are the same. -/
def sameBytes (x y : Rope UInt8) : Bool :=
  x.length == y.length && (x.zipFindSome? (fun a b => if a = b then .none else some ()) y).isNone

/-- The order of two strings of bytes: the first different bytes decide, or else the lengths. -/
def orderBytes (x y : Rope UInt8) : Ordering :=
  let different (a b : UInt8) : Option Ordering :=
    if a < b then some .lt else if b < a then some .gt else .none
  (x.zipFindSome? different y).getD (compare x.length y.length)

/-- The order of an integer and a float, exactly; a NaN comes after every number. -/
def orderIntFloat (n : Int) (bits : UInt64) : Ordering :=
  match binary64.decode bits.toNat with
  | .nan => .lt
  | .infinite negative => if negative then .gt else .lt
  | .finite negative significand scale =>
    let m : Int := if negative then -(significand : Int) else significand
    compare (n * twoPow (-scale).toNat) (m * twoPow scale.toNat)

/-- The order of two floats; a NaN comes after every number and equals itself. -/
def orderFloats (a b : UInt64) : Ordering :=
  let x := Float.ofBits a
  let y := Float.ofBits b
  if x < y then .lt
  else if y < x then .gt
  else if x == y then .eq
  else if x == x then .lt
  else if y == y then .gt
  else .eq

/-- The float nearest to an integer, unless that overflows. -/
def floatOfInt? (n : Int) : Option UInt64 :=
  (binary64.roundRatio (n < 0) n.natAbs 1).map UInt64.ofNat

/-- The value of a number as a float. -/
def toFloat? : Value → Option UInt64
  | .int n => floatOfInt? n
  | .float bits => some bits
  | _ => .none

/-- The integer part of a finite float. -/
def truncate? (bits : UInt64) : Option Int :=
  match binary64.decode bits.toNat with
  | .finite negative significand scale =>
    let magnitude := significand * twoPow scale.toNat / twoPow (-scale).toNat
    some (if negative then -(magnitude : Int) else magnitude)
  | _ => .none

/-- An integer that fits 32 bits. -/
def toInt32? : Value → Option Int
  | .int n => if -0x80000000 ≤ n ∧ n < 0x80000000 then some n else .none
  | _ => .none

/-- Whether two sequences of values are equal item by item. Different lengths settle it at once,
and otherwise the first items do that are not known to be equal. -/
def equalRopes? (equal : Value → Value → Option Bool) (x y : Rope Value) : Option Bool :=
  let unequal (a b : Value) : Option (Option Bool) :=
    match equal a b with
    | some true => .none
    | answer => some answer
  if x.length = y.length then (x.zipFindSome? unequal y).getD (some true) else some false

/-- Whether two values are equal, where `equal` tells it of the items of tuples, `equalLists` of
lists and `equalDicts` of dictionaries. Values of different kinds never are, numbers apart. -/
def equalUsing? (equal : Value → Value → Option Bool)
    (equalLists equalDicts : Nat → Nat → Option Bool) (x y : Value) : Option Bool :=
  match x, y with
  | .none, .none => some true
  | .bool a, .bool b => some (a == b)
  | .int a, .int b => some (a == b)
  | .int a, .float b => some (orderIntFloat a b == .eq)
  | .float a, .int b => some (orderIntFloat b a == .eq)
  | .float a, .float b => some (orderFloats a b == .eq)
  | .text a, .text b => some (sameBytes a b)
  | .octets a, .octets b => some (sameBytes a b)
  | .tuple a, .tuple b => equalRopes? equal a b
  | .list a, .list b => equalLists a b
  | .dict a, .dict b => equalDicts a b
  | .builtin a, .builtin b => some (a == b)
  | _, _ => some false

/-- How many levels of nesting a comparison looks into. -/
def comparisonDepth : Nat := 10

end Value

end TaskMachine.Expr
