import TaskMachine.Isa.Form
import TaskMachine.Numeral.Shortest
import TaskMachine.Text.Quoted

/-!
# The constant pool

A pool holds the constants of a program: integers, byte strings and floats.
Adding an item that is already there gives the index of the one there, so an
item never moves. Floats are compared as numbers: a NaN is new every time, and
the two zeros are one.
-/

namespace TaskMachine

open Numeral

/-- A constant: the number of its kind, and a part for each kind in use. As a rule only the part of
its own kind is set, and other kinds carry no value. -/
structure PoolItem where
  kind : Int
  integerPart : UInt32 := 0
  textPart : List UInt8 := []
  /-- The bit pattern of a float. -/
  floatPart : UInt32 := 0
  deriving DecidableEq, Repr

namespace PoolItem

/-- An integer constant. -/
def integer (value : UInt32) : PoolItem := { kind := 0, integerPart := value }

/-- A constant of bytes. -/
def text (bytes : List UInt8) : PoolItem := { kind := 1, textPart := bytes }

/-- A float constant by its bit pattern. -/
def float (bits : UInt32) : PoolItem := { kind := 2, floatPart := bits }

/-- The empty item of a numbered kind. -/
def ofKind (kind : Int) : PoolItem := { kind }

/-- The name of a kind number. -/
def kindNameOf (kind : Int) : String := kindName "PoolKind" ["integer", "string", "float"] kind

/-- Whether two bit patterns are equal as numbers. -/
def sameFloat (a b : UInt32) : Bool :=
  match binary32.decode a.toNat, binary32.decode b.toNat with
  | .nan, _ => false
  | _, .nan => false
  | .finite _ 0 _, .finite _ 0 _ => true
  | _, _ => a == b

/-- Whether two items are the same constant, that is, the same in all their parts. -/
def same (a b : PoolItem) : Bool :=
  a.kind == b.kind && a.integerPart == b.integerPart && a.textPart == b.textPart &&
    sameFloat a.floatPart b.floatPart

/-- Floats are written positionally from `0.0001` up to six digits before the point. -/
def floatLayout : FloatText := ⟨-4, 6, false⟩

/-- The text of an item in a listing. -/
def render (item : PoolItem) : String :=
  if item.kind = 0 then "int 0x" ++ hexWord item.integerPart
  else if item.kind = 1 then "str " ++ Text.Quoted.encode item.textPart
  else if item.kind = 2 then
    "float " ++ floatText binary32 floatLayout "NaN" "Inf" item.floatPart.toNat ++
      " (0x" ++ hexWord item.floatPart ++ ")"
  else kindNameOf item.kind

end PoolItem

/-- The constants of a program, by index. -/
structure Pool where
  items : Array PoolItem := #[]
  deriving DecidableEq, Repr

namespace Pool

/-- The pool with an item in it, and the item's index. -/
def intern (pool : Pool) (item : PoolItem) : Pool × UInt32 :=
  match pool.items.findIdx? (·.same item) with
  | some n => (pool, UInt32.ofNat n)
  | none => (⟨pool.items.push item⟩, UInt32.ofNat pool.items.size)

/-- The item at an index. -/
def item? (pool : Pool) (index : UInt32) : Option PoolItem := pool.items[index.toNat]?

/-- The integer at an index, if the item there is one. -/
def integer? (pool : Pool) (index : UInt32) : Option UInt32 :=
  match pool.item? index with
  | some item => if item.kind = 0 then some item.integerPart else none
  | none => none

end Pool

end TaskMachine
