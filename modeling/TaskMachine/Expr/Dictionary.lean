import Std.Data.HashMap
import TaskMachine.Expr.Value
import TaskMachine.Text.Utf8

/-!
# Dictionaries

A dictionary of Starlark holds values under keys, in the order in which the keys
came in. Only what cannot change may be a key: no list, no dictionary, and no
tuple with one in it. Putting in a value under a key that is there already
replaces the value and keeps the place of the key. Keys with different hashes are
different, and only those with the same hash are compared. A key is looked for
among those that have the same mark, which is a rougher and quicker kind of hash.
-/

namespace TaskMachine.Expr

namespace Value

mutual

/-- Whether a value may be a key: nothing in it can change. -/
def isKey : Value → Bool
  | .list _ => false
  | .dict _ => false
  | .tuple items => areKeys items
  | _ => true

/-- Whether all values of a sequence may be keys. -/
def areKeys : Rope Value → Bool
  | .leaf items => allKeys items
  | .node x y => areKeys x && areKeys y
  | .power count x => count == 0 || areKeys x

/-- Whether all values of a list may be keys. -/
def allKeys : List Value → Bool
  | [] => true
  | x :: xs => isKey x && allKeys xs

end

/-- The hash of a string of bytes: each byte is mixed in and the outcome multiplied by a prime. -/
def hashBytes (bytes : List UInt8) : UInt32 :=
  bytes.foldl (fun h b => (h ^^^ b.toUInt32) * 16777619) 2166136261

/-- The hash of an integer, which depends on 32 bits of it: those of its two's complement if it
fits 32 bits, and those of its magnitude otherwise. -/
def hashInt (n : Int) : UInt32 :=
  let low := if (Value.int n).toInt32?.isSome then UInt32.ofInt n else UInt32.ofNat n.natAbs
  12582917 * (low + 3)

/-- How far the hash of a tuple has come: the hash so far, and the factor of the next item. -/
structure TupleHash where
  hash : UInt32 := 0x345678
  factor : UInt32 := 1000003

/-- Mixes in the hash of the next item of a tuple with so many items. -/
def TupleHash.push (length : Nat) (h : TupleHash) (item : UInt32) : TupleHash :=
  ⟨h.hash ^^^ item * h.factor, h.factor + 82520 + UInt32.ofNat (2 * length)⟩

mutual

/-- The hash of a key. Equal keys have equal hashes: a float has that of its integer part. -/
def hash : Value → UInt32
  | .none => 0
  | .bool b => if b then 1 else 0
  | .int n => hashInt n
  | .float bits =>
    match truncate? bits with
    | some n => hashInt n
    | .none => 1618033
  | .text bytes => hashBytes bytes.toList
  | .octets bytes => hashBytes bytes.toList
  | .tuple items => (hashRope items.length items {}).hash
  | .list _ => 0
  | .dict _ => 0
  | .builtin name => hashBytes (Text.Utf8.encode name.toList)

/-- Mixes in a sequence of items of a tuple. -/
def hashRope (length : Nat) : Rope Value → TupleHash → TupleHash
  | .leaf items, h => hashAll length items h
  | .node x y, h => hashRope length y (hashRope length x h)
  | .power count x, h => Nat.repeat (fun h => hashRope length x h) count h

/-- Mixes in a list of items of a tuple. -/
def hashAll (length : Nat) : List Value → TupleHash → TupleHash
  | [], h => h
  | x :: xs, h => hashAll length xs (h.push length (hash x))

end

/-- A number that equal keys have in common. It is quick to tell even of a long key. -/
def mark : Value → UInt32
  | .text bytes => markBytes bytes
  | .octets bytes => markBytes bytes
  | .tuple items => UInt32.ofNat items.length
  | v => v.hash
where
  /-- The number of a string of bytes. -/
  markBytes (bytes : Rope UInt8) : UInt32 :=
    if bytes.length ≤ Rope.leafSize then hashBytes bytes.toList else UInt32.ofNat bytes.length

/-- Whether two keys are equal, without going deeper than a number of levels. -/
def equalKeys? : Nat → Value → Value → Option Bool
  | 0, _, _ => .none
  | depth + 1, x, y =>
    equalUsing? (equalKeys? depth) (fun _ _ => some false) (fun _ _ => some false) x y

/-- Whether two values are one key. Hashes tell keys apart that are nested too deeply to be
compared, but there is no answer if they are the same, where zero counts as one. -/
def sameKey? (x y : Value) : Option Bool :=
  match equalKeys? comparisonDepth x y with
  | .none => if max 1 x.hash == max 1 y.hash then .none else some false
  | answer => answer

end Value

/-- A dictionary by its entries, with the positions of those whose keys have the same mark. -/
structure Dict where
  entries : Array (Value × Value) := #[]
  marked : Std.HashMap UInt32 (List Nat) := {}

namespace Dict

/-- The number of entries. -/
def size (d : Dict) : Nat := d.entries.size

/-- The keys in order. -/
def keys (d : Dict) : Rope Value := .ofList (d.entries.toList.map fun (k, _) => k)

/-- The position of a key, if it is there. There is no answer for what cannot be a key, nor for a
key that cannot be told apart from another. -/
def position? (d : Dict) (key : Value) : Option (Option Nat) :=
  let answer := (d.marked.getD key.mark []).findSome? fun i =>
    match (d.entries[i]?).map fun (k, _) => key.sameKey? k with
    | none => none
    | some (some false) => none
    | some (some true) => some (some i)
    | some none => some none
  match answer with
  | none => if key.isKey then some none else none
  | some none => none
  | some (some i) => some (some i)

/-- What is held under a key. -/
def get? (d : Dict) (key : Value) : Option Value := do
  let i ← (d.position? key).join
  let (_, v) ← d.entries[i]?
  return v

/-- Puts in an entry whose key is new. -/
def push (d : Dict) (key v : Value) : Dict where
  entries := d.entries.push (key, v)
  marked := d.marked.insert key.mark (d.marked.getD key.mark [] ++ [d.entries.size])

/-- Puts in a value under a key. -/
def insert? (d : Dict) (key v : Value) : Option Dict :=
  match d.position? key with
  | none => none
  | some none => some (d.push key v)
  | some (some i) => some { d with entries := d.entries.modify i fun (k, _) => (k, v) }

/-- Puts in entries one after the other, up to the first that cannot be put in. -/
def insertAll (d : Dict) : List (Value × Value) → Dict
  | [] => d
  | (k, v) :: rest =>
    match d.insert? k v with
    | some d => d.insertAll rest
    | none => d

/-- Puts in entries whose keys must be new and unlike each other. -/
def insertNew? (d : Dict) : List (Value × Value) → Option Dict
  | [] => some d
  | (k, v) :: rest =>
    match d.position? k with
    | some none => insertNew? (d.push k v) rest
    | _ => none

end Dict

end TaskMachine.Expr
