import TaskMachine.Expr.Heap
import TaskMachine.Expr.Rope.Walk
import TaskMachine.Numeral.Radix
import TaskMachine.Text.Quoted

/-!
# The text of values

How Starlark writes values. A list or dictionary that comes up inside itself is
cut short there.
-/

namespace TaskMachine.Expr

open Numeral

/-- A list or a dictionary by its place. -/
inductive Ref where
  | list (place : Nat)
  | dict (place : Nat)
  deriving DecidableEq

/-- The lists and dictionaries around a value. -/
structure Path where
  lists : List Nat := []
  dicts : List Nat := []

namespace Path

/-- Whether a list or dictionary is on a path. -/
def contains (path : Path) : Ref → Bool
  | .list place => path.lists.contains place
  | .dict place => path.dicts.contains place

/-- A path that goes on into a list or dictionary. -/
def push (path : Path) : Ref → Path
  | .list place => { path with lists := place :: path.lists }
  | .dict place => { path with dicts := place :: path.dicts }

end Path

namespace Value

/-- The bytes of a text in ASCII. -/
def ascii (s : String) : List UInt8 := Text.Utf8.encode s.toList

/-- Floats are written positionally from `0.0001` up to six digits before the point, and always
show that they are floats. -/
def floatLayout : FloatText := ⟨-4, 6, true⟩

/-- A text in ASCII as a sequence of bytes. -/
def asciiRope (s : String) : Rope UInt8 := .ofList (ascii s)

/-- Sequences one after the other. -/
def join (parts : List (Rope UInt8)) : Rope UInt8 := parts.foldr .append .empty

/-- The double-quoted form of a string of bytes. In plain ASCII each byte is written by itself. -/
def quoted (bytes : Rope UInt8) : Rope UInt8 :=
  if bytes.all (· < 0x80) then
    let escaped (b : UInt8) : List UInt8 :=
      Text.Utf8.encode (Text.Quoted.escapeChar (Char.ofNat b.toNat))
    join [asciiRope "\"", bytes.flatMap escaped, asciiRope "\""]
  else asciiRope (Text.Quoted.encode bytes.toList)

mutual

/-- The text of a value, where the texts of lists and dictionaries are given. -/
def renderUsing (ref : Ref → Rope UInt8) : Value → Rope UInt8
  | .none => asciiRope "None"
  | .bool b => asciiRope (if b then "True" else "False")
  | .int n => .ofList (Text.Utf8.encode (signedDigits 10 n))
  | .float bits => asciiRope (floatText binary64 floatLayout "nan" "inf" bits.toNat)
  | .text bytes => quoted bytes
  | .octets bytes => .append (asciiRope "b") (quoted bytes)
  | .tuple items =>
    let close := if items.length = 1 then ",)" else ")"
    join [asciiRope "(", renderRope ref items, asciiRope close]
  | .list place => ref (.list place)
  | .dict place => ref (.dict place)
  | .builtin name => asciiRope ("<built-in function " ++ name ++ ">")

/-- The texts of a sequence of values with commas between them. -/
def renderRope (ref : Ref → Rope UInt8) : Rope Value → Rope UInt8
  | .leaf items => renderAll ref items
  | .node x y =>
    if x.isEmpty then renderRope ref y
    else if y.isEmpty then renderRope ref x
    else join [renderRope ref x, asciiRope ", ", renderRope ref y]
  | .power count x =>
    if count = 0 ∨ x.isEmpty then .empty
    else
      let once := renderRope ref x
      .append (.replicate (count - 1) (.append once (asciiRope ", "))) once

/-- The texts of a list of values with commas between them. -/
def renderAll (ref : Ref → Rope UInt8) : List Value → Rope UInt8
  | [] => .empty
  | [x] => renderUsing ref x
  | x :: y :: rest => join [renderUsing ref x, asciiRope ", ", renderAll ref (y :: rest)]

end

/-- The texts of entries with commas between them. -/
def renderEntries (ref : Ref → Rope UInt8) : List (Value × Value) → Rope UInt8
  | [] => .empty
  | (key, v) :: rest =>
    let entry := join [renderUsing ref key, asciiRope ": ", renderUsing ref v]
    if rest.isEmpty then entry else join [entry, asciiRope ", ", renderEntries ref rest]

/-- The brackets around the content of a list or dictionary. -/
def enclose (content : Rope UInt8) : Ref → Rope UInt8
  | .list _ => join [asciiRope "[", content, asciiRope "]"]
  | .dict _ => join [asciiRope "\x7b", content, asciiRope "\x7d"]

/-- The content of a list or dictionary. -/
def content (heap : Heap) (ref : Ref → Rope UInt8) : Ref → Rope UInt8
  | .list place => renderRope ref (heap.list place)
  | .dict place => renderEntries ref (heap.dict place).entries.toList

/-- The text of a list or dictionary inside those of a path. All along a path are different, so
the size of the heap bounds how many more there can be. -/
def renderRef (heap : Heap) : Nat → Path → Ref → Rope UInt8
  | 0, _, r => enclose (asciiRope "...") r
  | fuel + 1, path, r =>
    let inside :=
      if path.contains r then asciiRope "..."
      else content heap (renderRef heap fuel (path.push r)) r
    enclose inside r

/-- The text of a value as it stands inside a list. -/
def render (heap : Heap) : Value → Rope UInt8 := renderUsing (renderRef heap heap.size {})

/-- The text of a value by itself: text stands for itself. -/
def display (heap : Heap) : Value → Rope UInt8
  | .text bytes => bytes
  | v => render heap v

end Value

end TaskMachine.Expr
