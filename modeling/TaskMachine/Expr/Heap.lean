import TaskMachine.Expr.Dictionary

/-!
# The heap

The lists and dictionaries that a script creates live on a heap, each at a place
of its own. Who knows the place sees every change. An action works on the heap and
may fail; nothing that was created is ever taken away.
-/

namespace TaskMachine.Expr

/-- All lists and dictionaries by their places. -/
structure Heap where
  lists : Array (Rope Value) := #[]
  dicts : Array Dict := #[]

namespace Heap

/-- The items of the list at a place. -/
def list (heap : Heap) (place : Nat) : Rope Value := heap.lists.getD place .empty

/-- The dictionary at a place. -/
def dict (heap : Heap) (place : Nat) : Dict := heap.dicts.getD place {}

/-- How many lists and dictionaries there are. -/
def size (heap : Heap) : Nat := heap.lists.size + heap.dicts.size

/-- Creates a list. -/
def addList (heap : Heap) (items : Rope Value) : Value × Heap :=
  (.list heap.lists.size, { heap with lists := heap.lists.push items })

/-- Creates a dictionary. -/
def addDict (heap : Heap) (d : Dict) : Value × Heap :=
  (.dict heap.dicts.size, { heap with dicts := heap.dicts.push d })

/-- Changes the list at a place. -/
def setList (heap : Heap) (place : Nat) (items : Rope Value) : Heap :=
  { heap with lists := heap.lists.setIfInBounds place items }

/-- Changes the dictionary at a place. -/
def setDict (heap : Heap) (place : Nat) (d : Dict) : Heap :=
  { heap with dicts := heap.dicts.setIfInBounds place d }

end Heap

/-- A computation on the heap that may fail. -/
abbrev Action (α : Type) := StateT Heap Option α

namespace Action

/-- Creates a list. -/
def newList (items : Rope Value) : Action Value := fun heap => some (heap.addList items)

/-- Creates a dictionary. -/
def newDict (d : Dict) : Action Value := fun heap => some (heap.addDict d)

end Action

end TaskMachine.Expr
