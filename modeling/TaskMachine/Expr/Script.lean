import TaskMachine.Expr.Eval
import TaskMachine.Expr.Statement

/-!
# Scripts

An interpreter of a part of Starlark. A script is read as statements, their names
are resolved, and then they are carried out from the first on. Names that some
statement binds have the value bound to them, and none before that; other names
mean what they mean around the script.

The part has the integers, floats, strings, byte strings, lists, tuples and
dictionaries of the language, its operators, indices, `if`-`else`, assignments and
augmented assignments, and calls of `len`, `abs`, `min`, `max`, `int`, `bool`,
`str` and `ord`. Outside of it are slices, comprehensions, `lambda` and `def`,
arguments unpacked with `*` and `**`, several statements on one line, fields and
methods, and calls of the other built-in functions, such as `range`, `sorted`,
`float` and `hash`. Scripts that use what is outside have no value here, whatever
the language says about them.
-/

namespace TaskMachine.Expr

/-- Where names are looked up: what they mean around a script, the names that the script binds
somewhere, and the values bound so far, the latest first. -/
structure Scope where
  outer : String → Option Value
  bound : List String
  values : List (String × Value) := []

namespace Scope

/-- The value of a name at this point. -/
def get? (scope : Scope) (name : String) : Option Value :=
  if name ∈ scope.bound then scope.values.lookup name else scope.outer name

/-- Whether a name has a value at some point. -/
def knows (scope : Scope) (name : String) : Bool :=
  name ∈ scope.bound || (scope.outer name).isSome

/-- Binds a value to a name. -/
def bind (scope : Scope) (name : String) (v : Value) : Scope :=
  { scope with values := (name, v) :: scope.values }

end Scope

namespace Tree

mutual

/-- The names that are bound when an expression is assigned to. -/
def bound : Tree → List String
  | .name s => [s]
  | .list items => boundAll items
  | .tuple items => boundAll items
  | _ => []

/-- The names that are bound when expressions are assigned to. -/
def boundAll : List Tree → List String
  | [] => []
  | x :: xs => bound x ++ boundAll xs

end

mutual

/-- Whether an expression can be assigned to: a name, an item, a field, or a list or tuple of
what can be assigned to. -/
def isTarget (known : String → Bool) : Tree → Bool
  | .name _ => true
  | .index x i => resolves known x && resolves known i
  | .attribute x _ => resolves known x
  | .list items => areTargets known items
  | .tuple items => areTargets known items
  | _ => false

/-- Whether expressions can be assigned to. -/
def areTargets (known : String → Bool) : List Tree → Bool
  | [] => true
  | x :: xs => isTarget known x && areTargets known xs

end

/-- Whether an expression stands for several targets. -/
def isSequence : Tree → Bool
  | .list _ => true
  | .tuple _ => true
  | _ => false

mutual

/-- Assigns a value to a target. A list or tuple takes as many items as it has targets. -/
def assign (scope : Scope) : Tree → Value → Action Scope
  | .name s, v => return scope.bind s v
  | .index x i, v => do
    let container ← x.eval scope.get?
    let key ← i.eval scope.get?
    set (← container.setItem? (← get) key v)
    return scope
  | .list targets, v => do
    let items ← v.items? (← get)
    if items.length = targets.length then assignAll scope targets items.toList else none
  | .tuple targets, v => do
    let items ← v.items? (← get)
    if items.length = targets.length then assignAll scope targets items.toList else none
  | _, _ => none

/-- Assigns values to as many targets, from the first on. -/
def assignAll (scope : Scope) : List Tree → List Value → Action Scope
  | x :: xs, v :: vs => do
    let scope ← assign scope x v
    assignAll scope xs vs
  | _, _ => return scope

end

/-- Gives a target the outcome of an operator applied to its value and another. What is before
an index is evaluated only once. -/
def augment (scope : Scope) (target : Tree) (op : Operator) (x : Tree) : Action Scope :=
  match target with
  | .index container i => do
    let container ← container.eval scope.get?
    let key ← i.eval scope.get?
    let old ← container.index? (← get) key
    let v ← x.eval scope.get?
    let new ← Value.operateInPlace op old v
    set (← container.setItem? (← get) key new)
    return scope
  | _ => do
    let old ← target.eval scope.get?
    let v ← x.eval scope.get?
    let new ← Value.operateInPlace op old v
    target.assign scope new

end Tree

namespace Statement

/-- The names that a statement binds. -/
def bound : Statement → List String
  | .assign target _ => target.bound
  | .augment target _ _ => target.bound
  | .load names => names.map fun (here, _) => here
  | _ => []

/-- Whether a name may be loaded from elsewhere: it is not private there. -/
def isPublic (name : String) : Bool :=
  match name.toList with
  | [] => false
  | c :: _ => c ≠ '_'

/-- Whether a statement uses only known names and has its place outside functions. -/
def resolves (known : String → Bool) : Statement → Bool
  | .assign target x => target.isTarget known && x.resolves known
  | .augment target _ x => target.isTarget known && !target.isSequence && x.resolves known
  | .bare x => x.resolves known
  | .pass => true
  | .load names => names.all fun (_, there) => isPublic there
  | .misplaced => false

/-- Whether statements bind each name at most once, after others have bound some by assignment
and loaded some. What is loaded may only take the place of what was assigned before. -/
def bindOnce (assigned loaded : List String) : List Statement → Bool
  | [] => true
  | .load names :: rest =>
    let loaded := names.map (fun (here, _) => here) ++ loaded
    decide loaded.Nodup && bindOnce assigned loaded rest
  | s :: rest =>
    decide s.bound.Nodup && s.bound.all (fun name => name ∉ assigned && name ∉ loaded) &&
      bindOnce (s.bound ++ assigned) loaded rest

/-- Carries out a statement. There is nothing to load from. -/
def execute (scope : Scope) : Statement → Action Scope
  | .assign target x => do
    let v ← x.eval scope.get?
    target.assign scope v
  | .augment target op x => target.augment scope op x
  | .bare x => do
    let _ ← x.eval scope.get?
    return scope
  | .pass => return scope
  | .load _ => none
  | .misplaced => none

end Statement

/-- The meaning of a name: what the surroundings define comes before what is defined
everywhere. -/
def lookup (defined : String → Option Int) (name : String) : Option Value :=
  match defined name with
  | some n => some (.int n)
  | none => Value.universe? name

/-- Carries out a script and looks up a name. A name that the script binds is known from the start
but has no value before it is bound. -/
def evaluate (defined : String → Option Int) (script : List Char) (name : String) :
    Except Error Int :=
  match Statement.parse script with
  | none => .error .malformed
  | some statements =>
    let scope : Scope := { outer := lookup defined, bound := statements.flatMap Statement.bound }
    if Statement.bindOnce [] [] statements ∧ statements.all (Statement.resolves scope.knows) then
      match (statements.foldlM Statement.execute scope).run {} with
      | none => .error .failed
      | some (scope, _) =>
        match scope.values.lookup name with
        | some (.int n) => .ok n
        | _ => .error .notInteger
    else .error .unresolved

/-- The interpreter of this part of the language. -/
instance starlark : Interpreter := ⟨evaluate⟩

end TaskMachine.Expr
