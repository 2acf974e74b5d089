import TaskMachine.Expr.Builtin
import TaskMachine.Expr.Tree

/-!
# Evaluating expressions

The names of a Starlark expression are resolved and its calls checked, even those
in branches that are never taken. Its value depends on nothing but the values that
the names have around it and the heap.
-/

namespace TaskMachine.Expr

namespace Tree

/-- The name that an argument is given by. -/
def key? : Tree → Option String
  | .named key _ => some key
  | _ => none

/-- The most arguments that a call may have, in order and by name. -/
def argumentLimit : Nat := 255

/-- Whether arguments follow the rules of calls: those given by name come last, no name comes
twice, and there are not too many of either sort. -/
def argumentsFit (args : List Tree) : Bool :=
  let ordered := args.takeWhile fun x => x.key?.isNone
  let keys := args.filterMap key?
  ordered.length + keys.length == args.length && ordered.length ≤ argumentLimit &&
    keys.length ≤ argumentLimit && decide keys.Nodup

mutual

/-- Whether an expression uses only known names, and its calls follow the rules. -/
def resolves (known : String → Bool) : Tree → Bool
  | .name s => known s
  | .int _ => true
  | .float _ => true
  | .text _ => true
  | .octets _ => true
  | .list items => resolvesAll known items
  | .tuple items => resolvesAll known items
  | .dict keys values => resolvesAll known keys && resolvesAll known values
  | .unary _ x => resolves known x
  | .binary _ x y => resolves known x && resolves known y
  | .choice c x y => resolves known c && resolves known x && resolves known y
  | .index x i => resolves known x && resolves known i
  | .attribute x _ => resolves known x
  | .call f args => resolves known f && resolvesAll known args && argumentsFit args
  | .named _ x => resolves known x

/-- Whether a list of expressions uses only known names, and its calls follow the rules. -/
def resolvesAll (known : String → Bool) : List Tree → Bool
  | [] => true
  | x :: xs => resolves known x && resolvesAll known xs

end

/-- A sign applied to a value. -/
def applySign (heap : Heap) : Sign → Value → Option Value
  | .not, v => some (.bool (!v.truth heap))
  | .minus, .int n => some (.int (-n))
  | .minus, .float bits => some (.float (-(Float.ofBits bits)).toBits)
  | .plus, .int n => some (.int n)
  | .plus, .float bits => some (.float bits)
  | .invert, .int n => some (.int (-n - 1))
  | _, _ => none

/-- Whether an operator leaves its second operand alone. -/
def isSettled (heap : Heap) (op : Operator) (v : Value) : Bool :=
  match op with
  | .or => v.truth heap
  | .and => !v.truth heap
  | _ => false

/-- The bytes of a sum of byte-string literals, which is a literal itself, before a tail. No other
sums of such strings have a value. -/
def literalBytes? : Tree → List UInt8 → Option (List UInt8)
  | .octets bytes, tail => some (bytes ++ tail)
  | .binary .add x (.octets bytes), tail => literalBytes? x (bytes ++ tail)
  | _, _ => none

/-- Whether an expression is a sum that ends in a byte-string literal. -/
def endsInOctets : Tree → Bool
  | .binary .add _ (.octets _) => true
  | _ => false

mutual

/-- Evaluates an expression, where the defined names have values. `or`, `and` and the choice leave
the operand alone that they do not need. -/
def eval (env : String → Option Value) : Tree → Action Value
  | .name s => env s
  | .int n => return .int n
  | .float bits => return .float (UInt64.ofNat bits)
  | .text bytes => return .text (.ofList bytes)
  | .octets bytes => return .octets (.ofList bytes)
  | .list items => do
    let vs ← evalAll env items
    Action.newList (.ofList vs)
  | .tuple items => do
    let vs ← evalAll env items
    return .tuple (.ofList vs)
  | .dict keys values => do
    let ks ← evalAll env keys
    let vs ← evalAll env values
    Action.newDict (← Dict.insertNew? {} (ks.zip vs))
  | .unary op x => do
    let v ← eval env x
    applySign (← get) op v
  | .binary op x y =>
    if endsInOctets (.binary op x y) then do
      let bytes ← literalBytes? (.binary op x y) []
      return .octets (.ofList bytes)
    else do
      let v ← eval env x
      if isSettled (← get) op v then return v
      else
        let w ← eval env y
        Value.operate op v w
  | .choice c x y => do
    let v ← eval env c
    if v.truth (← get) then eval env x else eval env y
  | .index x i => do
    let v ← eval env x
    let w ← eval env i
    v.index? (← get) w
  | .attribute _ _ => none
  | .call f args => do
    let v ← eval env f
    let vs ← evalAll env args
    match v with
    | .builtin function =>
      let given := (args.map key?).zip vs
      Value.call? (← get) function
        (given.filterMap fun (key, v) => if key.isNone then some v else none)
        (given.filterMap fun (key, v) => key.map fun k => (k, v))
    | _ => none
  | .named _ x => eval env x

/-- Evaluates expressions from the first on. -/
def evalAll (env : String → Option Value) : List Tree → Action (List Value)
  | [] => return []
  | x :: xs => do
    let v ← eval env x
    let vs ← evalAll env xs
    return v :: vs

end

end Tree

end TaskMachine.Expr
