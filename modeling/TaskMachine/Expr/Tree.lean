import TaskMachine.Expr.Token

/-!
# Expression trees

The grammar of Starlark's expressions, by precedence from low to high:
`if`-`else`, `or`, `and`, `not`, comparisons and membership (which do not chain),
`|`, `^`, `&`, shifts, sums, products, and signs with their operand. An expression
without brackets around it may be a tuple. Slices, comprehensions, `lambda` and
unpacked arguments are not covered.
-/

namespace TaskMachine.Expr

/-- The operators between two operands. -/
inductive Operator where
  | or
  | and
  | eq
  | ne
  | lt
  | gt
  | le
  | ge
  | isIn
  | notIn
  | bitOr
  | bitXor
  | bitAnd
  | shl
  | shr
  | sub
  | add
  | mul
  | rem
  | div
  | floorDiv
  deriving DecidableEq, Repr

/-- The operators before one operand. -/
inductive Sign where
  | not
  | minus
  | plus
  | invert
  deriving DecidableEq, Repr

/-- An expression. -/
inductive Tree where
  | name (text : String)
  | int (value : Nat)
  | float (bits : Nat)
  | text (bytes : List UInt8)
  | octets (bytes : List UInt8)
  | list (items : List Tree)
  | tuple (items : List Tree)
  /-- A dictionary by its keys and as many values. -/
  | dict (keys values : List Tree)
  | unary (op : Sign) (x : Tree)
  | binary (op : Operator) (x y : Tree)
  | choice (condition yes no : Tree)
  | index (x i : Tree)
  | attribute (x : Tree) (field : String)
  | call (f : Tree) (args : List Tree)
  /-- An argument given by name. -/
  | named (key : String) (value : Tree)
  deriving Repr

namespace Tree

/-- The level of comparisons. -/
def comparison : Nat := 3

/-- The level of `not`. -/
def negation : Nat := 2

/-- The level above every binary operator. -/
def topLevel : Nat := 10

/-- The binary operators by their marks, with their levels from low to high. -/
def operatorMarks : List (String × Operator × Nat) := [
  ("or", .or, 0), ("and", .and, 1), ("==", .eq, 3), ("!=", .ne, 3), ("<", .lt, 3), (">", .gt, 3),
  ("<=", .le, 3), (">=", .ge, 3), ("in", .isIn, 3), ("|", .bitOr, 4), ("^", .bitXor, 5),
  ("&", .bitAnd, 6), ("<<", .shl, 7), (">>", .shr, 7), ("-", .sub, 8), ("+", .add, 8),
  ("*", .mul, 9), ("%", .rem, 9), ("/", .div, 9), ("//", .floorDiv, 9)]

/-- The binary operator at the head of the tokens, its level, and what follows. -/
def operator? : List Token → Option (Operator × Nat × List Token)
  | .mark "not" :: .mark "in" :: rest => some (.notIn, comparison, rest)
  | .mark m :: rest => (operatorMarks.lookup m).map fun (op, level) => (op, level, rest)
  | _ => none

/-- The sign that a mark stands for. -/
def sign? (m : String) : Option Sign :=
  [("-", Sign.minus), ("+", .plus), ("~", .invert)].lookup m

/-- The tokens after a mark that must come next. -/
def expect (m : String) : List Token → Option (List Token)
  | .mark t :: rest => if t = m then some rest else none
  | _ => none

/-- Whether the tokens begin with a mark. -/
def startsWith (m : String) : List Token → Bool
  | .mark t :: _ => t = m
  | _ => false

mutual

/-- A whole expression, without a bare tuple. The number bounds the nesting of calls. -/
def test : Nat → List Token → Option (Tree × List Token)
  | 0, _ => none
  | fuel + 1, ts => do
    let (x, ts) ← operand fuel 0 ts
    if startsWith "if" ts then
      let (condition, ts) ← operand fuel 0 (ts.drop 1)
      let ts ← expect "else" ts
      let (no, ts) ← test fuel ts
      return (.choice condition x no, ts)
    else return (x, ts)

/-- An expression of operators of at least a level. -/
def operand : Nat → Nat → List Token → Option (Tree × List Token)
  | 0, _, _ => none
  | fuel + 1, level, ts =>
    if topLevel ≤ level then
      match primary fuel ts with
      | some (x, ts) => suffixes fuel x ts
      | none => none
    else if level = negation ∧ startsWith "not" ts = true then do
      let (x, ts) ← operand fuel negation (ts.drop 1)
      return (.unary .not x, ts)
    else do
      let (x, ts) ← operand fuel (level + 1) ts
      operators fuel level true x ts

/-- The operators of at least a level after their first operand. Only the first operator of a
chain may be a comparison. -/
def operators : Nat → Nat → Bool → Tree → List Token → Option (Tree × List Token)
  | 0, _, _, _, _ => none
  | fuel + 1, level, first, x, ts =>
    match operator? ts with
    | none => some (x, ts)
    | some (op, n, rest) =>
      if n < level then some (x, ts)
      else if !first && n = comparison then none
      else do
        let (y, rest) ← operand fuel (n + 1) rest
        operators fuel level false (.binary op x y) rest

/-- A literal, a name, a bracketed expression, or a sign with its operand. -/
def primary : Nat → List Token → Option (Tree × List Token)
  | 0, _ => none
  | _ + 1, [] => none
  | fuel + 1, t :: ts =>
    match t with
    | .name s => some (.name s, ts)
    | .int value => some (.int value, ts)
    | .float bits => some (.float bits, ts)
    | .text content => some (.text content, ts)
    | .octets content => some (.octets content, ts)
    | .lineEnd => none
    | .indent => none
    | .outdent => none
    | .mark op =>
      if op = "(" then
        if startsWith ")" ts then some (.tuple [], ts.drop 1)
        else do
          let (x, ts) ← expression fuel true ts
          let ts ← expect ")" ts
          return (x, ts)
      else if op = "[" then
        if startsWith "]" ts then some (.list [], ts.drop 1)
        else do
          let (x, ts) ← test fuel ts
          let (items, ts) ← moreItems fuel true ts
          let ts ← expect "]" ts
          return (.list (x :: items), ts)
      else if op = "\x7b" then
        if startsWith "\x7d" ts then some (.dict [] [], ts.drop 1)
        else do
          let (entries, ts) ← entries fuel ts
          return (.dict (entries.map fun (key, _) => key) (entries.map fun (_, v) => v), ts)
      else do
        let sign ← sign? op
        let (x, ts) ← primary fuel ts
        let (x, ts) ← suffixes fuel x ts
        return (.unary sign x, ts)

/-- The entries of a dictionary up to its closing bracket. -/
def entries : Nat → List Token → Option (List (Tree × Tree) × List Token)
  | 0, _ => none
  | fuel + 1, ts => do
    let (key, ts) ← test fuel ts
    let ts ← expect ":" ts
    let (value, ts) ← test fuel ts
    if startsWith "\x7d" ts then return ([(key, value)], ts.drop 1)
    let ts ← expect "," ts
    if startsWith "\x7d" ts then return ([(key, value)], ts.drop 1)
    let (rest, ts) ← entries fuel ts
    return ((key, value) :: rest, ts)

/-- The fields, indices and calls after a primary expression. -/
def suffixes : Nat → Tree → List Token → Option (Tree × List Token)
  | 0, _, _ => none
  | fuel + 1, x, ts =>
    match ts with
    | .mark "." :: .name s :: ts => suffixes fuel (.attribute x s) ts
    | .mark "[" :: ts => do
      let (i, ts) ← expression fuel false ts
      let ts ← expect "]" ts
      suffixes fuel (.index x i) ts
    | .mark "(" :: ts => do
      let (args, ts) ← arguments fuel true ts
      suffixes fuel (.call x args) ts
    | _ => some (x, ts)

/-- The arguments of a call up to its closing bracket. -/
def arguments : Nat → Bool → List Token → Option (List Tree × List Token)
  | 0, _, _ => none
  | fuel + 1, first, ts =>
    if startsWith ")" ts then some ([], ts.drop 1)
    else do
      let ts ← if first then some ts else expect "," ts
      if startsWith ")" ts then return ([], ts.drop 1)
      let (x, ts) ← argument fuel ts
      let (rest, ts) ← arguments fuel false ts
      return (x :: rest, ts)

/-- One argument, perhaps given by name. -/
def argument : Nat → List Token → Option (Tree × List Token)
  | 0, _ => none
  | fuel + 1, ts =>
    match ts with
    | .name key :: .mark "=" :: ts => do
      let (value, ts) ← test fuel ts
      return (.named key value, ts)
    | _ => test fuel ts

/-- The items after the first one of a list or tuple, each after a comma. A comma may end them
only where that is allowed. -/
def moreItems : Nat → Bool → List Token → Option (List Tree × List Token)
  | 0, _, _ => none
  | fuel + 1, trailing, ts =>
    if startsWith "," ts then
      let ts := ts.drop 1
      let ended := ts.isEmpty || startsWith "=" ts || startsWith "\x7d" ts || startsWith "]" ts ||
        startsWith ")" ts || startsWith ";" ts
      if ended then (if trailing then some ([], ts) else none)
      else do
        let (x, ts) ← test fuel ts
        let (items, ts) ← moreItems fuel trailing ts
        return (x :: items, ts)
    else some ([], ts)

/-- An expression that may be a bare tuple. -/
def expression : Nat → Bool → List Token → Option (Tree × List Token)
  | 0, _, _ => none
  | fuel + 1, trailing, ts => do
    let (x, ts) ← test fuel ts
    if startsWith "," ts then
      let (items, ts) ← moreItems fuel trailing ts
      return (.tuple (x :: items), ts)
    else return (x, ts)

end

end Tree

end TaskMachine.Expr
