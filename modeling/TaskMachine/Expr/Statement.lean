import TaskMachine.Expr.Tree

/-!
# Statements

A Starlark script is a list of statements, here each on its own line. Those that
assign, load names from elsewhere, or just evaluate an expression are kept; of
those that have no place outside functions only the grammar matters. Function
definitions, and several statements on one line, are not covered.
-/

namespace TaskMachine.Expr

/-- What a line of a script says. -/
inductive Statement where
  /-- A target gets the value of an expression. -/
  | assign (target value : Tree)
  /-- A target gets the outcome of an operator applied to its value and that of an expression. -/
  | augment (target : Tree) (op : Operator) (value : Tree)
  /-- An expression is evaluated for nothing. -/
  | bare (value : Tree)
  | pass
  /-- Names are defined from elsewhere, each with the name it has there. -/
  | load (names : List (String × String))
  /-- A statement that has no place outside functions. -/
  | misplaced
  deriving Repr

namespace Statement

/-- The marks that assign the outcome of an operator. -/
def augmentations : List (String × Operator) := [
  ("+=", .add), ("-=", .sub), ("*=", .mul), ("/=", .div), ("//=", .floorDiv), ("%=", .rem),
  ("&=", .bitAnd), ("|=", .bitOr), ("^=", .bitXor), ("<<=", .shl), (">>=", .shr)]

/-- The name that a string literal spells. -/
def nameOf (content : List UInt8) : String := String.ofList (Text.Utf8.decode content)

/-- The names that are loaded, each after a comma, up to the closing bracket. -/
def loadedNames? : List Token → Option (List (String × String) × List Token)
  | .mark ")" :: ts => some ([], ts)
  | .mark "," :: .mark ")" :: ts => some ([], ts)
  | .mark "," :: .text content :: ts => do
    let (names, ts) ← loadedNames? ts
    return ((nameOf content, nameOf content) :: names, ts)
  | .mark "," :: .name s :: .mark "=" :: .text content :: ts => do
    let (names, ts) ← loadedNames? ts
    return ((s, nameOf content) :: names, ts)
  | _ => none

/-- What is loaded: at least one name, from a place that a string literal tells. -/
def load? : List Token → Option (Statement × List Token)
  | .mark "(" :: .text _ :: ts => do
    let (names, ts) ← loadedNames? ts
    if names.isEmpty then none else return (.load names, ts)
  | _ => none

/-- An assignment or an expression. -/
def assignment? (fuel : Nat) (ts : List Token) : Option (Statement × List Token) := do
  let (x, ts) ← Tree.expression fuel false ts
  match ts with
  | .mark op :: rest =>
    if op = "=" then
      let (value, rest) ← Tree.expression fuel false rest
      return (.assign x value, rest)
    else
      match augmentations.lookup op with
      | some op =>
        let (value, rest) ← Tree.expression fuel false rest
        return (.augment x op value, rest)
      | none => return (.bare x, ts)
  | _ => return (.bare x, ts)

/-- What is returned from a function, if anything. -/
def returned? (fuel : Nat) (ts : List Token) : Option (Statement × List Token) :=
  match ts with
  | [] => some (.misplaced, ts)
  | .lineEnd :: _ => some (.misplaced, ts)
  | _ => (Tree.expression fuel false ts).map fun (_, ts) => (.misplaced, ts)

/-- The statement of one line, and the tokens from the end of the line on. -/
def small? (fuel : Nat) (ts : List Token) : Option (Statement × List Token) :=
  match ts with
  | .mark word :: rest =>
    if word = "pass" then some (.pass, rest)
    else if word = "break" ∨ word = "continue" then some (.misplaced, rest)
    else if word = "return" then returned? fuel rest
    else if word = "load" then load? rest
    else assignment? fuel ts
  | _ => assignment? fuel ts

/-- The statement of one line, and the tokens after the line. -/
def line? (fuel : Nat) (ts : List Token) : Option (Statement × List Token) := do
  let (s, ts) ← small? fuel ts
  match ts with
  | [] => return (s, [])
  | .lineEnd :: ts => return (s, ts)
  | _ => none

/-- The tokens after the variables of a loop. -/
def afterVariables? : Nat → List Token → Option (List Token)
  | 0, _ => none
  | fuel + 1, ts => do
    let (_, ts) ← Tree.operand fuel Tree.topLevel ts
    if Tree.startsWith "," ts then afterVariables? fuel (ts.drop 1) else return ts

mutual

/-- The tokens after a statement that governs blocks, if one begins here. The number bounds the
nesting of calls. -/
def afterControl? : Nat → List Token → Option (Option (List Token))
  | 0, _ => none
  | fuel + 1, ts =>
    match ts with
    | .mark word :: rest =>
      if word = "if" then
        some do
          let ts ← afterBranch? fuel rest
          afterAlternatives? fuel ts
      else if word = "while" then some (afterBranch? fuel rest)
      else if word = "for" then
        some do
          let ts ← afterVariables? fuel rest
          let ts ← Tree.expect "in" ts
          let (_, ts) ← Tree.expression fuel false ts
          let ts ← Tree.expect ":" ts
          afterBlock? fuel ts
      else none
    | _ => none

/-- The tokens after a condition and the block that it governs. -/
def afterBranch? : Nat → List Token → Option (List Token)
  | 0, _ => none
  | fuel + 1, ts => do
    let (_, ts) ← Tree.test fuel ts
    let ts ← Tree.expect ":" ts
    afterBlock? fuel ts

/-- The tokens after the alternatives to a condition. -/
def afterAlternatives? : Nat → List Token → Option (List Token)
  | 0, _ => none
  | fuel + 1, ts =>
    if Tree.startsWith "elif" ts then do
      let ts ← afterBranch? fuel (ts.drop 1)
      afterAlternatives? fuel ts
    else if Tree.startsWith "else" ts then do
      let ts ← Tree.expect ":" (ts.drop 1)
      afterBlock? fuel ts
    else some ts

/-- The tokens after a block, which is the rest of the line or lines with a wider margin. -/
def afterBlock? : Nat → List Token → Option (List Token)
  | 0, _ => none
  | fuel + 1, ts =>
    match ts with
    | .lineEnd :: .indent :: ts => afterLines? fuel ts
    | _ => (line? fuel ts).map fun (_, ts) => ts

/-- The tokens after the lines of a block. -/
def afterLines? : Nat → List Token → Option (List Token)
  | 0, _ => none
  | fuel + 1, ts =>
    match ts with
    | .outdent :: ts => some ts
    | _ => do
      let ts ←
        match afterControl? fuel ts with
        | some ts => ts
        | none => (line? fuel ts).map fun (_, ts) => ts
      afterLines? fuel ts

end

/-- The statements that tokens make up. Lines that hold no token are left out. -/
def all? : Nat → List Token → Option (List Statement)
  | 0, _ => none
  | fuel + 1, ts =>
    match ts with
    | [] => some []
    | .lineEnd :: ts => all? fuel ts
    | _ =>
      match afterControl? fuel ts with
      | some ts => do
        let rest ← all? fuel (← ts)
        return .misplaced :: rest
      | none => do
        let (s, ts) ← line? fuel ts
        let rest ← all? fuel ts
        return s :: rest

/-- Reads a script. -/
def parse (script : List Char) : Option (List Statement) := do
  let ts ← Token.scan script
  all? (20 * (ts.length + 2)) ts

end Statement

end TaskMachine.Expr
