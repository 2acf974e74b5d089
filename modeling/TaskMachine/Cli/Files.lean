import TaskMachine.Text.Lines

/-!
# Files and paths

A tree of files as a program sees it: what there is at a path from the root, and
in which directory the program works. A path is followed name by name; what
cannot be opened has a reason. A directory can be opened like a file, but there
is nothing to read in it.
-/

namespace TaskMachine.Cli

/-- What may be at a path. -/
inductive Node where
  | file (contents : String)
  | directory
  deriving DecidableEq, Repr

/-- What can be read from a node. -/
def Node.contents : Node → String
  | .file contents => contents
  | .directory => ""

/-- A tree of files: its nodes by the names that lead to them, and the working directory. -/
structure Files where
  node? : List String → Option Node
  current : List String

/-- Why a path cannot be opened. -/
inductive OpenError where
  | missing
  | notDirectory
  | tooLong
  | invalid
  deriving DecidableEq, Repr

/-- The text of a reason. -/
def OpenError.message : OpenError → String
  | .missing => "no such file or directory"
  | .notDirectory => "not a directory"
  | .tooLong => "file name too long"
  | .invalid => "invalid argument"

namespace Files

/-- The bytes that a name may have. -/
def nameLimit : Nat := 255

/-- The bytes that a path must stay below. -/
def pathBound : Nat := 4096

/-- The names after one more part of a path. An empty part and a single dot stay in place, two
dots go up; all of them need a directory to start from. -/
def step (files : Files) (place : List String) (part : String) :
    Except OpenError (List String) :=
  if files.node? place ≠ some .directory then .error .notDirectory
  else if part = "" ∨ part = "." then .ok place
  else if part = ".." then .ok place.dropLast
  else if nameLimit < part.utf8ByteSize then .error .tooLong
  else
    let next := place ++ [part]
    if (files.node? next).isSome then .ok next else .error .missing

/-- Follows the parts of a path. -/
def follow (files : Files) : List String → List String → Except OpenError (List String)
  | place, [] => .ok place
  | place, part :: parts =>
    match files.step place part with
    | .ok next => files.follow next parts
    | .error e => .error e

/-- What is at a path. -/
def locate (files : Files) (path : String) : Except OpenError Node :=
  let cs := path.toList
  if cs.contains (Char.ofNat 0) then .error .invalid
  else if path = "" then .error .missing
  else if pathBound ≤ path.utf8ByteSize then .error .tooLong
  else
    let start := if cs.head? = some '/' then [] else files.current
    match files.follow start ((Text.splitOn '/' cs).map String.ofList) with
    | .error e => .error e
    | .ok place =>
      match files.node? place with
      | some node => .ok node
      | none => .error .missing

/-- What can be read at a path. -/
def read (files : Files) (path : String) : Except OpenError String :=
  (files.locate path).map Node.contents

end Files

end TaskMachine.Cli
