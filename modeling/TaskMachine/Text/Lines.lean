/-!
# Lines and words of a source text

A line ends at a line feed, and a carriage return right before the end belongs
to the ending. Reading stops, without a trace, at the first line that does not
fit the reader's buffer.
-/

namespace TaskMachine.Text

/-- The parts of a text between occurrences of a separator. There is always one more part
than there are separators. -/
def splitOn (sep : Char) (cs : List Char) : List (List Char) :=
  cs.foldr
    (fun c parts =>
      if c = sep then [] :: parts
      else
        match parts with
        | [] => [[c]]
        | p :: ps => (c :: p) :: ps)
    [[]]

/-- The nonempty parts between spaces. Only the plain space separates words. -/
def words (cs : List Char) : List (List Char) := (splitOn ' ' cs).filter (· ≠ [])

/-- The part of a text before the first occurrence of a separator. -/
def before (sep : Char) (cs : List Char) : List Char := cs.takeWhile (· ≠ sep)

/-- The bytes a line may have, its carriage return included. -/
def lineLimit : Nat := 64 * 1024 - 1

/-- The number of bytes of a text in its encoding. -/
def byteCount (cs : List Char) : Nat := cs.foldl (fun n c => n + c.utf8Size) 0

/-- A line without the carriage return at its end. -/
def dropReturn (cs : List Char) : List Char :=
  match cs.getLast? with
  | some '\r' => cs.dropLast
  | _ => cs

/-- The lines of a text as they stand between line feeds; nothing after the last one is
no line. -/
def rawLines (cs : List Char) : List (List Char) :=
  let parts := splitOn '\n' cs
  match parts.getLast? with
  | some [] => parts.dropLast
  | _ => parts

/-- The lines that are read: all of them up to the first one past the limit. -/
def readLines (cs : List Char) : List (List Char) :=
  ((rawLines cs).takeWhile fun line => byteCount line ≤ lineLimit).map dropReturn

end TaskMachine.Text
