import TaskMachine.Text.Letter

/-!
# Interpreters

The expressions of a source are written in Starlark, and what they come to is up
to an interpreter of that language. Everything that reads sources takes the
interpreter as a parameter: it runs a script over integers that are defined for it
and gives the integer that a name is bound to in the end. So the outcome depends
on nothing but the script and these integers. That it depends on no more of them
than the script has names for is `Interpreter.Lexical`, which a result has as a
hypothesis if it relies on it.

The other modules of this folder make up the interpreter `Expr.starlark` of a part
of the language, which is the one that the command runs.
-/

namespace TaskMachine

namespace Expr

/-- Why a script has no integer to give. -/
inductive Error where
  /-- It is not made up of statements. -/
  | malformed
  /-- It uses a name that nothing defines, binds one twice, breaks a rule of calls, assigns to
  what cannot be assigned to, or holds a statement that has no place there. -/
  | unresolved
  /-- Evaluating it fails. -/
  | failed
  /-- The name is bound to nothing, or to something other than an integer. -/
  | notInteger
  deriving DecidableEq, Repr

/-- Whether a character is a decimal digit. -/
def isDigit (c : Char) : Bool := '0' ≤ c && c ≤ '9'

/-- Whether a character may begin a name. -/
def isNameStart (c : Char) : Bool := c = '_' || Text.isLetter c

/-- Whether a character may continue a name. -/
def isNamePart (c : Char) : Bool := isNameStart c || isDigit c

/-- The longest stretches of a text that have only characters of names. -/
def runs (text : List Char) : List (List Char) :=
  (text.splitOnP fun c => !isNamePart c).filter (· ≠ [])

theorem runs_nil : runs [] = [] := rfl

/-- Where a text is cut at a character that no name has, no run is. -/
theorem runs_append_cons (xs : List Char) {c : Char} (hc : isNamePart c = false) (ys : List Char) :
    runs (xs ++ c :: ys) = runs xs ++ runs ys := by
  have hsep : (!isNamePart c) = true := by rw [hc, Bool.not_false]
  unfold runs
  rw [List.splitOnP_append_cons (p := fun c => !isNamePart c) xs ys hsep, List.filter_append]

theorem runs_cons {c : Char} (hc : isNamePart c = false) (cs : List Char) :
    runs (c :: cs) = runs cs := runs_append_cons [] hc cs

/-- All that may be a name in a text. -/
def names (text : List Char) : List String := (runs text).map String.ofList

end Expr

/-- What runs scripts. -/
class Interpreter where
  /-- The integer that a name is bound to after a script, over integers that are defined for the
  script, or why there is none. -/
  integerOf (defined : String → Option Int) (script : List Char) (name : String) :
    Except Expr.Error Int

/-- The integers that are defined for a script make no difference unless their names stand in
it. -/
def Interpreter.Lexical [Interpreter] : Prop :=
  ∀ (defined defined' : String → Option Int) (script : List Char) (name : String),
    (∀ s ∈ Expr.names script, defined s = defined' s) →
      integerOf defined script name = integerOf defined' script name

end TaskMachine
