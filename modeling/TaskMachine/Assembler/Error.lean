import TaskMachine.Expr.Interpreter
import TaskMachine.Numeral.Digits

/-!
# Assembly errors

What is wrong with a source text, and where. A cause is wrapped once for every
macro whose expansion it arose in, and once for the source line; `message` is
the text for all of that together.
-/

namespace TaskMachine

open Numeral

/-- A cause, or a cause with its place. -/
inductive AsmError where
  /-- The cause arose on a line with this number and text. -/
  | located (number : Nat) (text : String) (cause : AsmError)
  /-- The cause arose on this line of the macro with this name. -/
  | expanding (name : String) (number : Nat) (cause : AsmError)
  | labelMissing (label : String)
  | outOfReach (label : String) (distance : Int)
  | notNumber (word : String)
  | notExpression (text : String)
  | expression (e : Expr.Error)
  | equateSyntax
  | equateDuplicate
  | labelDuplicate
  | macroSyntax
  | macroNesting
  | macroDuplicate
  | macroUnclosed
  | macroUnopened
  | macroDepth
  | poolSyntax
  | operandExtra
  | operandMissing
  | registerInvalid
  | instructionInvalid
  | immediateRange
  deriving DecidableEq, Repr

namespace AsmError

/-- The text of an error. -/
def message : AsmError → String
  | .located number text cause =>
    "line " ++ grouped number ++ " '" ++ text ++ "' " ++ cause.message
  | .expanding name number cause =>
    "macro " ++ name ++ " line " ++ grouped number ++ " " ++ cause.message
  | .labelMissing label => "label " ++ label ++ " missing"
  | .outOfReach label distance =>
    "label " ++ label ++ " displacement " ++ grouped distance ++ " out of range"
  | .notNumber word => "'" ++ word ++ "' is not a number"
  | .notExpression text => "$(" ++ text ++ ") is not a valid expression"
  | .expression .malformed => "expression is malformed"
  | .expression .unresolved => "expression uses an undefined name"
  | .expression .failed => "expression cannot be evaluated"
  | .expression .notInteger => "expression is not an integer"
  | .equateSyntax => ".equ syntax"
  | .equateDuplicate => ".equ duplicated"
  | .labelDuplicate => "label duplicated"
  | .macroSyntax => ".macro syntax"
  | .macroNesting => ".macro in .macro prohibited"
  | .macroDuplicate => ".macro duplicated"
  | .macroUnclosed => ".macro without .endm"
  | .macroUnopened => ".endm without .macro"
  | .macroDepth => ".macro nested too deeply"
  | .poolSyntax => ".pool syntax"
  | .operandExtra => "excessive arguments"
  | .operandMissing => "operand missing"
  | .registerInvalid => "register invalid"
  | .instructionInvalid => "instruction invalid"
  | .immediateRange => "immediate out of range"

/-- The cause without its places. -/
def root : AsmError → AsmError
  | .located _ _ cause => cause.root
  | .expanding _ _ cause => cause.root
  | e => e

/-- The numbers and texts of the lines an error is located on, outermost first. -/
def places : AsmError → List (Nat × String)
  | .located number text cause => (number, text) :: cause.places
  | .expanding _ _ cause => cause.places
  | _ => []

end AsmError

end TaskMachine
