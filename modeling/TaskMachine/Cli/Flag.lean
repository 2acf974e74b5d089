import TaskMachine.Cli.Duration
import TaskMachine.Text.Quoted

/-!
# Flags

The flags of the command line and their values. Flags and other arguments may
stand in any order; `--` ends the flags. A long flag takes its value after `=`
or from the next argument, unless it is a switch. The short flags are switches,
and several of them may share one argument.
-/

namespace TaskMachine.Cli

open Numeral

/-- What the flags set. -/
structure Options where
  help : Bool := false
  verbose : Bool := false
  memory : UInt32 := 0x10000
  budget : Int := 1000
  tasks : Int := 1
  timeout : Int := 0
  stack : UInt32 := 0x400
  entry : String := ""
  noDescriptions : Bool := false
  deriving DecidableEq, Repr

/-- The flags. -/
inductive Flag where
  | help
  | verbose
  | memory
  | budget
  | tasks
  | timeout
  | stack
  | entry
  | noDescriptions
  deriving DecidableEq, Repr

/-- Why the text of a value was refused. -/
inductive ValueError where
  | switch
  | unsigned (e : LiteralError)
  | integer (e : LiteralError)
  | duration (e : DurationError)
  deriving DecidableEq, Repr

/-- The text for a number that was refused by a reader with the given name. -/
def literalMessage (reader text : String) (e : LiteralError) : String :=
  let reason :=
    match e with
    | .malformed => "invalid syntax"
    | .outOfRange => "value out of range"
  "strconv." ++ reader ++ ": parsing " ++ Text.Quoted.encodeText text ++ ": " ++ reason

/-- The text of a value error. -/
def ValueError.message (text : String) : ValueError → String
  | .switch => literalMessage "ParseBool" text .malformed
  | .unsigned e => literalMessage "ParseUint" text e
  | .integer e => literalMessage "ParseInt" text e
  | .duration e => e.message text

/-- The value of a switch. -/
def switchValue (text : String) : Except ValueError Bool :=
  if ["1", "t", "T", "true", "TRUE", "True"].contains text then .ok true
  else if ["0", "f", "F", "false", "FALSE", "False"].contains text then .ok false
  else .error .switch

/-- The value of a 32-bit number. -/
def unsignedValue (text : String) : Except ValueError UInt32 :=
  match unsignedLiteral 0xffffffff text.toList with
  | .ok n => .ok (UInt32.ofNat n)
  | .error e => .error (.unsigned e)

/-- The value of an integer. -/
def integerValue (text : String) : Except ValueError Int :=
  match signedLiteral 64 text.toList with
  | .ok n => .ok n
  | .error e => .error (.integer e)

/-- The value of a duration. -/
def durationValue (text : String) : Except ValueError Int :=
  match duration text with
  | .ok n => .ok n
  | .error e => .error (.duration e)

namespace Flag

/-- The long name of a flag. -/
def name : Flag → String
  | .help => "help"
  | .verbose => "verbose"
  | .memory => "memory"
  | .budget => "budget"
  | .tasks => "tasks"
  | .timeout => "timeout"
  | .stack => "stack"
  | .entry => "entry"
  | .noDescriptions => "no-descriptions"

/-- The short name of a flag that has one. -/
def short? : Flag → Option Char
  | .help => some 'h'
  | .verbose => some 'v'
  | _ => none

/-- Whether a flag may stand without a value. -/
def isSwitch : Flag → Bool
  | .help | .verbose | .noDescriptions => true
  | _ => false

/-- A flag as messages show it. -/
def label (flag : Flag) : String :=
  match flag.short? with
  | some c => "-" ++ c.toString ++ ", --" ++ flag.name
  | none => "--" ++ flag.name

/-- The options with a flag set from the text of its value. -/
def set (o : Options) (text : String) : Flag → Except ValueError Options
  | .help => (switchValue text).map fun v => { o with help := v }
  | .verbose => (switchValue text).map fun v => { o with verbose := v }
  | .memory => (unsignedValue text).map fun v => { o with memory := v }
  | .budget => (integerValue text).map fun v => { o with budget := v }
  | .tasks => (integerValue text).map fun v => { o with tasks := v }
  | .timeout => (durationValue text).map fun v => { o with timeout := v }
  | .stack => (unsignedValue text).map fun v => { o with stack := v }
  | .entry => .ok { o with entry := text }
  | .noDescriptions => (switchValue text).map fun v => { o with noDescriptions := v }

end Flag

/-- What is wrong with a command line. -/
inductive UsageError where
  | badFlag (arg : String)
  | unknownFlag (name : String)
  | unknownShort (short : Char) (rest : String)
  | valueMissing (arg : String)
  | badValue (flag : Flag) (text : String) (e : ValueError)
  | unknownCommand (name parent : String)
  | argumentCount (count : Nat)
  deriving DecidableEq, Repr

/-- A character in single quotes; of a character past ASCII only the first byte is shown. -/
def quotedShort (c : Char) : String :=
  let first := Char.ofNat ((String.utf8EncodeChar c).headD 0).toNat
  let body :=
    if first = '\'' then ['\\', '\''] else if first = '"' then ['"']
    else Text.Quoted.escapeChar first
  "'" ++ String.ofList body ++ "'"

/-- The text of a usage error. -/
def UsageError.message : UsageError → String
  | .badFlag arg => "bad flag syntax: " ++ arg
  | .unknownFlag name => "unknown flag: --" ++ name
  | .unknownShort short rest =>
    "unknown shorthand flag: " ++ quotedShort short ++ " in -" ++ rest
  | .valueMissing arg => "flag needs an argument: " ++ arg
  | .badValue flag text e =>
    "invalid argument " ++ Text.Quoted.encodeText text ++ " for " ++
      Text.Quoted.encodeText flag.label ++ " flag: " ++ e.message text
  | .unknownCommand name parent =>
    "unknown command " ++ Text.Quoted.encodeText name ++ " for " ++ Text.Quoted.encodeText parent
  | .argumentCount count => "accepts 1 arg(s), received " ++ decimalNat count

/-- Sets a flag from the text of its value. -/
def setFlag (o : Options) (flag : Flag) (text : String) : Except UsageError Options :=
  match flag.set o text with
  | .ok o => .ok o
  | .error e => .error (.badValue flag text e)

/-- Whether the short flags of an argument are meant for a test runner, and passed over. -/
def forTestRunner (shorts : List Char) : Bool := "test.".toList.isPrefixOf shorts

/-- Sets the short flags of one argument. -/
def setShorts (known : List Flag) : Options → List Char → Except UsageError Options
  | o, [] => .ok o
  | o, c :: cs =>
    if forTestRunner (c :: cs) then .ok o
    else
      match known.find? fun flag => flag.short? = some c with
      | none => .error (.unknownShort c (String.ofList (c :: cs)))
      | some flag =>
        match cs with
        | '=' :: v :: vs => setFlag o flag (String.ofList (v :: vs))
        | _ =>
          match setFlag o flag "true" with
          | .ok o => setShorts known o cs
          | .error e => .error e

/-- The flag of a long argument, given without its dashes, and the value after `=`. -/
def longFlag (known : List Flag) (arg : String) (body : List Char) :
    Except UsageError (Flag × Option String) :=
  if body.head? = some '-' ∨ body.head? = some '=' then .error (.badFlag arg)
  else
    let name := String.ofList (body.takeWhile (· ≠ '='))
    match known.find? fun flag => flag.name = name with
    | none => .error (.unknownFlag name)
    | some flag =>
      match body.dropWhile (· ≠ '=') with
      | _ :: value => .ok (flag, some (String.ofList value))
      | [] => .ok (flag, if flag.isSwitch then some "true" else none)

/-- Sets the flags among some arguments and gives the arguments that are no flags, of which
`others` come before in reverse. -/
def parseFlags (known : List Flag) :
    Options → List String → List String → Except UsageError (Options × List String)
  | o, others, [] => .ok (o, others.reverse)
  | o, others, arg :: rest =>
    match arg.toList with
    | ['-', '-'] => .ok (o, others.reverse ++ rest)
    | '-' :: '-' :: body =>
      match longFlag known arg body with
      | .error e => .error e
      | .ok (flag, some value) =>
        match setFlag o flag value with
        | .ok o => parseFlags known o others rest
        | .error e => .error e
      | .ok (flag, none) =>
        match rest with
        | [] => .error (.valueMissing arg)
        | value :: rest =>
          match setFlag o flag value with
          | .ok o => parseFlags known o others rest
          | .error e => .error e
    | '-' :: c :: cs =>
      match setShorts known o (c :: cs) with
      | .ok o => parseFlags known o others rest
      | .error e => .error e
    | _ => parseFlags known o (arg :: others) rest

end TaskMachine.Cli
