import TaskMachine.Cli.Flag

/-!
# Invocations

A command line names a command and a file. The command is the first argument
that is no flag and no flag's value; as the command's own flags are not known
while it is looked for, an unknown flag is taken to have a value.
-/

namespace TaskMachine.Cli

/-- The shells that a completion script can be asked for. -/
inductive Shell where
  | bash
  | zsh
  | fish
  | powershell
  deriving DecidableEq, Repr

/-- The name of a shell. -/
def Shell.name : Shell → String
  | .bash => "bash"
  | .zsh => "zsh"
  | .fish => "fish"
  | .powershell => "powershell"

/-- The commands; `top` is the command line without one. -/
inductive Command where
  | top
  | help
  | asm
  | run
  | completion
  | script (shell : Shell)
  deriving DecidableEq, Repr

namespace Command

/-- The names that lead to a command. -/
def path : Command → List String
  | .top => []
  | .help => ["help"]
  | .asm => ["asm"]
  | .run => ["run"]
  | .completion => ["completion"]
  | .script shell => ["completion", shell.name]

/-- A command as messages name it. -/
def title (command : Command) : String := " ".intercalate ("pip2" :: command.path)

/-- The commands under a command. -/
def children : Command → List Command
  | .top => [.asm, .run, .help, .completion]
  | .completion => [.script .bash, .script .zsh, .script .fish, .script .powershell]
  | _ => []

/-- The command under a command with a name. -/
def child? (command : Command) (name : String) : Option Command :=
  command.children.find? fun child => child.path.getLast? = some name

/-- The flags of a command. -/
def flags : Command → List Flag
  | .top | .help | .asm | .completion => [.help, .verbose, .memory]
  | .run => [.help, .verbose, .memory, .budget, .tasks, .timeout, .stack, .entry]
  | .script _ => [.help, .verbose, .memory, .noDescriptions]

end Command

/-- Whether the argument after this one is taken for its value while the command is looked
for. -/
def takesNext (arg : String) : Bool :=
  match arg.toList with
  | '-' :: '-' :: body => !body.contains '=' && body ≠ Flag.verbose.name.toList
  | ['-', c] => c.utf8Size = 1 && c ≠ '=' && some c ≠ Flag.verbose.short?
  | _ => false

/-- The arguments that are no flags and no flags' values. -/
def bareArguments : List String → List String
  | [] => []
  | arg :: rest =>
    if arg = "--" then []
    else if takesNext arg then
      match rest with
      | _ :: next :: rest => bareArguments (next :: rest)
      | _ => []
    else if arg = "" ∨ arg.toList.head? = some '-' then bareArguments rest
    else arg :: bareArguments rest

/-- The arguments without the name of the command. -/
def withoutName (name : String) : List String → List String
  | [] => []
  | arg :: rest =>
    if arg = "--" then arg :: rest
    else if takesNext arg then
      match rest with
      | [] => [arg]
      | value :: rest => arg :: value :: withoutName name rest
    else if arg = name then rest
    else arg :: withoutName name rest

/-- The command under a command that its arguments name, if they do, and the arguments for it. -/
def descend (command : Command) (args : List String) : Option (Command × List String) :=
  match bareArguments args with
  | [] => none
  | name :: _ => (command.child? name).map fun child => (child, withoutName name args)

/-- The command of a command line, and the arguments for it. -/
def select (args : List String) : Except UsageError (Command × List String) :=
  match descend .top args, bareArguments args with
  | some (command, args), _ => .ok ((descend command args).getD (command, args))
  | none, [] => .ok (.top, args)
  | none, name :: _ => .error (.unknownCommand name Command.top.title)

/-- What a command line asks for. -/
inductive Invocation where
  | help
  /-- Help about what is no command. -/
  | noTopic (names : List String)
  | asm (options : Options) (path : String)
  | run (options : Options) (path : String)
  deriving DecidableEq, Repr

/-- What a command is asked for with its options and other arguments. -/
def Command.invocation (options : Options) : Command → List String → Except UsageError Invocation
  | .top, _ => .ok .help
  | .completion, _ => .ok .help
  | .help, names =>
    match select names with
    | .ok _ => .ok .help
    | .error _ => .ok (.noTopic names)
  | .asm, [path] => .ok (.asm options path)
  | .run, [path] => .ok (.run options path)
  | .script _, [] => .ok .help
  | .script shell, name :: _ => .error (.unknownCommand name (Command.script shell).title)
  | _, arguments => .error (.argumentCount arguments.length)

/-- Reads a command line. -/
def Invocation.parse (args : List String) : Except UsageError Invocation := do
  let (command, args) ← select args
  let (options, arguments) ← parseFlags command.flags {} [] args
  if options.help then return .help
  command.invocation options arguments

/-- The file that an invocation reads. -/
def Invocation.path? : Invocation → Option String
  | .asm _ path => some path
  | .run _ path => some path
  | _ => none

end TaskMachine.Cli
