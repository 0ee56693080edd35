import ScriptShell.Session.Startup

/-!
# The command line of the program

The program takes the path of a configuration, one command to run, and the wish to do without a
history file; each can be given once. Without a command it runs an interactive session. Asking for
help or the version ends the program at once, and anything else is a usage error.
-/

namespace ScriptShell

/-- What the options ask for. -/
structure Options where
  config : Option String
  command : Option String
  noHistory : Bool
  deriving DecidableEq, Repr

/-- What a command line asks for. -/
inductive Invocation where
  | run (options : Options)
  | version
  | help
  | usageError
  deriving DecidableEq, Repr

namespace Options

/-- No options. -/
def none : Options := ⟨.none, .none, false⟩

/-- Sets the path of the configuration, which has to be given once and not be empty. -/
def setConfig (path : String) (o : Options) : Option Options :=
  if path.isEmpty || o.config.isSome then .none else some { o with config := path }

/-- Sets the command, which has to be given once. -/
def setCommand (command : String) (o : Options) : Option Options :=
  if o.command.isSome then .none else some { o with command := command }

/-- Does without a history file, which has to be said once. -/
def setNoHistory (o : Options) : Option Options :=
  if o.noHistory then .none else some { o with noHistory := true }

end Options

namespace Invocation

/-- Whether an argument can be the value of the option before it. -/
def isValue (arg : String) : Bool := arg == "-" || !arg.startsWith "-"

/-- The text after the first characters of another one. -/
def after (count : Nat) (s : String) : String := String.ofList (s.toList.drop count)

/-- The value attached to the letter of an option: an equals sign before it does not count. -/
def attached (arg : String) : String :=
  let value := after 2 arg
  if value.startsWith "=" then after 1 value else value

/-- An option of a kind that takes a value. -/
def setter? (name : String) : Option (String → Options → Option Options) :=
  match name with
  | "--config" => some Options.setConfig
  | "--command" | "-c" => some Options.setCommand
  | _ => none

/-- The name of a long option and the value that is attached to it by an equals sign. -/
def longParts (arg : String) : String × Option String :=
  let name := arg.toList.takeWhile (· != '=')
  match arg.toList.drop name.length with
  | _ :: value => (String.ofList name, some (String.ofList value))
  | [] => (arg, none)

/-- What arguments ask for, after the options read so far. -/
def parseFrom (o : Options) : List String → Invocation
  | [] => .run o
  | ["--"] => .run o
  | "--version" :: _ => .version
  | "--help" :: _ => .help
  | "--no-history" :: args =>
    match o.setNoHistory with
    | some o => parseFrom o args
    | none => .usageError
  | [arg] => parseLast o arg
  | arg :: value :: args =>
    match setter? arg with
    | some set =>
      if isValue value then
        match set value o with
        | some o => parseFrom o args
        | none => .usageError
      else .usageError
    | none =>
      match parseLast o arg with
      | .run o => parseFrom o (value :: args)
      | other => other
where
  /-- What an argument asks for that has no value after it. -/
  parseLast (o : Options) (arg : String) : Invocation :=
    if arg.startsWith "--" then
      match longParts arg with
      | (name, some value) =>
        match (setter? name).bind fun set => set value o with
        | some o => .run o
        | none => .usageError
      | _ => .usageError
    else
      match arg.toList with
      | '-' :: 'V' :: _ => .version
      | '-' :: 'h' :: _ => .help
      | '-' :: 'c' :: _ :: _ =>
        match o.setCommand (attached arg) with
        | some o => .run o
        | none => .usageError
      | _ => .usageError

/-- What the arguments of the program ask for. -/
def parse (args : List String) : Invocation := parseFrom .none args

end Invocation

/-- What the program has done: the code it ends with, and the world it leaves. -/
structure Completion where
  code : Nat
  world : World

/-- The version of the program. -/
def versionText : String := "clam 0.3.0\n"

/-- How the program is used. -/
def helpText : String :=
  "A shell where script and command lines share one prompt\n\nUsage: clam [OPTIONS]\n\n" ++
  "Options:\n" ++
  "      --config <PATH>   Configuration file (default: the per-user config.toml)\n" ++
  "  -c, --command <TEXT>  Dispatch one command and exit\n" ++
  "      --no-history      Do not read or write the history file\n" ++
  "  -h, --help            Print help\n" ++
  "  -V, --version         Print version\n"

/-- Runs what options ask for in a configuration. -/
def runOptions (o : Options) (c : Config) (fuel : Nat) (input : String) (w : World) :
    Option Completion :=
  match o.command with
  | some command => (runOne c fuel command w).map fun (ok, w) => ⟨if ok then 0 else 1, w⟩
  | none =>
    let history := if o.noHistory then none else some (UserFiles.historyFile w.home)
    (runInteractive c fuel history input w).map fun w => ⟨0, w⟩

/-- Runs the program on its arguments and its standard input. -/
def runProgram (fuel : Nat) (args : List String) (input : String) (w : World) :
    Option Completion :=
  let say (code : Nat) (text : String) : Option Completion :=
    some ⟨code, w.write (Text.Utf8.encode text)⟩
  match Invocation.parse args with
  | .version => say 0 versionText
  | .help => say 0 helpText
  | .usageError => some ⟨2, w.writeDiagnostics (Text.Utf8.encode "usage error\n")⟩
  | .run o =>
    match Config.loadFor w o.config with
    | .ok c => runOptions o c fuel input w
    | .error e => some ⟨1, w.writeDiagnostics (Text.Utf8.encode e.report)⟩

end ScriptShell
