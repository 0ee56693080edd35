import ScriptShell.Config.Reader
import ScriptShell.Files.Operation
import ScriptShell.Session.History
import ScriptShell.Session.Interaction
import ScriptShell.Session.TypedLine

/-!
# Sessions from start to end

Where a user's files are, how the configuration is loaded, and the two ways in which a session is
run: for one command, and for the lines of a standard input that is no terminal. At the end of the
latter the history is written to its file, unless no entry is new.
-/

namespace ScriptShell

namespace UserFiles

/-- The directory of the configuration. -/
def configDirectory (home : String) : String := Path.join home ".config/clamshell"

/-- The directory of the session's own data. -/
def dataDirectory (home : String) : String := Path.join home ".local/share/clamshell"

/-- The configuration file. -/
def configFile (home : String) : String := Path.join (configDirectory home) "config.toml"

/-- The history file. -/
def historyFile (home : String) : String := Path.join (dataDirectory home) "history.txt"

end UserFiles

/-- Why a configuration cannot be loaded. -/
inductive ConfigError where
  | unreadable (path : String) (reason : Refusal)
  | malformed (path : String)
  deriving DecidableEq, Repr

namespace ConfigError

/-- What every report of such an error starts with. -/
def heading : String := "Failed to load configuration"

/-- The message of an error. -/
def message : ConfigError → String
  | .unreadable path reason => "failed reading " ++ path ++ ": " ++ reason.message
  | .malformed path => "failed parsing " ++ path

/-- The columns by which the lines of a cause are indented after its first one. -/
def causeMargin : String := "       "

/-- A cause of a report: its lines stand below each other, right of its number. -/
def cause (number text : String) : String :=
  "    " ++ number ++ ": " ++
    String.join (text.toList.map fun c =>
      if c = '\n' then "\n" ++ causeMargin else String.singleton c)

/-- The report of an error with its causes. -/
def report (e : ConfigError) : String :=
  let first := "Error: " ++ heading ++ "\n\nCaused by:\n" ++ cause "0" e.message
  match e with
  | .unreadable _ reason => first ++ "\n" ++ cause "1" reason.message ++ "\n"
  | .malformed _ => first

end ConfigError

/-- Loads the configuration file at a path. -/
def Config.load (w : World) (path : String) : Except ConfigError Config :=
  match w.readText path with
  | .error r => .error (.unreadable path r)
  | .ok text =>
    match Config.ofText? text with
    | some c => .ok c
    | none => .error (.malformed path)

/-- Loads the configuration at a path, or the user's, which may be missing. -/
def Config.loadFor (w : World) : Option String → Except ConfigError Config
  | some path => Config.load w path
  | none =>
    let path := UserFiles.configFile w.home
    if w.hasPath path then Config.load w path else .ok Config.standard

/-- Runs one command and writes what it shows, a failure to the standard error. The answer says
whether the command succeeded. -/
def runOne (c : Config) (fuel : Nat) (command : String) (w : World) : Option (Bool × World) := do
  let (outcome, s) ← (Session.start w).execute .system c fuel command
  let shown := Display.render true outcome
  let s := if outcome.isFailure then shown.elim s s.printError else s.printShown shown
  return (!outcome.isFailure, s.state.world)

namespace History

/-- The history in the file at a path; a file that cannot be read holds none. -/
def load (w : World) (path : String) : History :=
  match w.readBytes path with
  | .ok bytes => ofBytes bytes
  | .error _ => empty

/-- Writes a history to the file at a path, unless no entry is new or the file's directory cannot
be made. -/
def save (h : History) (w : World) (path : String) : World :=
  let made := match Path.parent? path with
    | some parent => World.makeDirectories (World.greatestPath + 1) w parent
    | none => (.ok (), w)
  match made with
  | (.error _, w) => w
  | (.ok (), w) =>
    if h.fresh = 0 then w
    else
      match w.writable path with
      | .ok place => w.writeAt place (Text.Utf8.encode h.text)
      | .error _ => w

end History

/-- The lines of an input, as they are after their backspaces. -/
def inputLines (input : String) : List String :=
  (Text.lines input.toList).map fun line => String.ofList (TypedLine.final line)

/-- What an interactive session says first. -/
def banner : String := "clamshell v0.3.0\nType exit to quit.\n"

/-- Runs a command of an interactive session: it is added to the history unless it is blank, and
what it shows is written. -/
def processCommand {σ : Type} (runner : Runner σ) (c : Config) (fuel : Nat) (command : String)
    (s : Session σ × History) : Option (Session σ × History) := do
  let history := if isBlankCommand command then s.2 else s.2.add command
  let (outcome, session) ← s.1.execute runner c fuel command
  return (session.printShown (Display.render true outcome), history)

/-- Runs the commands of an interactive session, which are read from lines. -/
def conduct {σ : Type} (runner : Runner σ) (c : Config) (fuel : Nat) (s : Session σ × History)
    (lines : List String) : Option ((Session σ × History) × InteractionEnd) :=
  interact (processCommand runner c fuel) (fun s => s.1.isOver) s lines

/-- Runs an interactive session on an input. -/
def runInteractive (c : Config) (fuel : Nat) (historyPath : Option String) (input : String)
    (w : World) : Option World := do
  let session := (Session.start w).printLine banner
  let history := (historyPath.map (History.load w)).getD .empty
  let ((session, history), _) ← conduct .system c fuel (session, history) (inputLines input)
  let w := session.state.world
  return historyPath.elim w (history.save w)

end ScriptShell
