/-!
# Configuration

What a session is told when it starts: which bare names are run as functions before anything else
is tried, which beginnings of commands stand for others, and whether the output of programs is
captured.
-/

namespace ScriptShell

/-- A beginning of commands and what stands for it. -/
structure Alias where
  beginning : String
  replacement : String
  deriving DecidableEq, Repr

/-- The configuration of a session. -/
structure Config where
  superCommands : List String
  aliases : List Alias
  captureOutput : Bool
  deriving DecidableEq, Repr

/-- The configuration when nothing is said. -/
def Config.standard : Config := ⟨["files", "exit"], [⟨"python", "python3"⟩], false⟩

/-- Whether a command is a super command: one of the configured names, with nothing around it. -/
def Config.isSuperCommand (c : Config) (command : String) : Bool := c.superCommands.contains command

/-- The characters of a text after those of another one that it begins with. -/
def afterBeginning : List Char → List Char → Option (List Char)
  | [], cs => some cs
  | _ :: _, [] => none
  | b :: bs, c :: cs => if b = c then afterBeginning bs cs else none

/-- A command with its beginning replaced by the first alias that has it. -/
def Alias.apply (aliases : List Alias) (command : String) : String :=
  match aliases with
  | [] => command
  | a :: others =>
    match afterBeginning a.beginning.toList command.toList with
    | some rest => a.replacement ++ String.ofList rest
    | none => Alias.apply others command

end ScriptShell
