import ScriptShell.Command.Continuation
import ScriptShell.Command.Dispatch
import ScriptShell.Session.Display

/-!
# Interaction

A session reads its lines as commands and runs these one after the other, until one of them asks
for the end or the lines run out. A command that waits for more lines when they run out is not run.
-/

namespace ScriptShell

/-- Why an interaction is over. -/
inductive InteractionEnd where
  | requested
  | noMoreLines
  | insideCommand
  deriving DecidableEq, Repr

/-- Reads commands from lines and processes each of them, until the state says that it is over or
the lines run out. It comes to no end if processing a command does not. -/
def interact {τ : Type} (process : String → τ → Option τ) (isOver : τ → Bool) (state : τ) :
    List String → Option (τ × InteractionEnd)
  | [] => some (state, .noMoreLines)
  | first :: lines =>
    match _h : readCommand first lines with
    | none => some (state, .insideCommand)
    | some (command, _, rest) =>
      match process command state with
      | none => none
      | some state =>
        if isOver state then some (state, .requested) else interact process isOver state rest
termination_by lines => lines.length
decreasing_by
  exact Nat.lt_succ_of_le (length_rest_of_readCommand _h)

/-- Whether a command is blank; such a command is not dispatched. -/
def isBlankCommand (command : String) : Bool := Text.isAllBlank command.toList

namespace Session

/-- Runs a command, unless it is blank. -/
def execute {σ : Type} (runner : Runner σ) (c : Config) (fuel : Nat) (command : String)
    (s : Session σ) : Option (Outcome × Session σ) :=
  if isBlankCommand command then some (.nothing, s)
  else (s.dispatch runner c fuel command).map fun (report, s) => (report.outcome, s)

/-- Writes a line to the standard output of the session's world. -/
def printLine {σ : Type} (text : String) (s : Session σ) : Session σ :=
  { s with state := { s.state with
      world := s.state.world.write (Text.Utf8.encode (text ++ "\n")) } }

/-- Writes a line to the standard error of the session's world. -/
def printError {σ : Type} (text : String) (s : Session σ) : Session σ :=
  { s with state := { s.state with
      world := s.state.world.writeDiagnostics (Text.Utf8.encode (text ++ "\n")) } }

/-- Writes what an outcome shows, if it shows anything. -/
def printShown {σ : Type} (shown : Option String) (s : Session σ) : Session σ :=
  shown.elim s s.printLine

/-- Whether a session was asked to end. -/
def isOver {σ : Type} (s : Session σ) : Bool := s.state.env.exitRequested

/-- The session that starts in a world. -/
def start (w : World) : Session Unit := ⟨⟨Environment.withBuiltins, w⟩, ()⟩

end Session

end ScriptShell
