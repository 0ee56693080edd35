import ScriptShell.Command.Execution

/-!
# Dispatching commands

A command goes one route, the first that fits: a super command is run as such, a script natively, a
command that is call syntax for a script is compiled, and everything else is the command of a
program. A command that was run natively or compiled and found a name unbound is tried again as the
command of a program; if there is no such program either, the unbound name is what is reported.
-/

namespace ScriptShell

/-- The ways a command can go. -/
inductive Route where
  | super | native | compiled | shell
  deriving DecidableEq, Repr

/-- What is reported of a dispatched command. -/
structure Report where
  route : Route
  /-- Whether the command was tried again as that of a program. -/
  retried : Bool
  outcome : Outcome

/-- A session: its state and what its runner remembers. -/
structure Session (σ : Type) where
  state : State
  memory : σ

/-- The route of a command. -/
def classify (c : Config) (env : Environment) (command : String) : Route :=
  if c.isSuperCommand command then .super
  else if compiles command then .native
  else
    match callSyntax? command env with
    | some text => if compiles text then .compiled else .shell
    | none => .shell

namespace Session

/-- Runs a command as that of a program. -/
def runShell {σ : Type} (runner : Runner σ) (c : Config) (command : String) (s : Session σ) :
    Outcome × Session σ :=
  let (outcome, world, memory) := ScriptShell.runShell runner c command s.state.world s.memory
  (outcome, ⟨{ s.state with world := world }, memory⟩)

/-- Tries a command again as that of a program after a script found a name unbound. -/
def retry {σ : Type} (runner : Runner σ) (c : Config) (command : String) (outcome : Outcome)
    (s : Session σ) : Outcome × Session σ :=
  let (again, s) := s.runShell runner c command
  (if again.failedWith .executableNotFound then outcome else again, s)

/-- Runs a command as a script, natively or compiled, and tries it again if a name is unbound. -/
def runOrRetry {σ : Type} (runner : Runner σ) (c : Config) (command : String) (route : Route)
    (attempt : Attempt) (s : Session σ) : Option (Report × Session σ) :=
  match attempt with
  | none => none
  | some (outcome, state) =>
    let s : Session σ := ⟨state, s.memory⟩
    if outcome.failedWith .unresolvedName then
      let (outcome, s) := s.retry runner c command outcome
      some (⟨route, true, outcome⟩, s)
    else some (⟨route, false, outcome⟩, s)

/-- Classifies a command and runs it. -/
def dispatch {σ : Type} (runner : Runner σ) (c : Config) (fuel : Nat) (command : String)
    (s : Session σ) : Option (Report × Session σ) :=
  match classify c s.state.env command with
  | .super =>
    match runSuper fuel command s.state with
    | none => none
    | some (outcome, state) => some (⟨.super, false, outcome⟩, ⟨state, s.memory⟩)
  | .native => s.runOrRetry runner c command .native (runNative fuel command s.state)
  | .compiled => s.runOrRetry runner c command .compiled (runCompiled fuel command s.state)
  | .shell =>
    let (outcome, s) := s.runShell runner c command
    some (⟨.shell, false, outcome⟩, s)

end Session

end ScriptShell
