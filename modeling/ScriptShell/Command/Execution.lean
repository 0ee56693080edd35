import ScriptShell.Command.Argument
import ScriptShell.Command.Outcome
import ScriptShell.Config.Basic
import ScriptShell.Evaluation.Evaluator

/-!
# Running a command in one way

The ways in which a command can run: as a script, as call syntax for one, as a super command, and
as the command of a program. A script that is one expression is evaluated for its value, and any
other is run for its effects. A run that is given too little fuel has no outcome.
-/

namespace ScriptShell

/-- An outcome with the state it leaves, if the run came to an end. -/
abbrev Attempt := Option (Outcome × State)

/-- The outcome of an evaluation. -/
def Attempt.ofValue : Run Value → Attempt
  | .done (.ok v) s => some (.value v, s)
  | .done (.error e) s => some (.failed (.ofFault e), s)
  | .unfinished => none

/-- The outcome of a script. -/
def Attempt.ofScript : Run Unit → Attempt
  | .done (.ok ()) s => some (.nothing, s)
  | .done (.error e) s => some (.failed (.ofFault e), s)
  | .unfinished => none

/-- Runs a text as a script. -/
def runNative (fuel : Nat) (text : String) (s : State) : Attempt :=
  match parseExpression text with
  | .ok e => Attempt.ofValue (eval fuel e s)
  | .error _ =>
    match parse text with
    | .ok script => Attempt.ofScript (runScript fuel script s)
    | .error e => some (.failed (.ofSyntax e.message), s)

/-- Runs a command as call syntax. -/
def runCompiled (fuel : Nat) (command : String) (s : State) : Attempt :=
  match callSyntax? command s.env with
  | some text => runNative fuel text s
  | none => some (.failed (.ofSyntax "empty command"), s)

/-- Runs a super command; it takes no arguments. -/
def runSuper (fuel : Nat) (command : String) (s : State) : Attempt :=
  let name := Text.trim command.toList
  if 1 < (Text.words name).length then
    some (.failed (.ofArguments (String.ofList name)), s)
  else runNative fuel (String.ofList name ++ "()") s

/-- Runs a command as that of a program: the first alias it begins with is replaced, and its pieces
are the words of the program. -/
def runShell {σ : Type} (runner : Runner σ) (c : Config) (command : String) (w : World)
    (memory : σ) : Outcome × World × σ :=
  match Piece.textsOfLine (Alias.apply c.aliases command) with
  | [] => (.nothing, w, memory)
  | name :: args =>
    match runner.run (name :: args) c.captureOutput w memory with
    | (.ok result, w, memory) => (.process result, w, memory)
    | (.error r, w, memory) =>
      (.failed (if r.isNotFound then .ofMissingProgram name else .ofRefusal r), w, memory)

end ScriptShell
