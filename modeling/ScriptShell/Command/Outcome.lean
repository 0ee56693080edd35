import ScriptShell.Files.Refusal
import ScriptShell.Program.Finished
import ScriptShell.Token.Basic
import ScriptShell.Value.Fault

/-!
# Outcomes of commands

What a command comes to: a value, the result of a program, nothing to show, or a failure. A failure
has a kind, on which it depends whether the command is tried in another way, and a category and a
message for the user.
-/

namespace ScriptShell

/-- The kinds of failures. -/
inductive FailureKind where
  /-- A name is bound nowhere. -/
  | unresolvedName
  /-- A program is not there. -/
  | executableNotFound
  /-- A text is no script, or leaves a loop or function where there is none. -/
  | syntaxInvalid
  /-- A super command is given arguments. -/
  | malformedSuperCommand
  /-- Anything else that goes wrong when a command runs. -/
  | runtime
  deriving DecidableEq, Repr

/-- A failure of a command. -/
structure Failure where
  kind : FailureKind
  category : String
  message : String
  deriving DecidableEq, Repr

namespace Failure

/-- The failure of a text that is no script. -/
def ofSyntax (message : String) : Failure :=
  ⟨.syntaxInvalid, Category.syntaxError.text, message⟩

/-- The failure of a run that ended with a fault. -/
def ofFault (e : EvalError) : Failure :=
  let kind := match e with
    | .unboundName _ => FailureKind.unresolvedName
    | .misplaced _ => .syntaxInvalid
    | _ => .runtime
  ⟨kind, e.category.text, e.message⟩

/-- The failure of a program that is not there. -/
def ofMissingProgram (name : String) : Failure :=
  ⟨.executableNotFound, "FileNotFoundError", "No such file or directory: '" ++ name ++ "'"⟩

/-- The failure of a program that cannot be run. -/
def ofRefusal (r : Refusal) : Failure := ⟨.runtime, Category.system.text, r.message⟩

/-- The failure of a super command that is given arguments. -/
def ofArguments (command : String) : Failure :=
  ⟨.malformedSuperCommand, Category.syntaxError.text,
    "super command '" ++ command ++ "' takes no arguments"⟩

/-- A failure as it is shown. -/
def text (f : Failure) : String := f.category ++ ": " ++ f.message

end Failure

/-- What a command comes to. -/
inductive Outcome where
  | value (value : Value)
  | process (result : ProgramResult)
  | nothing
  | failed (failure : Failure)

namespace Outcome

/-- The failure of an outcome, if it is one. -/
def failure? : Outcome → Option Failure
  | .failed f => some f
  | _ => none

/-- Whether an outcome is a failure. -/
def isFailure (o : Outcome) : Bool := o.failure?.isSome

/-- Whether an outcome is a failure of a kind. -/
def failedWith (o : Outcome) (kind : FailureKind) : Bool := o.failure?.any fun f => f.kind == kind

end Outcome

end ScriptShell
