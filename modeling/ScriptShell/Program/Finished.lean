/-!
# Finished programs

A program that has run to its end leaves a status and what it wrote. Its status is the number it
ended with, or the signal that ended it, which counts as minus one.
-/

namespace ScriptShell

/-- How a program ended. -/
inductive Status where
  | exit (code : Nat)
  | killed (signal : Nat)
  deriving DecidableEq, Repr

/-- The code of a status. -/
def Status.code : Status → Int
  | .exit code => code
  | .killed _ => -1

/-- A program that has ended, with the bytes it wrote to its two streams. -/
structure Finished where
  status : Status
  output : List UInt8
  diagnostics : List UInt8
  deriving Repr

/-- The result of a program as it is reported; the texts are empty when the program wrote to the
streams of the session. -/
structure ProgramResult where
  code : Int
  out : String
  err : String
  deriving DecidableEq, Repr

namespace Finished

/-- A program that wrote nothing. -/
def silent (code : Nat) : Finished := ⟨.exit code, [], []⟩

/-- A program that wrote a text and succeeded. -/
def saying (text : List UInt8) : Finished := ⟨.exit 0, text, []⟩

end Finished

end ScriptShell
