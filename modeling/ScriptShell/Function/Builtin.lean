import ScriptShell.Command.Piece
import ScriptShell.Function.Conversion
import ScriptShell.Function.FileAccess
import ScriptShell.Program.Runner

/-!
# Built-in functions

What the built-in functions do that need nothing of a session but the world: the functions that
convert, those on files, and those that write to the screen and run programs. Threading a value
through functions and ending the session are left to the evaluator.
-/

namespace ScriptShell.Builtin

/-- Writes values with spaces between them on a line of the standard output. -/
def runPrint (args : List Value) (w : World) : Effect :=
  (.ok .none, w.write (Text.Utf8.encode (" ".intercalate (args.map Value.display) ++ "\n")))

/-- The bytes that clear a terminal and move its cursor to the corner. -/
def clearing : List UInt8 := Text.Utf8.encode "\x1b[2J\x1b[H"

/-- Clears the screen. -/
def runClear (args : List Value) (w : World) : Effect :=
  match checkCount .clear 0 0 args with
  | .ok () => (.ok .none, w.write clearing)
  | .error e => (.error e, w)

/-- Runs a program and gives back what it wrote to its standard output. -/
def runCommand (command : String) (w : World) : Effect :=
  match Piece.textsOfLine command with
  | [] => (.error .noCommand, w)
  | name :: args =>
    match w.runProgram (name :: args) true with
    | (.ok result, w) => (.ok (.str result.out), w)
    | (.error r, w) => (.error (if r.isNotFound then .noProgram name else .refused r.message), w)

/-- Runs a program whose command is an argument. -/
def runProgram (args : List Value) (w : World) : Effect :=
  match checkCount .run 1 1 args, textArg .run (args.headD .none) with
  | .error e, _ => (.error e, w)
  | _, .error e => (.error e, w)
  | .ok (), .ok command => runCommand command w

/-- Calls a built-in function that needs nothing but the world. -/
def call (b : Builtin) (args : List Value) (w : World) : Effect :=
  match b with
  | .print => runPrint args w
  | .clear => runClear args w
  | .run => runProgram args w
  | .len | .str | .int | .float | .type | .list | .range => (convert b args, w)
  | .pipe | .exit => (.ok .none, w)
  | b => accessFiles b args w

end ScriptShell.Builtin
