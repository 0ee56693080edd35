import ScriptShell.Program.Installed
import ScriptShell.Session.CommandLine

/-!
# The program

The program runs a session on a machine of its own, whose files are held in memory. It reads its
standard input to the end, and then writes what the session wrote to its two streams.
-/

/-- The fuel of a session, which no session of a user burns. -/
def sessionFuel : Nat := 1 <<< 62

/-- The home directory on the machine. -/
def homePath : String := "/home/user"

/-- Runs the program. -/
def main (args : List String) : IO UInt32 := do
  let input ← (← IO.getStdin).readToEnd
  match ScriptShell.runProgram sessionFuel args input (.installed 0 homePath) with
  | none => return 1
  | some completion =>
    let output ← IO.getStdout
    output.write ⟨completion.world.output⟩
    output.flush
    let diagnostics ← IO.getStderr
    diagnostics.write ⟨completion.world.diagnostics⟩
    return UInt32.ofNat completion.code
