import ScriptShell.Files.World
import ScriptShell.Text.Utf8

/-!
# Runners

A session is given a runner, which decides what running a program does and may remember what it was
asked. The runner of the system runs the programs of the world. What a program writes goes to the
streams of the session, or into the result where it is captured.
-/

namespace ScriptShell

/-- Reports a finished program, in a world to whose streams it writes unless it is captured. -/
def Finished.report (f : Finished) (capture : Bool) (w : World) : ProgramResult × World :=
  if capture then
    (⟨f.status.code, Text.Utf8.decodeLenient f.output, Text.Utf8.decodeLenient f.diagnostics⟩, w)
  else
    (⟨f.status.code, "", ""⟩, (w.write f.output).writeDiagnostics f.diagnostics)

/-- Runs the words of a command. -/
def World.runProgram (words : List String) (capture : Bool) (w : World) :
    Except Refusal ProgramResult × World :=
  match w.programs words w.toMachine with
  | .ok (f, machine) =>
    let (result, w) := f.report capture { w with toMachine := machine }
    (.ok result, w)
  | .error r => (.error r, w)

/-- What runs programs for a session: given the words of a command and whether its output is
captured, a runner with a memory of type `σ` answers with a result or a reason for refusing. -/
structure Runner (σ : Type) where
  run : List String → Bool → World → σ → Except Refusal ProgramResult × World × σ

namespace Runner

/-- The runner that runs the programs of the world. -/
def system : Runner Unit := ⟨fun words capture w _ =>
  let (result, w) := w.runProgram words capture
  (result, w, ())⟩

/-- A program that does the same whenever it is run. -/
inductive Scripted where
  | refuses (reason : Refusal)
  | ends (code : Int) (out err : String)

/-- The runner that knows the programs of a list by their names. -/
def scripted (programs : List (String × Scripted)) : Runner Unit := ⟨fun words capture w _ =>
  match words.head?.bind fun name => Entries.find? name programs with
  | none => (.error (.other "entity not found" true), w, ())
  | some (.refuses reason) => (.error reason, w, ())
  | some (.ends code out err) =>
    (.ok (if capture then ⟨code, out, err⟩ else ⟨code, "", ""⟩), w, ())⟩

/-- A command that a runner was asked to run. -/
structure Call where
  words : List String
  capture : Bool
  deriving DecidableEq, Repr

/-- A runner that also remembers what it is asked to run, the last command first. -/
def recording {σ : Type} (r : Runner σ) : Runner (σ × List Call) :=
  ⟨fun words capture w (memory, calls) =>
    let (result, w, memory) := r.run words capture w memory
    (result, w, memory, ⟨words, capture⟩ :: calls)⟩

end Runner

end ScriptShell
