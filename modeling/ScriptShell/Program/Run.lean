import ScriptShell.Number.Integer
import ScriptShell.Program.Interpreter
import ScriptShell.Program.ShellScript

/-!
# Programs of a machine

Programs that stand in the tree of a machine. A program is named by its path, or by a name that is
looked up in the directories of installed programs. A file can be run when it is executable and
either is a utility or is a script, which its interpreter runs; interpreters may be scripts
themselves.
-/

namespace ScriptShell

namespace Program

/-- The directories of installed programs, in the order they are searched. -/
def searchPath : List String := ["/usr/bin", "/bin"]

/-- Whether the user may run a file; for one who is privileged it is enough that anybody may. -/
def mayRun (w : World) (info : FileInfo) : Bool :=
  if w.privileged then info.mode % 2 == 1 || info.mode / 8 % 2 == 1 || info.mode / 64 % 2 == 1
  else w.maySearch info

/-- The bytes of the program that a path leads to. -/
def load (w : World) (path : String) : Except Refusal (List UInt8) := do
  let (_, n) ← w.locate path
  match n with
  | .file info content => if mayRun w info then return content else .error .denied
  | _ => .error .denied

/-- The number of files that are opened for one program: the script, its interpreter and so on. -/
def openedLimit : Nat := 6

/-- The utility that the file at a path is run by, with its words; at most `fuel` files are
opened. -/
def utilityFor (w : World) : Nat → String → List String → Except Refusal (Utility × List String)
  | 0, _, _ => .error .tooManyLinks
  | fuel + 1, path, words => do
    let content ← load w path
    match Utility.ofImage? content with
    | some u => return (u, words)
    | none =>
      match Interpreter.ofContent? content with
      | some i => utilityFor w fuel i.path (i.path :: i.args ++ path :: words.drop 1)
      | none => .error .notExecutable

/-- Looks a name up in directories; a file that may not be run is only reported if no other is
found. -/
def lookUp (w : World) (words : List String) (name : String) (worst : Refusal) :
    List String → Except Refusal (Utility × List String)
  | [] => .error worst
  | directory :: others =>
    match utilityFor w openedLimit (Path.join directory name) words with
    | .error .denied => lookUp w words name .denied others
    | .error .notFound | .error .notDirectory => lookUp w words name worst others
    | answer => answer

/-- The greatest number of bytes in a word of a command. -/
def greatestWord : Nat := 0x1FFFF

/-- The utility that runs a command, with its words. -/
def resolve (w : World) (words : List String) : Except Refusal (Utility × List String) := do
  let name := words.headD ""
  let found ←
    if name.toList.contains '/' then utilityFor w openedLimit name words
    else if name.isEmpty then .error .notFound
    else if Node.greatestName < name.utf8ByteSize then .error .nameTooLong
    else lookUp w words name .notFound searchPath
  if words.any fun word => greatestWord < word.utf8ByteSize then .error .tooManyWords
  else return found

/-- The greatest number of programs that start each other. -/
def nestingLimit : Nat := 64

/-- The number of a signal that the shell is asked to send. -/
def signal? : List String → Option Nat
  | ["-9", "1"] | ["-KILL", "1"] | ["-s", "KILL", "1"] => some 9
  | ["-15", "1"] | ["-TERM", "1"] | ["-s", "TERM", "1"] | ["1"] => some 15
  | ["-2", "1"] | ["-INT", "1"] => some 2
  | ["-1", "1"] | ["-HUP", "1"] => some 1
  | ["-0", "1"] => some 0
  | _ => none

/-- What a command of a script does to the script: it goes on, or it ends. -/
inductive Effect where
  | finished (result : Finished)
  | ends (status : Status) (diagnostics : List UInt8)

/-- A message of the shell about a line of a script. -/
def shellMessage (script : String) (line : Nat) (text : String) : String :=
  script ++ ": " ++ String.ofList (Integer.naturalDigits line) ++ ": " ++ text

/-- The end of a script by `exit`: with the code that is named, or with that of the command before. -/
def exitEffect (p : ShellScript.Parameters) (line : Nat) : List String → Effect
  | [] => .ends (.exit p.lastCode) []
  | code :: _ =>
    match Integer.naturalOfDigits? code.toList with
    | some n => .ends (.exit (n % 256)) []
    | none => .ends (.exit 2)
      (Text.Utf8.encode (shellMessage p.script line ("exit: Illegal number: " ++ code ++ "\n")))

/-- A command that the shell runs itself. -/
def shellBuiltin? (w : World) (p : ShellScript.Parameters) (line : Nat) (name : String)
    (args : List String) : Option Effect :=
  match name with
  | "echo" => some (.finished (.saying (Utility.shellEchoed args)))
  | "printf" => some (.finished (Utility.runPrintf Escaped.inShellFormat args))
  | "pwd" => some (.finished (Utility.pwd.run w []))
  | "true" | ":" => some (.finished (.silent 0))
  | "false" => some (.finished (.silent 1))
  | "exit" => some (exitEffect p line args)
  | "kill" =>
    some (match signal? args with
      | some 0 => .finished (.silent 0)
      | some n => .ends (.killed n) []
      | none => .finished (.silent 1))
  | _ => none

/-- What a command wrote to a stream that goes somewhere else or not. -/
def poured (sink : ShellScript.Sink) (bytes : List UInt8) (f : Finished) : Finished :=
  match sink with
  | .output => { f with output := f.output ++ bytes }
  | .diagnostics => { f with diagnostics := f.diagnostics ++ bytes }
  | .nowhere => f

/-- What a command wrote, with its streams sent where the command says. -/
def redirected (c : ShellScript.Command) (f : Finished) : Finished :=
  poured c.diagnostics f.diagnostics (poured c.output f.output ⟨f.status, [], []⟩)

/-- The code that a script sees of a program it ran. -/
def codeSeen : Status → Nat
  | .exit code => code
  | .killed signal => 128 + signal

/-- A program that a line of a script asked for and that cannot be run. -/
def notRun (script : String) (line : Nat) (name : String) (r : Refusal) : Finished :=
  let complaint := fun code text =>
    Utility.complaining code (shellMessage script line (name ++ ": " ++ text))
  if name.isEmpty then complaint 127 "Permission denied"
  else if r.isNotFound then complaint 127 "not found"
  else complaint 126 (Utility.reason r)

/-- Whether a command is run after one that ended with a code. -/
def isDue (joint : ShellScript.Joint) (lastCode : Nat) : Bool :=
  match joint with
  | .always => true
  | .ifSucceeded => lastCode == 0
  | .ifFailed => lastCode != 0

/-- What a command of a script does, `start` running other programs. A file that is no program is
run as a script of the shell. -/
def effect (start : List String → Except Refusal Finished) (w : World)
    (p : ShellScript.Parameters) (line : Nat) (name : String) (args : List String) : Effect :=
  match shellBuiltin? w p line name args with
  | some e => e
  | none =>
    let answer := match start (name :: args) with
      | .error .notExecutable => start ("sh" :: name :: args)
      | answer => answer
    match answer with
    | .ok f => .finished f
    | .error r => .finished (notRun p.script line name r)

/-- Runs the commands of a script one after the other, after those that did what `before` says. -/
def runCommands (start : List String → Except Refusal Finished) (w : World)
    (p : ShellScript.Parameters) (before : Finished) : List ShellScript.Command → Finished
  | [] => before
  | c :: cs =>
    if !isDue c.joint p.lastCode then runCommands start w p before cs
    else if c.isAssignment then
      runCommands start w { ShellScript.assignAll p c.words with lastCode := 0 }
        { before with status := .exit 0 } cs
    else
      match c.expanded p with
      | [] => runCommands start w p before cs
      | name :: args =>
        match effect start w p c.line name args with
        | .ends status diagnostics =>
          poured c.diagnostics diagnostics { before with status := status }
        | .finished f =>
          let f := redirected c f
          let code := codeSeen f.status
          runCommands start w { p with lastCode := code }
            ⟨.exit code, before.output ++ f.output, before.diagnostics ++ f.diagnostics⟩ cs

/-- Runs the shell on a script. -/
def runScript (start : List String → Except Refusal Finished) (w : World) (name : String)
    (args : List String) (script : List Char) : Finished :=
  runCommands start w ⟨name, args, 0, w.home, w.workPath, []⟩ (.silent 0)
    (ShellScript.commands script)

/-- Runs the shell on its arguments. -/
def runShell (start : List String → Except Refusal Finished) (w : World) : List String → Finished
  | "-c" :: script :: rest =>
    runScript start w (rest.headD "sh") (rest.drop 1) script.toList
  | path :: args =>
    match w.readBytes path with
    | .ok content => runScript start w path args (Text.Utf8.decodeLenient content).toList
    | .error _ => Utility.complaining 2 ("sh: 0: cannot open " ++ path ++ ": No such file")
  | [] => .silent 0

/-- Runs the program of a command, programs starting each other at most `fuel` deep. -/
def start (w : World) : Nat → List String → Except Refusal Finished
  | 0, _ => .error .tooManyLinks
  | fuel + 1, words => do
    if words.any fun word => word.toList.contains '\x00' then .error .nulInArgument
    else
      match ← resolve w words with
      | (.shell, words) => return runShell (start w fuel) w (words.drop 1)
      | (u, words) => return u.run w (words.drop 1)

/-- The programs of a machine that are files of its tree. They change nothing of it. -/
def onMachine (words : List String) (m : Machine) : Except Refusal (Finished × Machine) :=
  (start m.bare nestingLimit words).map fun f => (f, m)

end Program

end ScriptShell
