import ScriptShell.Files.Operation
import ScriptShell.Program.Escaped

/-!
# Utilities

The small programs that are installed with the system. Each of them is a file whose bytes say which
utility it is, so that it can be run wherever it stands.
-/

namespace ScriptShell

/-- The utilities. -/
inductive Utility where
  | echo | printf | cat | ls | pwd | succeed | fail | shell
  deriving DecidableEq, Repr

namespace Utility

/-- Every utility. -/
def all : List Utility := [.echo, .printf, .cat, .ls, .pwd, .succeed, .fail, .shell]

/-- The name of a utility. -/
def name : Utility → String
  | .echo => "echo"
  | .printf => "printf"
  | .cat => "cat"
  | .ls => "ls"
  | .pwd => "pwd"
  | .succeed => "true"
  | .fail => "false"
  | .shell => "sh"

/-- The bytes that start every program of the machine. -/
def magic : List UInt8 := [0x7F, 0x45, 0x4C, 0x46]

/-- The bytes of a utility. -/
def image (u : Utility) : List UInt8 := magic ++ Text.Utf8.encode u.name

/-- The utility with these bytes. -/
def ofImage? (bytes : List UInt8) : Option Utility := all.find? fun u => u.image == bytes

/-- A text with a line feed unless it is left out or output has ended. -/
def line (bytes : List UInt8) (ends : Bool) : List UInt8 := if ends then bytes ++ [10] else bytes

/-- Whether an argument is a group of the letters that `echo` takes as options. -/
def isEchoOption (arg : String) : Bool :=
  match arg.toList with
  | '-' :: c :: cs => (c :: cs).all fun c => c == 'n' || c == 'e' || c == 'E'
  | _ => false

/-- Whether the last of the letters `e` and `E` among options is `e`. -/
def readsEscapes (options : List String) : Bool :=
  ((options.flatMap String.toList).filter fun c => c == 'e' || c == 'E').getLast? == some 'e'

/-- What `echo` writes. -/
def echoed (args : List String) : List UInt8 :=
  let options := args.takeWhile isEchoOption
  let text := " ".intercalate (args.drop options.length)
  let breaks := !(options.any fun o => o.toList.contains 'n')
  if readsEscapes options then
    let (bytes, ended) := Escaped.inEcho.read text.toList
    line bytes (breaks && ended)
  else line (Text.Utf8.encode text) breaks

/-- What the shell's own `echo` writes: its one option is `-n`, and it always reads escapes. -/
def shellEchoed (args : List String) : List UInt8 :=
  let breaks := args.head? != some "-n"
  let words := if breaks then args else args.drop 1
  let (bytes, ended) := Escaped.inShellEcho.read (" ".intercalate words).toList
  line bytes (breaks && ended)

/-- What `printf` writes for one pass over a format: the bytes, the arguments that are left, whether
an argument was asked for, and whether the format ran to its end. -/
structure Pass where
  bytes : List UInt8
  args : List String
  asked : Bool
  ended : Bool

/-- A pass with bytes before it. -/
def Pass.after (bytes : List UInt8) (p : Pass) : Pass := { p with bytes := bytes ++ p.bytes }

/-- What an argument becomes under a directive. -/
def directed (rules : Escaped.Rules) (c : Char) (args : List String) : List UInt8 × Bool :=
  let value := args.headD (if c == 'd' || c == 'i' then "0" else "")
  if c == 'b' then { rules with zeroFirst := true, stops := true }.read value.toList
  else if c == 'c' then ((value.toList.take 1).flatMap Escaped.bytesOf, true)
  else (Text.Utf8.encode value, true)

/-- One pass over a format, with rules for its escapes. -/
def formatted (rules : Escaped.Rules) (args : List String) : List Char → Pass
  | [] => ⟨[], args, false, true⟩
  | '%' :: '%' :: cs => (formatted rules args cs).after [37]
  | '%' :: c :: cs =>
    let (own, ended) := directed rules c args
    if ended then { (formatted rules (args.drop 1) cs).after own with asked := true }
    else ⟨own, args.drop 1, true, false⟩
  | '\\' :: c :: cs =>
    if rules.stops && c == 'c' then ⟨[], args, false, false⟩
    else
      have := rules.length_escape_le c cs
      (formatted rules args (rules.escape c cs).2).after (rules.escape c cs).1
  | c :: cs => (formatted rules args cs).after (Escaped.bytesOf c)
termination_by cs => cs.length
decreasing_by all_goals simp only [List.length_cons]; omega

/-- What `printf` writes: the format is used again while arguments are left, at most `fuel`
times. -/
def printed (rules : Escaped.Rules) (format : List Char) : Nat → List String → List UInt8
  | 0, _ => []
  | fuel + 1, args =>
    let pass := formatted rules args format
    if pass.asked && pass.ended && !pass.args.isEmpty then
      pass.bytes ++ printed rules format fuel pass.args
    else pass.bytes

/-- A program that wrote an error message. -/
def complaining (code : Nat) (text : String) : Finished :=
  ⟨.exit code, [], Text.Utf8.encode (text ++ "\n")⟩

/-- Runs `printf`. -/
def runPrintf (rules : Escaped.Rules) : List String → Finished
  | [] =>
    complaining 1 "printf: missing operand\nTry 'printf --help' for more information."
  | format :: args => .saying (printed rules format.toList (args.length + 1) args)

/-- Two programs run one after the other, the greater code being that of both. -/
def both (a b : Finished) : Finished :=
  ⟨.exit (max a.status.code.toNat b.status.code.toNat), a.output ++ b.output,
    a.diagnostics ++ b.diagnostics⟩

/-- The text of a refusal without its number. -/
def reason : Refusal → String
  | .notFound => "No such file or directory"
  | .isDirectory => "Is a directory"
  | .notDirectory => "Not a directory"
  | .denied => "Permission denied"
  | r => r.message

/-- Runs `cat` on one file; a dash is the empty standard input. -/
def catFile (w : World) (path : String) : Finished :=
  if path = "-" then .silent 0
  else match w.readBytes path with
    | .ok bytes => .saying bytes
    | .error r => complaining 1 ("cat: " ++ path ++ ": " ++ reason r)

/-- What `ls` lists: entries with names that start with a dot, the directory and its parent among
them, and directories themselves instead of what they hold. -/
structure LsOptions where
  hidden : Bool
  parents : Bool
  itself : Bool

/-- The options that letters after dashes stand for. -/
def LsOptions.ofLetters (letters : List Char) : LsOptions :=
  ⟨letters.contains 'a' || letters.contains 'A', letters.contains 'a', letters.contains 'd'⟩

/-- Names in the order of their characters. -/
def inOrder (names : List String) : List String := names.mergeSort fun a b => decide (a ≤ b)

/-- Names, each on a line. -/
def nameLines (names : List String) : String := String.join (names.map (· ++ "\n"))

/-- The names that `ls` lists of a directory, or nothing for a path that is listed itself. -/
def listedNames (w : World) (o : LsOptions) (n : Node) : Option (List String) :=
  if o.itself then none
  else
    match w.listing n with
    | .error _ => none
    | .ok es =>
      let names := es.keys.filter fun name => o.hidden || !Path.isHidden name
      some (inOrder ((if o.parents then [".", ".."] else []) ++ names))

/-- What `ls` writes of some paths, those that are listed themselves before those whose entries
are; several directories have headings. -/
def listPaths (w : World) (o : LsOptions) (paths : List String) : Finished :=
  let found := paths.map fun p => (p, w.locate p)
  let faults := found.filterMap fun
    | (p, .error r) => some (complaining 2 ("ls: cannot access '" ++ p ++ "': " ++ reason r))
    | _ => none
  let listed := found.filterMap fun
    | (p, .ok (_, n)) => some (p, listedNames w o n)
    | _ => none
  let themselves := (listed.filter (·.2.isNone)).map Prod.fst
  let blocks := listed.filterMap fun (p, names) => names.map fun names =>
    (if 1 < paths.length then p ++ ":\n" else "") ++ nameLines names
  let first := if themselves.isEmpty then [] else [nameLines themselves]
  (faults ++ [Finished.saying (Text.Utf8.encode ("\n".intercalate (first ++ blocks)))]).foldl both
    (.silent 0)

/-- Runs `ls`. -/
def runLs (w : World) (args : List String) : Finished :=
  let (options, paths) := args.partition fun a => a.startsWith "-" && a != "-"
  let o := LsOptions.ofLetters (options.flatMap String.toList)
  listPaths w o (if paths.isEmpty then ["."] else inOrder paths)

/-- Runs a utility that is not the shell. -/
def run (u : Utility) (w : World) (args : List String) : Finished :=
  match u with
  | .echo => .saying (echoed args)
  | .printf => runPrintf Escaped.inFormat args
  | .cat => args.foldl (fun f p => both f (catFile w p)) (.silent 0)
  | .ls => runLs w args
  | .pwd => .saying (Text.Utf8.encode (w.workPath ++ "\n"))
  | .succeed | .shell => .silent 0
  | .fail => .silent 1

end Utility

end ScriptShell
