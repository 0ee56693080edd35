import ScriptShell.Files.Calendar
import ScriptShell.Files.Listing
import ScriptShell.Files.Trash
import ScriptShell.Function.Arguments

/-!
# Functions on files

The built-in functions that look at files and change them. Listings are lists of dicts that say of
each entry its name, its path from the root, when it was made and changed, and whether it is a
directory.
-/

namespace ScriptShell.Builtin

/-- What a function that reads or changes the world comes to: it leaves a world whether it gives
back a value or fails. -/
abbrev Effect := Except EvalError Value × World

/-- Reports a refusal of what was done to a path. -/
def onPath {α : Type} (action : PathAction) (path : String) (result : Except Refusal α) :
    Except EvalError α :=
  match result with
  | .ok a => .ok a
  | .error r => .error (.path action path r.message)

/-- The end of a function that leaves another world, or the one before if it fails. -/
def leaving (w : World) : Except EvalError (Value × World) → Effect
  | .ok (v, after) => (.ok v, after)
  | .error e => (.error e, w)

/-- Fails if a value was refused, and leaves the world as it is. -/
def looking (w : World) (result : Except EvalError Value) : Effect := (result, w)

/-- The text of a time, or nothing for what is not there. -/
def timeValue (time : Option Int) : Value :=
  match time with
  | some t => .str (Calendar.text t)
  | none => .none

/-- A path as it reads from the root; from a lost working directory a relative one stays as it
is. -/
def wholePath (w : World) (path : String) : String :=
  match w.workPath? with
  | some base => Path.absolute base path
  | none => if Path.isAbsolute path then Path.absolute "/" path else path

/-- The dict that describes what stands at a path in a listing. -/
def entryValue (w : World) (path : String) : Value :=
  let n := w.node? path
  let info := n.bind Node.info?
  .dict [
    ("name", .str ((Path.name? path).getD path)),
    ("path", .str (wholePath w path)),
    ("created", timeValue (info.map FileInfo.created)),
    ("modified", timeValue (info.map FileInfo.modified)),
    ("type", .str (if n.any Node.isDirectory then "directory" else "file"))]

/-- The working directory. -/
def runCwd (args : List Value) (w : World) : Except EvalError Value := do
  checkCount .cwd 0 0 args
  match w.workPath? with
  | some path => return .str path
  | none => .error (.refused Refusal.notFound.message)

/-- Goes to a directory. -/
def runGoto (args : List Value) (w : World) : Effect :=
  match checkCount .goto 0 1 args, args.head?.elim (.ok ".") (pathArg .goto) with
  | .error e, _ => (.error e, w)
  | _, .error e => (.error e, w)
  | .ok (), .ok path =>
    match w.goTo path with
    | (.ok (), w) => (.ok .none, w)
    | (.error (path, r), w) => (.error (.path .enter path r.message), w)

/-- Lists a directory. -/
def runFiles (args : List Value) (w : World) : Except EvalError Value := do
  checkCount .files 0 3 args
  let path ← directoryArg .files args.head?
  let hidden := args[1]?.any Value.isTruthy
  let depth ← args[2]?.elim (.ok 0) fun v => (intArg .files v).map fun n => n.toInt.toNat
  let paths ← onPath .list path (w.walkBelow hidden depth path)
  return .list (paths.map (entryValue w))

/-- Reads a file. -/
def runRead (args : List Value) (w : World) : Except EvalError Value := do
  checkCount .read 1 1 args
  let path ← pathArg .read (args.headD .none)
  return .str (← onPath .read path (w.readText path))

/-- Makes an empty file. -/
def runMakeFile (args : List Value) (w : World) : Except EvalError (Value × World) := do
  checkCount .makeFile 1 1 args
  let path ← textArg .makeFile (args.headD .none)
  let w ← onPath .create path (w.createFile path)
  return (.str (path ++ " created"), w)

/-- Makes a directory and what is missing on the way to it. -/
def runMakeDirectory (args : List Value) (w : World) : Effect :=
  match checkCount .makeDirectory 1 1 args, textArg .makeDirectory (args.headD .none) with
  | .error e, _ => (.error e, w)
  | _, .error e => (.error e, w)
  | .ok (), .ok path =>
    if w.hasPath path then (.error (.path .create path "File exists"), w)
    else
      match World.makeDirectories (World.greatestPath + 1) w path with
      | (.ok (), w) => (.ok (.str (path ++ " created")), w)
      | (.error r, w) => (.error (.path .create path r.message), w)

/-- Where a file goes that is copied or moved: into a directory under its own name, or to the
path itself. -/
def destination (w : World) (source target : String) : String :=
  match Path.name? source with
  | some name => if w.hasDirectory target then Path.join target name else target
  | none => target

/-- Copies or renames a file. -/
def runTransfer (b : Builtin) (action : PathAction) (done : String)
    (transfer : World → String → String → Except Refusal Unit × World) (args : List Value)
    (w : World) : Effect :=
  match checkCount b 2 2 args, pathArg b (args.headD .none), textArg b (args.getD 1 .none) with
  | .error e, _, _ => (.error e, w)
  | _, .error e, _ => (.error e, w)
  | _, _, .error e => (.error e, w)
  | .ok (), .ok source, .ok target =>
    match transfer w source (destination w source target) with
    | (.ok (), w) => (.ok (.str (source ++ done ++ target)), w)
    | (.error r, w) => (.error (.path action source r.message), w)

/-- Moves a file or directory to the trash. -/
def runDelete (args : List Value) (w : World) : Effect :=
  match checkCount .delete 1 1 args, pathArg .delete (args.headD .none) with
  | .error e, _ => (.error e, w)
  | _, .error e => (.error e, w)
  | .ok (), .ok path =>
    if !w.hasPath path then (.error (.path .delete path "No such file or directory"), w)
    else
      match w.delete path with
      | (.ok (), w) => (.ok (.str (path ++ " sent to trash")), w)
      | (.error f, w) => (.error (.path .delete path f.message), w)

/-- A line that was found, with its number from zero on. -/
def hitValue (name path : Value) (line : List Char) (number : Nat) : Value :=
  .dict [("name", name), ("path", path), ("line_number", .int (Integer.clamp number)),
    ("line", .str (String.ofList line))]

/-- The lines of the file at a path that hold a text; a file that cannot be read has none. -/
def hitsIn (w : World) (needle : String) (path : String) : List Value :=
  match w.readText path with
  | .error _ => []
  | .ok content =>
    let entry := entryValue w path
    let name := (entry.get? "name").getD .none
    let whole := (entry.get? "path").getD .none
    (Text.lines content.toList).zipIdx.filterMap fun (line, number) =>
      if (String.ofList line).contains needle then some (hitValue name whole line number) else none

/-- The number of levels of a search that goes through all subdirectories. -/
def allLevels : Nat := Integer.lengthBound - 1

/-- Finds the lines that hold a text in the visible files of a directory. -/
def runSearch (args : List Value) (w : World) : Except EvalError Value := do
  checkCount .search 1 3 args
  let needle ← textArg .search (args.headD .none)
  let path ← directoryArg .search args[1]?
  let depth := if args[2]?.any Value.isTruthy then allLevels else 0
  let paths ← onPath .list path (w.walkBelow false depth path)
  return .list ((paths.filter w.hasFile).flatMap (hitsIn w needle))

/-- Runs a function on files. Other functions give back nothing. -/
def accessFiles (b : Builtin) (args : List Value) (w : World) : Effect :=
  match b with
  | .cwd => looking w (runCwd args w)
  | .goto => runGoto args w
  | .files => looking w (runFiles args w)
  | .read => looking w (runRead args w)
  | .makeFile => leaving w (runMakeFile args w)
  | .makeDirectory => runMakeDirectory args w
  | .copy => runTransfer .copy .copy " copied to " World.copyFile args w
  | .move => runTransfer .move .move " moved to " World.moveEntry args w
  | .delete => runDelete args w
  | .search => looking w (runSearch args w)
  | _ => (.ok .none, w)

end ScriptShell.Builtin
