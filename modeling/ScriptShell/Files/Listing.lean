import ScriptShell.Files.Operation

/-!
# Listings of directories

The paths below a directory. A listing goes through the entries of a directory in the order of
their names, and then through its subdirectories in that order, as many levels deep as it is asked
to. Links are listed and not gone through, subdirectories that the user may not see are left out,
and entries with names that start with a dot are only listed when that is asked for. Each directory
is looked up by its own path, so one is left out too whose path is too long for the system, or leads
through a directory that the user may not go through.
-/

namespace ScriptShell.World

/-- The entries of the directory that a path leads to, in order. -/
def entriesAt (w : World) (path : String) : Except Refusal (Entries Node) := do
  let (_, n) ← w.locate path
  w.listing n

/-- Whether a path leads to a directory, and not to a link to one. -/
def hasRealDirectory (w : World) (path : String) : Bool :=
  match w.find .itself path with
  | .ok (.node _ n) => n.isDirectory
  | _ => false

/-- Whether a listing shows an entry with this name. -/
def isShown (hidden : Bool) (name : String) : Bool := hidden || !Path.isHidden name

/-- The paths of the entries that a listing shows of a directory, in order. -/
def shownPaths (w : World) (hidden : Bool) (directory : String) :
    Except Refusal (List String) := do
  let shown := (← w.entriesAt directory).filter fun e => isShown hidden e.1
  return shown.map fun e => Path.join directory e.1

/-- The paths that a listing shows of a directory, and of its subdirectories down to a number of
further levels. -/
def walkBelow (w : World) (hidden : Bool) : Nat → String → Except Refusal (List String)
  | 0, directory => w.shownPaths hidden directory
  | depth + 1, directory => do
    let here ← w.shownPaths hidden directory
    let deeper := (here.filter w.hasRealDirectory).flatMap fun path =>
      match w.walkBelow hidden depth path with
      | .ok paths => paths
      | .error _ => []
    return here ++ deeper

/-- The number of levels below the home directory that are searched for a directory. -/
def searchedLevels : Nat := 3

/-- The visible directories right below some directories. -/
def directoriesBelow (w : World) (level : List String) : List String :=
  level.flatMap fun directory =>
    match w.shownPaths false directory with
    | .ok paths => paths.filter w.hasRealDirectory
    | .error _ => []

/-- The visible directories below some directories, level by level. -/
def directoryLevels (w : World) : Nat → List String → List (List String)
  | 0, _ => []
  | levels + 1, level =>
    let next := w.directoriesBelow level
    next :: w.directoryLevels levels next

/-- The directories that can be gone to by a part of their path: those right below the home
directory, the home directory itself, and those on the next levels. -/
def homeDirectories (w : World) : List String :=
  let levels := w.directoryLevels searchedLevels [w.home]
  (levels.take 1).flatten ++ w.home :: (levels.drop 1).flatten

/-- The first of these directories with a path that ends with a text. -/
def findDirectory (w : World) (ending : String) : Option String :=
  if ending.isEmpty then none
  else w.homeDirectories.find? fun path => ending.toList.isSuffixOf path.toList

/-- Goes to the directory that a path leads to, or to the first one below the home directory whose
path ends with it. A refusal comes with the path that was refused. -/
def goTo (w : World) (path : String) : Except (String × Refusal) Unit × World :=
  match w.enter path with
  | .ok w => (.ok (), w)
  | .error r =>
    match w.findDirectory path with
    | none => (.error (path, r), w)
    | some directory =>
      match w.enter directory with
      | .ok w => (.ok (), w)
      | .error r => (.error (directory, r), w)

end ScriptShell.World
