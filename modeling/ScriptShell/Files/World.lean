import ScriptShell.Files.Node
import ScriptShell.Files.Path
import ScriptShell.Files.Refusal
import ScriptShell.Program.Finished

/-!
# The world of a session

What a session sees and changes outside its own bindings: a machine, which has a tree of files with
a working directory in it and a clock, the two streams that the session writes to, and the programs
that can be run. The user owns all files of the tree.

A path is looked up part by part from the root or the working directory. In every directory that a
part is looked up in, the user has to have the right to go through it. A link on the way is
followed, and a link at the end is followed when the operation says so; after forty links the path
is refused. A working directory that was taken out of the tree still leads back into it: its place
ends with an empty name, which nothing in a tree has.
-/

namespace ScriptShell

/-- The machine that a session runs on. -/
structure Machine where
  /-- The tree of files; it is a directory. -/
  root : Node
  /-- Where relative paths start. -/
  workDirectory : Location
  /-- The path of the user's home directory. -/
  home : String
  /-- The time, in seconds since 1970. -/
  now : Int
  /-- Whether permissions do not matter to the user. -/
  privileged : Bool

/-- The world outside a session. -/
structure World extends Machine where
  /-- The bytes written to the standard output. -/
  output : Array UInt8
  /-- The bytes written to the standard error. -/
  diagnostics : Array UInt8
  /-- What comes of running the words of a command: a reason for refusing, or what the program wrote
  and how it ended, with the machine that it leaves. -/
  programs : List String → Machine → Except Refusal (Finished × Machine)

/-- A machine on which no program can be run, and a session on it that has written nothing. -/
def Machine.bare (m : Machine) : World := ⟨m, #[], #[], fun _ _ => .error .notFound⟩

/-- What a path leads to: a node that is there, or a free name in a directory that is there. -/
inductive Found where
  | node (place : Location) (node : Node)
  | vacant (parent : Location) (name : String)

/-- What a path is followed for: to what is there, to a link itself, or to where a file is to be
made. -/
inductive Goal where
  | target | itself | make
  deriving DecidableEq, Repr

namespace Node

/-- The greatest number of bytes in a name. -/
def greatestName : Nat := 255

/-- The number of links that are followed on the way of one path. -/
def linkLimit : Nat := 40

/-- A directory that was taken out of the tree while it was the working directory: it is empty, and
nothing can be made in it. -/
def lost : Node := .directory ⟨0o755, 0, 0⟩ []

/-- Whether a path ends with a slash behind a name. -/
def namesWithSlash (path : String) : Bool :=
  Path.endsWithSlash path &&
    (match (Path.parts path).getLast? with
    | none | some "." | some ".." => false
    | some _ => true)

/-- The parts that a path or the target of a link has to go through. A slash at the end asks for a
directory, which is told by an empty part; unlike a part `.`, this looks nothing up. Where a file is
to be made, a slash behind its name leads no further than to the directory that would hold it. -/
def partsToWalk (goal : Goal) (path : String) : List String :=
  let parts := Path.parts path
  if goal = .make ∧ namesWithSlash path then parts.dropLast ++ ["."]
  else if Path.endsWithSlash path then parts ++ [""]
  else parts

/-- Follows parts from a place in a tree, for a user; `links` is the number of links that may still
be followed. The start may be a lost directory, from which parts `..` lead back into the tree. -/
def walk (root : Node) (privileged : Bool) (goal : Goal) (links : Nat) (place : Location) :
    List String → Except Refusal Found
  | [] => .ok (.node place ((root.at? place).getD lost))
  | part :: rest =>
    match (root.at? place).getD lost with
    | .directory info es =>
      if part = "" then walk root privileged goal links place rest
      else if !info.allows privileged .search then .error .denied
      else if part = "." then walk root privileged goal links place rest
      else if part = ".." then walk root privileged goal links place.dropLast rest
      else if greatestName < part.utf8ByteSize then .error .nameTooLong
      else
        match Entries.find? part es with
        | none =>
          if rest.isEmpty && (root.at? place).isSome then .ok (.vacant place part)
          else .error .notFound
        | some (.link target) =>
          if rest.isEmpty && goal == .itself then .ok (.node (place ++ [part]) (.link target))
          else
            match links with
            | 0 => .error .tooManyLinks
            | links + 1 =>
              let goalThere := if rest.isEmpty then goal else .target
              walk root privileged goal links (if Path.isAbsolute target then [] else place)
                (partsToWalk goalThere target ++ rest)
        | some _ => walk root privileged goal links (place ++ [part]) rest
    | _ => .error .notDirectory
termination_by parts => (links, parts.length)

end Node

namespace World

/-- The greatest number of bytes in a path. -/
def greatestPath : Nat := 4095

/-- The path of the working directory, unless that is lost. -/
def workPath? (w : World) : Option String :=
  (w.root.at? w.workDirectory).map fun _ => Path.ofLocation w.workDirectory

/-- The path of the working directory as it is shown; that of a lost one is empty. -/
def workPath (w : World) : String := w.workPath?.getD ""

/-- Where a path starts. -/
def start (w : World) (path : String) : Location :=
  if Path.isAbsolute path then [] else w.workDirectory

/-- Refuses the texts that are no paths. -/
def checkPath (path : String) : Except Refusal Unit :=
  if path.toList.contains '\x00' then .error .nulInPath
  else if path.isEmpty then .error .notFound
  else if greatestPath < path.utf8ByteSize then .error .nameTooLong
  else .ok ()

/-- What a path leads to. -/
def find (w : World) (goal : Goal) (path : String) : Except Refusal Found := do
  checkPath path
  w.root.walk w.privileged goal Node.linkLimit (w.start path) (Node.partsToWalk goal path)

/-- The place and the node that a path leads to, links being followed. -/
def locate (w : World) (path : String) : Except Refusal (Location × Node) := do
  match ← w.find .target path with
  | .node place n => return (place, n)
  | .vacant .. => .error .notFound

/-- The node that a path leads to, if there is one. -/
def node? (w : World) (path : String) : Option Node :=
  match w.locate path with
  | .ok (_, n) => some n
  | .error _ => none

/-- Whether a path leads to anything. -/
def hasPath (w : World) (path : String) : Bool := (w.node? path).isSome

/-- Whether a path leads to a directory. -/
def hasDirectory (w : World) (path : String) : Bool := (w.node? path).any Node.isDirectory

/-- Whether a path leads to a file. -/
def hasFile (w : World) (path : String) : Bool := (w.node? path).any Node.isFile

/-- Whether the user may read what has these permissions. -/
def mayRead (w : World) (info : FileInfo) : Bool := info.allows w.privileged .read

/-- Whether the user may change what has these permissions. -/
def mayWrite (w : World) (info : FileInfo) : Bool := info.allows w.privileged .write

/-- Whether the user may go through a directory that has these permissions. -/
def maySearch (w : World) (info : FileInfo) : Bool := info.allows w.privileged .search

/-- Whether the user may make and take away entries in the directory at a place. -/
def mayFill (w : World) (place : Location) : Bool :=
  ((w.root.at? place).bind Node.info?).any w.mayWrite

/-- The end of a path: the place of the directory that holds it, the name there, which is missing
at the root, `.` and `..`, and whether a slash follows it. -/
structure Ending where
  parent : Location
  name? : Option String
  slash : Bool

/-- The name at the end of a path, where it is one. -/
def endName? (path : String) : Option String :=
  match (Path.parts path).getLast? with
  | some "." | some ".." => none
  | last => last

/-- The end of a path. -/
def ending (w : World) (path : String) : Except Refusal Ending := do
  checkPath path
  let parts := Path.parts path
  match ← w.root.walk w.privileged .target Node.linkLimit (w.start path) parts.dropLast with
  | .node parent (.directory info _) =>
    if (w.root.at? parent).isNone then .error .notFound
    else if !parts.isEmpty && !w.maySearch info then .error .denied
    else return ⟨parent, endName? path, Path.endsWithSlash path⟩
  | .node .. => .error .notDirectory
  | .vacant .. => .error .notFound

/-- The name at an end, or the given reason if there is none. -/
def Ending.name (e : Ending) (unusable : Refusal) : Except Refusal String :=
  match e.name? with
  | none => .error unusable
  | some name => .ok name

/-- Refuses a name that is too long. -/
def checkName (name : String) : Except Refusal Unit :=
  if Node.greatestName < name.utf8ByteSize then .error .nameTooLong else .ok ()

/-- Marks the directory at a place as changed now. -/
def touch (w : World) (place : Location) : World :=
  match w.root.at? place with
  | some n => { w with root := Node.put (n.changedAt w.now) place w.root }
  | none => w

/-- Where a place is after what stood at another one was taken out of the tree: below that one, it is
lost. -/
def afterRemoval (removed place : Location) : Location :=
  if removed.isPrefixOf place then removed.dropLast ++ "" :: place.drop removed.length else place

/-- Puts a node under a name in the directory at a place. -/
def putEntry (w : World) (parent : Location) (name : String) (n : Node) : World :=
  { w with root := Node.put n (parent ++ [name]) w.root }.touch parent

/-- Takes away a name from the directory at a place. -/
def removeEntry (w : World) (parent : Location) (name : String) : World :=
  { w with root := w.root.remove (parent ++ [name]) }.touch parent

/-- Writes bytes to the standard output. -/
def write (w : World) (bytes : List UInt8) : World :=
  { w with output := w.output ++ bytes }

/-- Writes bytes to the standard error. -/
def writeDiagnostics (w : World) (bytes : List UInt8) : World :=
  { w with diagnostics := w.diagnostics ++ bytes }

end World

end ScriptShell
