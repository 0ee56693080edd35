import ScriptShell.Value.Entries

/-!
# File trees

A tree of files, links and directories. A place in it is the list of names that leads there from
the root. Reading a place, putting something there and taking it away are defined by recursion on
these names; putting and taking away change nothing where the names lead through something that is
no directory.
-/

namespace ScriptShell

/-- What is kept of a file or directory beside what it holds; times are seconds since 1970. -/
structure FileInfo where
  mode : Nat
  created : Int
  modified : Int
  deriving DecidableEq, Repr

/-- What a user may ask of a file or a directory: to read it, to change it, and to run it or go
through it. -/
inductive Right where
  | read | write | search

/-- The permission of the owner that gives a right. -/
def Right.bit : Right → Nat
  | .read => 0o400
  | .write => 0o200
  | .search => 0o100

/-- Whether a user has a right to what the user owns; permissions do not matter to one who is
privileged. -/
def FileInfo.allows (privileged : Bool) (right : Right) (info : FileInfo) : Bool :=
  privileged || info.mode / right.bit % 2 == 1

/-- A tree of files. -/
inductive Node where
  | file (info : FileInfo) (content : List UInt8)
  | link (target : String)
  | directory (info : FileInfo) (entries : List (String × Node))

/-- A place in a tree: the names from the root. -/
abbrev Location := List String

namespace Entries

/-- Takes away the item under a key. -/
def erase {α : Type} (key : String) : Entries α → Entries α
  | [] => []
  | (k, a) :: es => if k = key then es else (k, a) :: erase key es

end Entries

namespace Node

/-- Whether a node is a directory. -/
def isDirectory : Node → Bool
  | .directory .. => true
  | _ => false

/-- Whether a node is a file. -/
def isFile : Node → Bool
  | .file .. => true
  | _ => false

/-- The entries of a directory. -/
def entries : Node → Entries Node
  | .directory _ es => es
  | _ => []

/-- What is kept of a node beside what it holds. -/
def info? : Node → Option FileInfo
  | .file info _ => some info
  | .directory info _ => some info
  | .link _ => none

/-- The node at a place. -/
def at? : Location → Node → Option Node
  | [], n => some n
  | name :: names, .directory _ es => (Entries.find? name es).bind (at? names)
  | _ :: _, _ => none

/-- A tree with a node put at a place. -/
def put (new : Node) : Location → Node → Node
  | [], _ => new
  | [name], .directory info es => .directory info (Entries.insert name new es)
  | name :: names, .directory info es =>
    match Entries.find? name es with
    | some child => .directory info (Entries.insert name (put new names child) es)
    | none => .directory info es
  | _ :: _, n => n

/-- A tree with the node at a place taken away; the root stays. -/
def remove : Location → Node → Node
  | [], n => n
  | [name], .directory info es => .directory info (Entries.erase name es)
  | name :: names, .directory info es =>
    match Entries.find? name es with
    | some child => .directory info (Entries.insert name (remove names child) es)
    | none => .directory info es
  | _ :: _, n => n

/-- A node that was changed at a time. -/
def changedAt (time : Int) : Node → Node
  | .file info content => .file { info with modified := time } content
  | .directory info es => .directory { info with modified := time } es
  | .link target => .link target

end Node

end ScriptShell
