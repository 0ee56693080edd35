import ScriptShell.Files.World
import ScriptShell.Text.Utf8

/-!
# Operations on files

What the system does to files when it is asked: entering directories, listing, reading, making,
copying and renaming. What is one request to the system either changes the world or is refused for
a reason and changes nothing. What takes more of them, making a directory with those on the way to
it and copying, tells the world that it leaves also where it is refused: directories made on the
way to one that is refused stay.
-/

namespace ScriptShell.World

/-- Makes the directory that a path leads to the working directory, if the user may go through it. -/
def enter (w : World) (path : String) : Except Refusal World := do
  let (place, n) ← w.locate path
  match n with
  | .directory info _ =>
    if w.maySearch info then return { w with workDirectory := place } else .error .denied
  | _ => .error .notDirectory

/-- The names before others in the order of their characters. -/
def namesInOrder (a b : String × Node) : Bool := decide (a.1 ≤ b.1)

/-- The entries of a directory in the order of their names, if the user may see them. -/
def listing (w : World) : Node → Except Refusal (Entries Node)
  | .directory info es => if w.mayRead info then .ok (es.mergeSort namesInOrder) else .error .denied
  | _ => .error .notDirectory

/-- The bytes of a file, if the user may read them. -/
def contentOf (w : World) : Node → Except Refusal (List UInt8)
  | .file info content => if w.mayRead info then .ok content else .error .denied
  | .directory info _ => if w.mayRead info then .error .isDirectory else .error .denied
  | .link _ => .error .notFound

/-- The bytes of the file that a path leads to. -/
def readBytes (w : World) (path : String) : Except Refusal (List UInt8) := do
  let (_, n) ← w.locate path
  w.contentOf n

/-- The text of the file that a path leads to. -/
def readText (w : World) (path : String) : Except Refusal String := do
  match Text.Utf8.decode? (← w.readBytes path) with
  | some s => return s
  | none => .error .notUtf8

/-- The permissions of a new file. -/
def newFileMode : Nat := 0o644

/-- The permissions of a new directory. -/
def newDirectoryMode : Nat := 0o755

/-- A file with the given bytes, made or changed now. -/
def fileNow (w : World) (before : Option Node) (content : List UInt8) : Node :=
  match before.bind Node.info? with
  | some info => .file { info with modified := w.now } content
  | none => .file ⟨newFileMode, w.now, w.now⟩ content

/-- Where a file can be written under a path: the place of one that is there and that the user may
change, or of a new one in a directory that the user may fill. -/
def writable (w : World) (path : String) : Except Refusal Location := do
  match ← w.find .make path with
  | .node place n =>
    if n.isDirectory then .error .isDirectory
    else if n.info?.all w.mayWrite then return place
    else .error .denied
  | .vacant parent name => if w.mayFill parent then return parent ++ [name] else .error .denied

/-- Writes bytes to the file at a place, which is made if it is not there. -/
def writeAt (w : World) (place : Location) (content : List UInt8) : World :=
  let before := w.root.at? place
  let written := { w with root := Node.put (w.fileNow before content) place w.root }
  if before.isSome then written else written.touch place.dropLast

/-- Makes an empty file, or empties one. -/
def createFile (w : World) (path : String) : Except Refusal World := do
  return w.writeAt (← w.writable path) []

/-- Makes a file with the given bytes where nothing stands, not even a link. -/
def createNew (w : World) (path : String) (content : List UInt8) : Except Refusal World := do
  let e ← w.ending path
  let name ← e.name .exists
  checkName name
  if (w.root.at? (e.parent ++ [name])).isSome then .error .exists
  else if !w.mayFill e.parent then .error .denied
  else return w.putEntry e.parent name (w.fileNow none content)

/-- Takes away the file or link that a path names. -/
def removeFile (w : World) (path : String) : Except Refusal World := do
  let e ← w.ending path
  let name ← e.name .isDirectory
  match w.root.at? (e.parent ++ [name]) with
  | none => .error .notFound
  | some n =>
    if !w.mayFill e.parent then .error .denied
    else if n.isDirectory then .error .isDirectory
    else return w.removeEntry e.parent name

/-- Makes a directory whose parent is there. -/
def makeDirectory (w : World) (path : String) : Except Refusal World := do
  let e ← w.ending path
  let name ← e.name .exists
  checkName name
  if (w.root.at? (e.parent ++ [name])).isSome then .error .exists
  else if !w.mayFill e.parent then .error .denied
  else return w.putEntry e.parent name (.directory ⟨newDirectoryMode, w.now, w.now⟩ [])

/-- Makes a directory and what is missing on the way to it, at most `fuel` parents of it. What was
made on the way to a directory that is refused stays made. -/
def makeDirectories : Nat → World → String → Except Refusal Unit × World
  | 0, w, _ => (.error .nameTooLong, w)
  | fuel + 1, w, path =>
    if path.isEmpty then (.ok (), w)
    else
      match w.makeDirectory path with
      | .ok w => (.ok (), w)
      | .error .notFound =>
        match Path.parent? path with
        | none => (.error .notFound, w)
        | some parent =>
          match makeDirectories fuel w parent with
          | (.error r, w) => (.error r, w)
          | (.ok (), w) =>
            match w.makeDirectory path with
            | .ok w => (.ok (), w)
            | .error r => if w.hasDirectory path then (.ok (), w) else (.error r, w)
      | .error r => if w.hasDirectory path then (.ok (), w) else (.error r, w)

/-- A file with other permissions. -/
def withMode (mode : Nat) : Node → Node
  | .file info content => .file { info with mode := mode } content
  | n => n

/-- Gives the file at a place other permissions, which its owner may always do. -/
def setMode (w : World) (place : Location) (mode : Nat) : World :=
  match w.root.at? place with
  | some n => { w with root := Node.put (withMode mode n) place w.root }
  | none => w

/-- Opens the file that a path leads to for reading: its place, and what is kept of it. -/
def openFile (w : World) (path : String) : Except Refusal (Location × FileInfo) := do
  let (place, n) ← w.locate path
  match n with
  | .file info _ => if w.mayRead info then return (place, info) else .error .denied
  | .directory info _ => if w.mayRead info then .error .notRegular else .error .denied
  | .link _ => .error .notRegular

/-- The bytes of the file at a place. -/
def bytesAt (w : World) (place : Location) : List UInt8 :=
  match w.root.at? place with
  | some (.file _ content) => content
  | _ => []

/-- Copies a file, with its permissions. The source is opened, then the target is opened and
emptied, and only then what the source holds is written to it: a file copied onto itself is
empty. -/
def copyFile (w : World) (source target : String) : Except Refusal Unit × World :=
  match w.openFile source with
  | .error r => (.error r, w)
  | .ok (place, info) =>
    match w.writable target with
    | .error r => (.error r, w)
    | .ok targetPlace =>
      let emptied := (w.writeAt targetPlace []).setMode targetPlace info.mode
      (.ok (), emptied.writeAt targetPlace (emptied.bytesAt place))

/-- Where a place is after what stood at `source` was moved to `target`. -/
def moved (source target place : Location) : Location :=
  if source.isPrefixOf place then target ++ place.drop source.length else place

/-- Renames what stands at the end of one path to the end of another. Directories only replace
empty directories and files only what is no directory, and nothing is moved into itself. The user
has to have the right to change both directories, and that of changing a directory that moves from
one to the other. A working directory below what is moved moves with it, and one that is replaced
is lost. -/
def rename (w : World) (source target : String) : Except Refusal World := do
  let old ← w.ending source
  let new ← w.ending target
  let oldName ← old.name .busy
  let newName ← new.name .busy
  checkName oldName
  let oldPlace := old.parent ++ [oldName]
  let newPlace := new.parent ++ [newName]
  match w.root.at? oldPlace with
  | none => .error .notFound
  | some n =>
    checkName newName
    let there := w.root.at? newPlace
    if !n.isDirectory && (old.slash || new.slash) then .error .notDirectory
    else if oldPlace.isPrefixOf new.parent then .error .invalid
    else if newPlace.isPrefixOf old.parent then .error .notEmpty
    else if oldPlace = newPlace then return w
    else if !w.mayFill old.parent || !w.mayFill new.parent then .error .denied
    else if n.isDirectory && there.any (!·.isDirectory) then .error .notDirectory
    else if !n.isDirectory && there.any Node.isDirectory then .error .isDirectory
    else if n.isDirectory && old.parent ≠ new.parent && !w.mayFill oldPlace then .error .denied
    else if there.any (!·.entries.isEmpty) then .error .notEmpty
    else
      let taken := w.removeEntry old.parent oldName
      let put := taken.putEntry new.parent newName n
      return { put with
        workDirectory := moved oldPlace newPlace (afterRemoval newPlace w.workDirectory) }

/-- Renames as a whole or not at all. -/
def moveEntry (w : World) (source target : String) : Except Refusal Unit × World :=
  match w.rename source target with
  | .ok w => (.ok (), w)
  | .error r => (.error r, w)

end ScriptShell.World
