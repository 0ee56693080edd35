import ScriptShell.Files.Calendar
import ScriptShell.Files.Operation
import ScriptShell.Number.Integer
import ScriptShell.Text.Visible

/-!
# The trash

What is deleted is moved to the trash below the home directory, where it can be got back. For each
item there is a note in the directory `info`, and the item itself stands under the same name in the
directory `files`. The first free name is taken of the item's own and those with `.2`, `.3` and so
on behind it. A link is moved itself, and what it leads to stays. The name is taken by a note and an
empty placeholder, which the item then replaces; an item that cannot be moved leaves the
placeholder behind.
-/

namespace ScriptShell.World

/-- Why something cannot be moved to the trash. -/
inductive TrashFault where
  | root
  | lostWorkDirectory
  | unreadablePath (path : String)
  | refused (path : String) (reason : Refusal)

/-- The number and kind of a refusal by the system, as a trash fault shows them. -/
def refusalDetail (reason : Refusal) : String × String :=
  match reason with
  | .notFound => ("2", "NotFound")
  | .denied => ("13", "PermissionDenied")
  | .busy => ("16", "ResourceBusy")
  | .exists => ("17", "AlreadyExists")
  | .notDirectory => ("20", "NotADirectory")
  | .isDirectory => ("21", "IsADirectory")
  | .invalid => ("22", "InvalidInput")
  | .nameTooLong => ("36", "InvalidFilename")
  | .notEmpty => ("39", "DirectoryNotEmpty")
  | .tooManyLinks => ("40", "FilesystemLoop")
  | _ => ("0", "Other")

/-- The message of a refusal without its number. -/
def refusalText (reason : Refusal) : String :=
  let cs := reason.message.toList
  let tail := " (os error ".toList.length + (refusalDetail reason).1.length + 1
  String.ofList (cs.take (cs.length - tail))

/-- What a trash fault is about. -/
def TrashFault.detail : TrashFault → String
  | .root => "TargetedRoot"
  | .lostWorkDirectory => "CouldNotAccess \x7b target: \"[Current working directory]\" \x7d"
  | .unreadablePath path =>
    "CanonicalizePath \x7b original: " ++ Text.quotedInMessage path ++ " \x7d"
  | .refused path reason =>
    "FileSystem \x7b path: " ++ Text.quotedInMessage path ++ ", source: Os \x7b code: " ++
      (refusalDetail reason).1 ++ ", kind: " ++ (refusalDetail reason).2 ++ ", message: \"" ++
      refusalText reason ++ "\" \x7d \x7d"

/-- The message of a trash fault. -/
def TrashFault.message (f : TrashFault) : String :=
  "Error during a \x60trash\x60 operation: " ++ f.detail

/-- The path of the trash, without links if it is there. -/
def trashPath (w : World) : String :=
  let path := Path.join w.home ".local/share/Trash"
  match w.locate path with
  | .ok (place, _) => Path.ofLocation place
  | .error _ => path

/-- The place that a path to be deleted names: links on the way are followed, and the last part is
taken as it is, except `..`, which names the directory it would lead out of. -/
def deletedPlace (w : World) (path : String) : Except TrashFault Location := do
  if w.workPath?.isNone && !Path.isAbsolute path then .error .lostWorkDirectory
  else
    match Path.parent? (Path.join w.workPath path) with
    | none => .error .root
    | some parent =>
      match w.locate parent with
      | .error _ => .error (.unreadablePath parent)
      | .ok (place, _) => return place ++ (Path.name? (Path.join w.workPath path)).toList

/-- The name of an item in the trash at an attempt, counted from one. -/
def trashName (name : String) (attempt : Nat) : String :=
  if attempt = 1 then name else name ++ "." ++ String.ofList (Integer.naturalDigits attempt)

/-- Whether a byte stands for itself in the path of a note: those of letters, digits and `-`, `.`,
`_` and `~`. -/
def isNotedAsIs (b : UInt8) : Bool :=
  let c := Char.ofNat b.toNat
  c.isAlphanum || c == '-' || c == '.' || c == '_' || c == '~'

/-- A name in the path of a note: each byte that does not stand for itself is a percent sign with two
digits of base sixteen. -/
def notedName (name : String) : String :=
  String.ofList ((Text.Utf8.encode name).flatMap fun b =>
    if isNotedAsIs b then [Char.ofNat b.toNat]
    else ['%', (Text.hexDigit (b.toNat / 16)).toUpper, (Text.hexDigit (b.toNat % 16)).toUpper])

/-- The note of an item: where it was, and when it was deleted. -/
def trashNote (w : World) (place : Location) : List UInt8 :=
  Text.Utf8.encode ("[Trash Info]\nPath=" ++ Path.ofLocation (place.map notedName) ++
    "\nDeletionDate=" ++ Calendar.stamp w.now ++ "\n")

/-- What came of an attempt to take a name in the trash. -/
inductive TrashAttempt where
  | taken (w : World)
  | failed (fault : TrashFault) (w : World)
  | moved (w : World)

/-- The world without a note that was made in vain. -/
def withdrawn (w : World) (notePath : String) : World := (w.removeFile notePath).toOption.getD w

/-- Makes the placeholder of a node: an empty directory or file. -/
def makePlaceholder (w : World) (n : Node) (path : String) : Except Refusal World :=
  if n.isDirectory then w.makeDirectory path else w.createNew path []

/-- Tries to move the node at a place to the trash under a name. -/
def tryTrash (w : World) (trash : String) (place : Location) (n : Node) (name : String) :
    TrashAttempt :=
  let notePath := Path.join trash ("info/" ++ name ++ ".trashinfo")
  let itemPath := Path.join trash ("files/" ++ name)
  let path := Path.ofLocation place
  match w.createNew notePath (w.trashNote place) with
  | .error .exists => .taken w
  | .error r => .failed (.refused notePath r) w
  | .ok noted =>
    match noted.makePlaceholder n itemPath with
    | .error .exists => .taken (noted.withdrawn notePath)
    | .error r => .failed (.refused itemPath r) (noted.withdrawn notePath)
    | .ok held =>
      match held.rename path itemPath with
      | .error r => .failed (.refused path r) (held.withdrawn notePath)
      | .ok w => .moved w

/-- Moves the node at a place to the trash under the first free name from an attempt on, of at most
`fuel`. -/
def moveToTrash (trash : String) (place : Location) (n : Node) :
    Nat → Nat → World → Except TrashFault Unit × World
  | 0, _, w => (.error (.refused trash .exists), w)
  | fuel + 1, attempt, w =>
    match w.tryTrash trash place n (trashName (place.getLastD "") attempt) with
    | .taken w => moveToTrash trash place n fuel (attempt + 1) w
    | .failed fault w => (.error fault, w)
    | .moved w => (.ok (), w)

/-- The number of entries of the directory that a path leads to. -/
def entryCount (w : World) (path : String) : Nat :=
  match w.node? path with
  | some n => n.entries.length
  | none => 0

/-- Moves what a path leads to to the trash. The directories of the trash are made first, and they
stay if the rest is refused. -/
def delete (w : World) (path : String) : Except TrashFault Unit × World :=
  match w.deletedPlace path with
  | .error f => (.error f, w)
  | .ok [] => (.error .root, w)
  | .ok place =>
    let trash := w.trashPath
    let itemsPath := Path.join trash "files"
    let notesPath := Path.join trash "info"
    match makeDirectories World.greatestPath w itemsPath with
    | (.error r, w) => (.error (.refused itemsPath r), w)
    | (.ok (), w) =>
      match makeDirectories World.greatestPath w notesPath with
      | (.error r, w) => (.error (.refused notesPath r), w)
      | (.ok (), w) =>
        match w.root.at? place with
        | none => (.error (.refused (Path.ofLocation place) .notFound), w)
        | some n =>
          moveToTrash trash place n (w.entryCount notesPath + w.entryCount itemsPath + 1) 1 w

end ScriptShell.World
