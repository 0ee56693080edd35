import ScriptShell.Text.Blank

/-!
# Path texts

A path is a text whose parts stand between slashes. Empty parts do not count, and neither does a
part `.` except at the start of a path without a leading slash. The functions here work on the text
alone; what a path leads to is said in the module on looking paths up.
-/

namespace ScriptShell.Path

/-- The texts between the slashes of a text, `part` being the one read so far, reversed. -/
def betweenSlashes (part : List Char) : List Char → List (List Char)
  | [] => [part.reverse]
  | c :: cs =>
    if c = '/' then part.reverse :: betweenSlashes [] cs else betweenSlashes (c :: part) cs

/-- The parts of a path that are not empty. -/
def parts (path : String) : List String :=
  ((betweenSlashes [] path.toList).filter fun p => !p.isEmpty).map String.ofList

/-- Whether a path starts at the root. -/
def isAbsolute (path : String) : Bool := path.toList.head? == some '/'

/-- Whether a path ends with a slash. -/
def endsWithSlash (path : String) : Bool := path.toList.getLast? == some '/'

/-- The parts of a path without the parts `.`. -/
def steps (path : String) : List String := (parts path).filter (· != ".")

/-- The name at the end of a path; there is none after `..` and in the root. -/
def name? (path : String) : Option String :=
  match (steps path).getLast? with
  | some ".." => none
  | last => last

/-- A path followed from another one. -/
def join (base path : String) : String :=
  if isAbsolute path then path
  else if base.isEmpty || endsWithSlash base then base ++ path
  else base ++ "/" ++ path

/-- The path of the root and the names from there. -/
def ofLocation (names : List String) : String :=
  if names.isEmpty then "/" else String.join (names.map ("/" ++ ·))

/-- The path of what holds the end of a path, if anything can. -/
def parent? (path : String) : Option String :=
  let startsHere := !isAbsolute path && (parts path).head? == some "."
  let all := if startsHere then "." :: steps path else steps path
  if all.isEmpty then none
  else if isAbsolute path then some (ofLocation all.dropLast)
  else some ("/".intercalate all.dropLast)

/-- A path as it reads from the root, for a working directory. Parts `..` are kept. -/
def absolute (workDirectory path : String) : String :=
  let doubled := path.startsWith "//" && !path.startsWith "///"
  let base := if isAbsolute path then (if doubled then "//" else "/") else workDirectory
  let whole := (steps path).foldl join base
  if endsWithSlash path then join whole "" else whole

/-- Whether a name is one that listings leave out. -/
def isHidden (name : String) : Bool := name.toList.head? == some '.'

end ScriptShell.Path
