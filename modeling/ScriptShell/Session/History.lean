import ScriptShell.Session.Display
import ScriptShell.Text.Blank
import ScriptShell.Text.Utf8

/-!
# History

The commands that were entered, oldest first. An entry that is empty or repeats the one before is
not kept, and neither are entries beyond the last hundred. A history file has a first line that
says how it is written, and a line for each entry, in which line feeds and backslashes are escaped.
A file is read up to the first line that is no text; what was read of such a file counts as new, so
that the file is written afresh.
-/

namespace ScriptShell

/-- The entries of a history, and how many of them were made in this session. -/
structure History where
  entries : List String
  fresh : Nat
  deriving DecidableEq, Repr

namespace History

/-- The history without entries. -/
def empty : History := ⟨[], 0⟩

/-- The greatest number of entries. -/
def limit : Nat := 100

/-- Adds an entry. -/
def add (entry : String) (h : History) : History :=
  if entry.isEmpty || h.entries.getLast? == some entry then h
  else
    let entries := h.entries ++ [entry]
    let kept := entries.drop (entries.length - limit)
    ⟨kept, min (h.fresh + 1) kept.length⟩

/-- The characters of an entry as they are written to a file. -/
def escaped : List Char → List Char
  | [] => []
  | '\\' :: cs => '\\' :: '\\' :: escaped cs
  | '\n' :: cs => '\\' :: 'n' :: escaped cs
  | c :: cs => c :: escaped cs

/-- The entry that a line of a file stands for, if its backslashes are those of escapes. -/
def unescaped? : List Char → Option (List Char)
  | [] => some []
  | '\\' :: 'n' :: cs => (unescaped? cs).map ('\n' :: ·)
  | '\\' :: '\\' :: cs => (unescaped? cs).map ('\\' :: ·)
  | '\\' :: _ => none
  | c :: cs => (unescaped? cs).map (c :: ·)

/-- The first line of a file. -/
def mark : String := "#V2"

/-- The text of a history file. -/
def text (h : History) : String :=
  String.join ((mark :: h.entries.map fun e => String.ofList (escaped e.toList)).map (· ++ "\n"))

/-- The entry of a line; a line with other backslashes is an entry as it is. -/
def entryOf (line : List Char) : String := String.ofList ((unescaped? line).getD line)

/-- The history that the lines of a file hold, all of it new. A file without the mark has its lines
for entries. -/
def ofLines (lines : List (List Char)) : History :=
  let entries :=
    if lines.head? == some mark.toList then (lines.drop 1).map entryOf
    else lines.map String.ofList
  entries.foldl (fun h e => h.add e) empty

/-- The lines of a file before the first one that is no text, and whether these are all. -/
def readableLines (bytes : List UInt8) : List (List Char) × Bool :=
  let items := Text.Utf8.items bytes
  let cs := (items.takeWhile fun item => item.character?.isSome).filterMap
    Text.Utf8.Item.character?
  if cs.length = items.length then (Text.lines cs, true)
  else (Text.lines (cs.reverse.dropWhile (· != '\n')).reverse, false)

/-- The history that the bytes of a file hold. -/
def ofBytes (bytes : List UInt8) : History :=
  let (lines, complete) := readableLines bytes
  if complete then { ofLines lines with fresh := 0 } else ofLines lines

/-- The rest of the newest entry that a line begins; there is none for an empty line, nor when that
entry is the line itself. -/
def hint? (h : History) (line : String) : Option String :=
  if line.isEmpty then none
  else
    match h.entries.reverse.find? fun e => line.toList.isPrefixOf e.toList with
    | none => none
    | some e => if e = line then none else some (String.ofList (e.toList.drop line.length))

end History

/-- The number of columns of a step of indentation. -/
def indentWidth : Nat := 4

/-- The blanks that lead from the end of a text to the next step of indentation. -/
def indentFor (before : String) : String :=
  let column := (before.toList.reverse.takeWhile (· != '\n')).length
  String.ofList (List.replicate (indentWidth - column % indentWidth) ' ')

end ScriptShell
