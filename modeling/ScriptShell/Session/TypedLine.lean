import ScriptShell.Text.Blank
import ScriptShell.Text.Cluster

/-!
# Typed lines

A line that comes from no terminal may still hold the backspaces that were typed. Each of them
takes back what a reader takes for one character, the cluster written before it, and a backspace
with nothing before it does nothing.
-/

namespace ScriptShell.TypedLine

/-- The character that takes back what was written before it. -/
def backspace : Char := '\x08'

/-- A text that is being written: its characters, reversed, and the sizes in bytes of its clusters,
the last one first. -/
structure Draft where
  characters : List Char
  sizes : List Nat
  deriving DecidableEq, Repr

/-- Sizes are counted in one byte. -/
def sizeLimit : Nat := 256

/-- A reversed text without the characters that take a number of bytes at its front. -/
def withoutBytes : Nat → List Char → List Char
  | 0, cs => cs
  | _ + 1, [] => []
  | n + 1, c :: cs => withoutBytes (n + 1 - c.utf8Size) cs

/-- Writes a cluster, or takes back the last one if it is a backspace. -/
def write (d : Draft) (cluster : List Char) : Draft :=
  if cluster = [backspace] then
    match d.sizes with
    | [] => d
    | size :: sizes => ⟨withoutBytes size d.characters, sizes⟩
  else ⟨cluster.reverse ++ d.characters, Text.utf8Length cluster % sizeLimit :: d.sizes⟩

/-- What is left of a line after its backspaces. -/
def final (line : List Char) : List Char :=
  if line.contains backspace then
    ((Text.clusters line).foldl write ⟨[], []⟩).characters.reverse
  else line

end ScriptShell.TypedLine
