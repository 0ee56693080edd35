import ScriptShell.Text.Blank

/-!
# Pieces of a command line

A line is cut into segments at delimiters. The first delimiter ends every segment, except one that
starts with another delimiter, which ends at the next one of its kind. A delimiter stays in the
segment it ends, so the segments together are the line, and the last one is what is left over. The
pieces of a line are its segments, cut at spaces and quotes, without the blanks around them.
-/

namespace ScriptShell

namespace Segment

/-- Cuts a text into segments: `awaited` is the delimiter that ends the segment being read, of
which `segment` is read so far, reversed. -/
def splitFrom (first : Char) (delimiters : List Char) (awaited : Char) (segment : List Char) :
    List Char → List (List Char)
  | [] => [segment.reverse]
  | c :: cs =>
    if c = awaited then
      (c :: segment).reverse :: splitFrom first delimiters first [] cs
    else if segment.isEmpty && delimiters.contains c then
      splitFrom first delimiters c [c] cs
    else splitFrom first delimiters awaited (c :: segment) cs

/-- The segments of a text. Without delimiters the text is one segment. -/
def split (delimiters : List Char) (cs : List Char) : List (List Char) :=
  match delimiters with
  | [] => [cs]
  | first :: _ => splitFrom first delimiters first [] cs

end Segment

/-- How a piece is written on a command line. -/
inductive Quoting where
  | bare | single | double
  deriving DecidableEq, Repr

/-- A piece of a command line with how it is written. -/
structure Piece where
  text : String
  quoting : Quoting
  deriving DecidableEq, Repr

namespace Piece

/-- The way a text is written, by its first character. -/
def quotingOf (text : String) : Quoting :=
  match text.toList.head? with
  | some '"' => .double
  | some '\'' => .single
  | _ => .bare

/-- The piece with a text. -/
def ofText (text : String) : Piece := ⟨text, quotingOf text⟩

@[simp] theorem text_ofText (text : String) : (ofText text).text = text := rfl

/-- Whether a piece starts with a quote. -/
def isQuoted (p : Piece) : Bool := p.quoting != .bare

/-- The delimiters of a command line. -/
def delimiters : List Char := [' ', '"', '\'']

/-- The pieces of a command line. -/
def ofLine (line : String) : List Piece :=
  (((Segment.split delimiters line.toList).map Text.trim).filter fun cs => !cs.isEmpty).map
    fun cs => ofText (String.ofList cs)

/-- The texts of the pieces of a command line. -/
def textsOfLine (line : String) : List String := (ofLine line).map Piece.text

end Piece

end ScriptShell
