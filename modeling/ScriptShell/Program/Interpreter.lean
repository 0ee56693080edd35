import ScriptShell.Text.Utf8

/-!
# Interpreters of scripts

A script starts with a mark and, on the same line, the path of the program that interprets it and
at most one argument. Only the start of a file is looked at. Where it holds no end of a line, the
path must be seen to end, and the argument may be cut. The line is made of bytes: its gaps are
spaces and tabs, and a byte of zero ends what stands before it.
-/

namespace ScriptShell.Interpreter

/-- The program that interprets a script, and the arguments it is given before the script. -/
structure Call where
  path : String
  args : List String
  deriving DecidableEq, Repr

/-- The number of bytes at the start of a file that are looked at. -/
def lookedAt : Nat := 256

/-- The start of a file, filled up with zeros. -/
def startOf (content : List UInt8) : List UInt8 :=
  let bytes := content.take lookedAt
  bytes ++ List.replicate (lookedAt - bytes.length) 0

/-- Whether a byte is a space or a tab. -/
def isGap (b : UInt8) : Bool := b == 32 || b == 9

/-- Whether a byte ends the path of an interpreter. -/
def endsPath (b : UInt8) : Bool := isGap b || b == 0

/-- The first line after the mark of a script. Without an end, it must show where the path ends,
and its last byte is not part of it. -/
def line? (bytes : List UInt8) : Option (List UInt8) :=
  let head := bytes.takeWhile fun b => b != 10 && b != 0
  if (bytes.drop head.length).head? == some 10 then some head
  else if (bytes.dropWhile isGap).any endsPath then some bytes.dropLast
  else none

/-- The call that a line without gaps at its start asks for. -/
def ofLine (line : List UInt8) : Call :=
  let path := line.takeWhile fun b => !endsPath b
  let rest := line.drop path.length
  let args := match rest with
    | [] | 0 :: _ => []
    | rest => [Text.Utf8.decodeLenient ((rest.dropWhile isGap).takeWhile (· != 0))]
  ⟨Text.Utf8.decodeLenient path, args⟩

/-- The interpreter of a script, if a file is one. -/
def ofContent? (content : List UInt8) : Option Call :=
  match startOf content with
  | 0x23 :: 0x21 :: bytes =>
    (line? bytes).bind fun line =>
      match (line.reverse.dropWhile isGap).reverse.dropWhile isGap with
      | [] => none
      | line => some (ofLine line)
  | _ => none

end ScriptShell.Interpreter
