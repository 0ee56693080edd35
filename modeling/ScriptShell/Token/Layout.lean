import ScriptShell.Token.Flag

/-!
# Layout

Line structure becomes tokens. A logical line ends with a newline token; line feeds inside brackets
and on lines without lexemes do not count. The first logical line sets the base column. A line
further to the right opens a block with an indent token, and a line further to the left closes
blocks with dedent tokens until it stands in line with one; standing in line with none is a fault.
At the end of the source a newline closes the last line and dedents close what is open.
-/

namespace ScriptShell.Layout

/-- What the layout of the lines so far leaves open: the columns of the enclosing blocks, innermost
first; the open brackets; where the current line starts; whether a lexeme stands on it; and where
the last token ends. -/
structure State where
  columns : List Nat
  depth : Nat
  lineStart : Nat
  lineIsEmpty : Bool
  lastStop : Nat
  deriving Repr

/-- The state before the first line. -/
def State.initial : State := ⟨[], 0, 0, true, 0⟩

/-- Closes blocks down to column `width`: how many are closed, and what stays open. -/
def closeTo (width : Nat) : List Nat → Option (Nat × List Nat)
  | [] => none
  | top :: below =>
    if width < top then (closeTo width below).map fun (n, open_) => (n + 1, open_)
    else if top = width then some (0, top :: below)
    else none

/-- The layout tokens before a line at column `width`, and the blocks open on it. -/
def enterLine (width : Nat) (columns : List Nat) : Option (List Token × List Nat) :=
  match columns with
  | [] => some ([], [width])
  | top :: below =>
    if top < width then some ([.indent], width :: top :: below)
    else (closeTo width (top :: below)).map fun (n, open_) => (List.replicate n .dedent, open_)

/-- The open brackets after a token. -/
def depthAfter (depth : Nat) (token : Token) : Nat :=
  if token.opensBracket then depth + 1
  else if token.closesBracket then depth - 1
  else depth

/-- The tokens that close a source. -/
def closing (s : State) : List PlacedToken :=
  let ending := if s.lineIsEmpty then [] else [.newline]
  (ending ++ List.replicate (s.columns.length - 1) Token.dedent).map fun token =>
    ⟨token, s.lastStop, s.lastStop⟩

/-- The tokens of lexemes, from a state on. -/
def run (s : State) : List Lexeme → Except SyntaxError (List PlacedToken)
  | [] => .ok (closing s)
  | l :: ls =>
    match l.token with
    | .newline =>
      if s.depth = 0 then
        let next := { s with lineStart := l.stop, lineIsEmpty := true }
        if s.lineIsEmpty then run next ls
        else do
          let tokens ← run { next with lastStop := l.stop } ls
          return ⟨.newline, l.start, l.stop⟩ :: tokens
      else run s ls
    | token =>
      let depth := depthAfter s.depth token
      if s.lineIsEmpty then
        match enterLine (l.start - s.lineStart) s.columns with
        | none => .error ⟨.unindent, l.start, l.start⟩
        | some (layout, columns) => do
          let tokens ← run ⟨columns, depth, s.lineStart, false, l.stop⟩ ls
          return layout.map (⟨·, l.start, l.start⟩) ++ ⟨token, l.start, l.stop⟩ :: tokens
      else do
        let tokens ← run { s with depth := depth, lastStop := l.stop } ls
        return ⟨token, l.start, l.stop⟩ :: tokens

/-- The tokens of lexemes. -/
def resolve (ls : List Lexeme) : Except SyntaxError (List PlacedToken) := run .initial ls

end ScriptShell.Layout

namespace ScriptShell

/-- The tokens of a source. Its lexemes are read to the end before its layout is looked at, so a
text that starts no lexeme is reported rather than a line that is out of line. -/
def tokenize (source : String) : Except SyntaxError (List PlacedToken) := do
  let lexemes ← Lexeme.scan source.toList
  Layout.resolve (Flag.fold lexemes)

end ScriptShell
