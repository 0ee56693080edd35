import ScriptShell.Command.Piece
import ScriptShell.Evaluation.Environment
import ScriptShell.Script.Reader
import ScriptShell.Text.Escape

/-!
# Arguments in call syntax

A command such as `goto home` is call syntax for `goto("home")`. Its first piece is copied, and
each further piece becomes an argument: a piece that already denotes a value, being a bound name or
a literal, stands for itself, and any other piece is quoted and denotes its own text.
-/

namespace ScriptShell

/-- Whether a text has the shape of an identifier. -/
def isIdentifier (text : String) : Bool :=
  match text.toList with
  | [] => false
  | c :: cs => Lexeme.startsName c && cs.all Lexeme.continuesName

namespace Piece

/-- Whether a piece is one literal. -/
def isLiteral (p : Piece) : Bool :=
  match parseExpression p.text with
  | .ok e => e.isLiteral
  | .error _ => false

/-- Whether a piece denotes a value without being quoted. -/
def denotes (p : Piece) (env : Environment) : Bool :=
  (!p.isQuoted && isIdentifier p.text && env.binds p.text) || p.isLiteral

/-- A piece as an argument of a call. -/
def argument (p : Piece) (env : Environment) : String :=
  if p.denotes env then p.text else Text.quoteWord p.text

end Piece

/-- The script that a command is call syntax for; the empty command is none for any. -/
def callSyntax? (command : String) (env : Environment) : Option String :=
  match Piece.ofLine command with
  | [] => none
  | verb :: args =>
    some (verb.text ++ "(" ++ ", ".intercalate (args.map fun p => p.argument env) ++ ")")

end ScriptShell
