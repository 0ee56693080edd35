/-!
# Escapes in string literals

Inside a string literal a backslash and the character after it stand for one character: a line
feed, a tab, a carriage return, a null, a backslash or a quote. Any other pair stands for itself.
Two writers use these escapes: a word is quoted with double quotes, and a value is shown with
single quotes unless it holds a single quote and no double quote.
-/

namespace ScriptShell.Text

/-- The text that the inside of a string literal stands for. -/
def unescape : List Char → List Char
  | '\\' :: c :: cs =>
    match c with
    | 'n' => '\n' :: unescape cs
    | 't' => '\t' :: unescape cs
    | 'r' => '\r' :: unescape cs
    | '0' => '\x00' :: unescape cs
    | '\\' => '\\' :: unescape cs
    | '\'' => '\'' :: unescape cs
    | '"' => '"' :: unescape cs
    | c => '\\' :: c :: unescape cs
  | c :: cs => c :: unescape cs
  | [] => []

/-- A character inside a literal between two `quote` characters. -/
def escaped (quote c : Char) : List Char :=
  match c with
  | '\\' => ['\\', '\\']
  | '\n' => ['\\', 'n']
  | '\t' => ['\\', 't']
  | '\r' => ['\\', 'r']
  | c => if c = quote then ['\\', c] else [c]

/-- A text as a literal between two `quote` characters. -/
def literal (quote : Char) (cs : List Char) : List Char :=
  quote :: cs.flatMap (escaped quote) ++ [quote]

/-- The quote a value is shown with. -/
def preferredQuote (cs : List Char) : Char :=
  if cs.contains '\'' && !cs.contains '"' then '"' else '\''

/-- A text as a value shows it. -/
def shownLiteral (s : String) : String :=
  String.ofList (literal (preferredQuote s.toList) s.toList)

/-- A text as a word that denotes it. -/
def quoteWord (s : String) : String := String.ofList (literal '"' s.toList)

end ScriptShell.Text
