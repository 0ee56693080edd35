import ScriptShell.Number.FloatText
import ScriptShell.Text.Visible

/-!
# Tokens

A script is read as a list of tokens: keywords, symbols, literals, identifiers, the layout tokens
that stand for line structure, and flags. A flag is a word such as `-la` in the place of a command
argument; no grammar rule has one, so a line that holds one is no script.
-/

namespace ScriptShell

/-- The words that are no identifiers. -/
inductive Keyword where
  | define | onlyIf | elseIf | otherwise | loopWhile | loopFor | within | giveBack
  | leave | next | pass | conj | disj | negation | yes | no | nothing
  deriving DecidableEq, Repr

/-- The spelling of a keyword. -/
def Keyword.text : Keyword → String
  | .define => "def"
  | .onlyIf => "if"
  | .elseIf => "elif"
  | .otherwise => "else"
  | .loopWhile => "while"
  | .loopFor => "for"
  | .within => "in"
  | .giveBack => "return"
  | .leave => "break"
  | .next => "continue"
  | .pass => "pass"
  | .conj => "and"
  | .disj => "or"
  | .negation => "not"
  | .yes => "True"
  | .no => "False"
  | .nothing => "None"

/-- Every keyword. -/
def Keyword.all : List Keyword :=
  [.define, .onlyIf, .elseIf, .otherwise, .loopWhile, .loopFor, .within, .giveBack, .leave, .next,
    .pass, .conj, .disj, .negation, .yes, .no, .nothing]

/-- The keyword that a word spells, if it spells one. -/
def Keyword.ofText? (word : String) : Option Keyword :=
  Keyword.all.find? fun k => k.text == word

theorem Keyword.text_of_ofText? {word : String} {k : Keyword} (h : Keyword.ofText? word = some k) :
    k.text = word := by
  simpa using List.find?_some h

/-- Operators and punctuation. -/
inductive Symbol where
  | power | floorDivide | equal | notEqual | atMost | atLeast
  | plusAssign | minusAssign | timesAssign | divideAssign
  | plus | minus | times | divide | percent | less | greater | assign
  | openParen | closeParen | openBracket | closeBracket | openBrace | closeBrace
  | comma | colon | semicolon
  deriving DecidableEq, Repr

/-- The spelling of a symbol. -/
def Symbol.text : Symbol → String
  | .power => "**"
  | .floorDivide => "//"
  | .equal => "=="
  | .notEqual => "!="
  | .atMost => "<="
  | .atLeast => ">="
  | .plusAssign => "+="
  | .minusAssign => "-="
  | .timesAssign => "*="
  | .divideAssign => "/="
  | .plus => "+"
  | .minus => "-"
  | .times => "*"
  | .divide => "/"
  | .percent => "%"
  | .less => "<"
  | .greater => ">"
  | .assign => "="
  | .openParen => "("
  | .closeParen => ")"
  | .openBracket => "["
  | .closeBracket => "]"
  | .openBrace => "\x7b"
  | .closeBrace => "\x7d"
  | .comma => ","
  | .colon => ":"
  | .semicolon => ";"

/-- The symbol that two characters spell. -/
def Symbol.ofPair? : Char → Char → Option Symbol
  | '*', '*' => some .power
  | '/', '/' => some .floorDivide
  | '=', '=' => some .equal
  | '!', '=' => some .notEqual
  | '<', '=' => some .atMost
  | '>', '=' => some .atLeast
  | '+', '=' => some .plusAssign
  | '-', '=' => some .minusAssign
  | '*', '=' => some .timesAssign
  | '/', '=' => some .divideAssign
  | _, _ => none

/-- The symbol that one character spells. -/
def Symbol.ofChar? : Char → Option Symbol
  | '+' => some .plus
  | '-' => some .minus
  | '*' => some .times
  | '/' => some .divide
  | '%' => some .percent
  | '<' => some .less
  | '>' => some .greater
  | '=' => some .assign
  | '(' => some .openParen
  | ')' => some .closeParen
  | '[' => some .openBracket
  | ']' => some .closeBracket
  | '\x7b' => some .openBrace
  | '\x7d' => some .closeBrace
  | ',' => some .comma
  | ':' => some .colon
  | ';' => some .semicolon
  | _ => none

/-- A token of a script. -/
inductive Token where
  | keyword (word : Keyword)
  | symbol (sign : Symbol)
  | float (value : Float)
  | integer (value : Int64)
  | string (text : String)
  | identifier (name : String)
  | newline
  | indent
  | dedent
  | flag (text : String)
  deriving Repr

namespace Token

/-- Whether a minus sign after the token is a subtraction: the token can end an operand. -/
def endsOperand : Token → Bool
  | .identifier _ | .integer _ | .float _ | .string _ => true
  | .symbol .closeParen | .symbol .closeBracket => true
  | .keyword .yes | .keyword .no | .keyword .nothing => true
  | _ => false

/-- Whether the token is spelled like an identifier. -/
def isWord : Token → Bool
  | .identifier _ | .keyword _ => true
  | _ => false

/-- Whether the token opens a bracket. -/
def opensBracket : Token → Bool
  | .symbol .openParen | .symbol .openBracket | .symbol .openBrace => true
  | _ => false

/-- Whether the token closes a bracket. -/
def closesBracket : Token → Bool
  | .symbol .closeParen | .symbol .closeBracket | .symbol .closeBrace => true
  | _ => false

/-- A token as an error message names it. -/
def display : Token → String
  | .keyword word => "'" ++ word.text ++ "'"
  | .symbol sign => "'" ++ sign.text ++ "'"
  | .float value => FloatText.plain value
  | .integer value => Integer.render value
  | .string text => Text.quotedInMessage text
  | .identifier name => name
  | .newline => "newline"
  | .indent => "indent"
  | .dedent => "dedent"
  | .flag text => "flag " ++ text

end Token

/-- A token with the bytes of the source it covers, from `start` to before `stop`. -/
structure PlacedToken where
  token : Token
  start : Nat
  stop : Nat
  deriving Repr

/-- What is wrong with a script as a text. -/
inductive SyntaxFault where
  /-- No token starts here; the text is shown up to where a token could have ended. -/
  | unexpectedText (text : String)
  /-- A line is indented less than the one before and like no line that encloses it. -/
  | unindent
  /-- The token cannot follow those before it. -/
  | unexpectedToken (token : Token)
  /-- More tokens must follow. -/
  | unexpectedEnd
  deriving Repr

/-- The message of a fault. -/
def SyntaxFault.message : SyntaxFault → String
  | .unexpectedText text => "unexpected character " ++ Text.quotedInMessage text
  | .unindent => "unindent does not match any outer indentation level"
  | .unexpectedToken token => "found '" ++ token.display ++ "'"
  | .unexpectedEnd => "found end of input"

/-- A fault with the bytes of the source where it shows. -/
structure SyntaxError where
  fault : SyntaxFault
  start : Nat
  stop : Nat
  deriving Repr

/-- The message of a syntax error, up to the list of the tokens that could have stood there, which is
left out. -/
def SyntaxError.message (e : SyntaxError) : String := e.fault.message

end ScriptShell
