import ScriptShell.Script.Peg
import ScriptShell.Script.Reader

/-!
# Scripts as parsing expressions

The grammar of scripts with the order of its alternatives. Operators, signs of assignment and
comparisons are the tokens that the readers take them for; which alternative is tried first, what is
repeated and what is optional is said here.

An expression uses itself between brackets, a sign and a negation use themselves on their operand,
and a line uses itself in the block of a compound statement.
-/

namespace ScriptShell.Peg

open Reader

/-! ### Tokens -/

/-- Whether a token is a symbol. -/
def isSymbol (sign : Symbol) : Token → Bool
  | .symbol other => other == sign
  | _ => false

/-- Whether a token is a keyword. -/
def isKeyword (word : Keyword) : Token → Bool
  | .keyword other => other == word
  | _ => false

/-- Reads a symbol. -/
def symbol (sign : Symbol) : Peg Unit := one (isSymbol sign)

/-- Reads a keyword. -/
def keyword (word : Keyword) : Peg Unit := one (isKeyword word)

/-- Reads a newline. -/
def newline : Peg Unit := one fun
  | .newline => true
  | _ => false

/-- Reads the start of a block. -/
def indent : Peg Unit := one fun
  | .indent => true
  | _ => false

/-- Reads the end of a block. -/
def dedent : Peg Unit := one fun
  | .dedent => true
  | _ => false

/-- Reads an identifier. -/
def identifier : Peg String := take fun
  | .identifier name => some name
  | _ => none

/-- Reads a literal. -/
def literal : Peg Expr := take fun
  | .integer n => some (.int n)
  | .float x => some (.float x)
  | .string s => some (.str s)
  | .keyword .yes => some (.bool true)
  | .keyword .no => some (.bool false)
  | .keyword .nothing => some .none
  | _ => none

/-- Reads something and the bracket behind it. -/
def upTo {α : Type} (closing : Symbol) (p : Peg α) : Peg α := do
  let a ← p
  symbol closing
  return a

/-- Reads something between two brackets. -/
def between {α : Type} (opening closing : Symbol) (p : Peg α) : Peg α := do
  symbol opening
  upTo closing p

/-! ### Expressions -/

section Parts

/-! The parts of an expression, over what is read as an expression within them. -/

variable (expr : Peg Expr)

/-- Reads expressions with commas. -/
def items : Peg (List Expr) := separated (symbol .comma) expr

/-- Reads a key and its value. -/
def pair : Peg (Expr × Expr) := do
  let key ← expr
  symbol .colon
  let value ← expr
  return (key, value)

/-- Reads an atom. -/
def atom : Peg Expr :=
  literal
  <|> Expr.name <$> identifier
  <|> between .openParen .closeParen expr
  <|> Expr.list <$> between .openBracket .closeBracket (items expr)
  <|> Expr.dict <$> between .openBrace .closeBrace (separated (symbol .comma) (pair expr))

/-- Reads a call or an index, as what it makes of the expression before it. -/
def postfixOp : Peg (Expr → Expr) :=
  (fun args target => .call target args) <$> between .openParen .closeParen (items expr)
  <|> (fun index target => .index target index) <$> between .openBracket .closeBracket expr

/-- Reads an atom with the calls and indexes after it. -/
def postfixed : Peg Expr := do
  let target ← atom expr
  grown (postfixOp expr) target

/-- Reads a postfix expression with an optional exponent, which is read as an operand. -/
def power (unary : Peg Expr) : Peg Expr := do
  let base ← postfixed expr
  let exponent ← optional do
    symbol .power
    unary
  return match exponent with
    | some exponent => .binary .pow base exponent
    | none => base

/-- Reads a sign before an operand, or a power. -/
def unary : Peg Expr := recursive fun unary =>
  (do
    symbol .minus
    let operand ← unary
    return .neg operand)
  <|> power expr unary

end Parts

/-- Reads an operator of a level and the operand behind it, as what they make of the operand
before them. -/
def further (level : Level) (operand : Peg Expr) : Peg (Expr → Expr) := do
  let build ← take level.operator?
  let right ← operand
  return fun left => build left right

/-- Reads operands with the operators of a level between them. -/
def chain (level : Level) (operand : Peg Expr) : Peg Expr := do
  let first ← operand
  grown (further level operand) first

/-- An operand with the comparison behind it, if there is one. -/
def compared (left : Expr) : Option (Operator × Expr) → Expr
  | some (op, right) => .binary op left right
  | none => left

/-- Reads an operand, or two with a comparison between them. -/
def comparison (sum : Peg Expr) : Peg Expr := do
  let left ← sum
  let other ← optional do
    let op ← take comparison?
    let right ← sum
    return (op, right)
  return compared left other

/-- Reads a negated or plain comparison. -/
def negation (sum : Peg Expr) : Peg Expr := recursive fun negation =>
  (do
    keyword .negation
    let operand ← negation
    return .not operand)
  <|> comparison sum

/-- Reads an expression. -/
def expr : Peg Expr := recursive fun expr =>
  chain .or (chain .and (negation (chain .sum (chain .term (unary expr)))))

/-! ### Statements -/

/-- Reads an assignment to a variable. -/
def assignment : Peg Stmt := do
  let name ← identifier
  let op ← take assignment?
  let value ← expr
  return .assign name op value

/-- Reads an assignment to an item. -/
def setItem : Peg Stmt := do
  let name ← identifier
  let index ← between .openBracket .closeBracket expr
  symbol .assign
  let value ← expr
  return .setItem name index value

/-- Reads what leaves a function, with an optional value. -/
def giveBack : Peg Stmt := do
  keyword .giveBack
  let value ← optional expr
  return .giveBack value

/-- Reads a simple statement. -/
def simpleStatement : Peg Stmt :=
  (fun _ => Stmt.pass) <$> keyword .pass
  <|> (fun _ => Stmt.leave) <$> keyword .leave
  <|> (fun _ => Stmt.next) <$> keyword .next
  <|> giveBack
  <|> assignment
  <|> setItem
  <|> Stmt.expr <$> expr

/-- Reads a line of simple statements with its newline. -/
def simpleLine : Peg (List Stmt) := do
  let statements ← separated1 (symbol .semicolon) simpleStatement
  newline
  return statements

/-- Reads the names of parameters in parentheses. -/
def parameters : Peg (List String) :=
  between .openParen .closeParen (separated (symbol .comma) identifier)

section Compound

/-! Compound statements, over what is read as the body of one. -/

variable (suite : Peg (List Stmt))

/-- Reads the definition of a function. -/
def definition : Peg Stmt := do
  keyword .define
  let name ← identifier
  let params ← parameters
  symbol .colon
  let body ← suite
  return .define name params body

/-- Reads a word, a condition and a body. -/
def branch (word : Keyword) : Peg (Expr × List Stmt) := do
  keyword word
  let test ← expr
  symbol .colon
  let body ← suite
  return (test, body)

/-- Reads the body of a choice that no branch of it is taken in. -/
def otherwise : Peg (List Stmt) := do
  keyword .otherwise
  symbol .colon
  suite

/-- Reads a choice. -/
def choice : Peg Stmt := do
  let first ← branch suite .onlyIf
  let others ← many (branch suite .elseIf)
  let last ← optional (otherwise suite)
  return .choose (first :: others) last

/-- Reads a loop with a condition. -/
def loopWhile : Peg Stmt := do
  let (test, body) ← branch suite .loopWhile
  return .loopWhile test body

/-- Reads a loop over items. -/
def loopFor : Peg Stmt := do
  keyword .loopFor
  let name ← identifier
  keyword .within
  let iterable ← expr
  symbol .colon
  let body ← suite
  return .loopFor name iterable body

/-- Reads a compound statement. -/
def compound : Peg Stmt :=
  definition suite <|> choice suite <|> loopWhile suite <|> loopFor suite

end Compound

/-- Reads an indented block of lines. -/
def block (line : Peg (List Stmt)) : Peg (List Stmt) := do
  newline
  indent
  let first ← line
  let others ← many line
  dedent
  return (first :: others).flatten

/-- Reads the body of a compound statement. -/
def suite (line : Peg (List Stmt)) : Peg (List Stmt) := block line <|> simpleLine

/-- Reads a line. -/
def line : Peg (List Stmt) := recursive fun line =>
  (fun statement => [statement]) <$> compound (suite line) <|> simpleLine

/-- Reads a script. -/
def script : Peg (List Stmt) := do
  let lines ← many line
  atEnd
  return lines.flatten

/-- Reads one expression with newlines after it. -/
def onlyExpr : Peg Expr := do
  let value ← expr
  let _ ← many newline
  atEnd
  return value

/-- Reads the tokens of a source. Where that cannot be done, the source is at fault at the token of
the furthest failure. -/
def readSource {α : Type} (p : Peg α) (source : String) : Except SyntaxError α := do
  let tokens ← tokenize source
  match p.run (tokens.map PlacedToken.token) with
  | .ok a => return a
  | .error left => .error (faultAt source tokens left)

end ScriptShell.Peg
