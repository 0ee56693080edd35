import ScriptShell.Script.ExprReader
import ScriptShell.Token.Layout

/-!
# Reading scripts

A script is a number of lines. A line is a compound statement or simple statements with semicolons
between them, an optional one after the last, and a newline at the end. The body of a compound
statement follows its colon: either a simple line, or a newline and an indented block of lines.
A name, an index in brackets and an equals sign start an item assignment; where only part of that
is there, the name starts an expression instead.

The entry points are `parse`, which takes a whole source as a script, and `parseExpression`, which
takes it as one expression.
-/

namespace ScriptShell.Reader

/-- The operator that an assignment sign applies first, if the token is such a sign. -/
def assignment? : Token → Option (Option Operator)
  | .symbol .assign => some none
  | .symbol .plusAssign => some (some .add)
  | .symbol .minusAssign => some (some .sub)
  | .symbol .timesAssign => some (some .mul)
  | .symbol .divideAssign => some (some .div)
  | _ => none

/-- Reads the token `t`. -/
def exactly (t : Token → Bool) : (ts : List Token) → Read Unit ts
  | [] => .error []
  | t' :: ts => if t t' then .ok ((), Shorter.tail _ ts) else .error (t' :: ts)

/-- Reads a symbol. -/
def symbol (sign : Symbol) : (ts : List Token) → Read Unit ts :=
  exactly fun
    | .symbol other => other == sign
    | _ => false

/-- Reads a newline. -/
def newline : (ts : List Token) → Read Unit ts :=
  exactly fun
    | .newline => true
    | _ => false

/-- Reads an identifier. -/
def identifier : (ts : List Token) → Read String ts
  | .identifier name :: ts => .ok (name, Shorter.tail _ ts)
  | ts => .error ts

/-- The index expression and the tokens after it, where an index in brackets and an equals sign
stand at the front. -/
def itemTarget? (ts : List Token) : Option (Expr × Shorter ts) :=
  match ts with
  | .symbol .openBracket :: ts =>
    match expr ts with
    | .ok (index, ⟨.symbol .closeBracket :: .symbol .assign :: rest, h⟩) =>
      some (index, ⟨rest, by simp only [List.length_cons] at h ⊢; omega⟩)
    | _ => none
  | _ => none

/-- Reads an expression as a statement. -/
def bareExpr (ts : List Token) : Read Stmt ts := do
  let (value, rest) ← expr ts
  return (.expr value, rest)

/-- Reads a statement that starts with the name of a variable. -/
def namedStatement (name : String) (ts : List Token) : Read Stmt (.identifier name :: ts) :=
  match ts with
  | [] => bareExpr _
  | t :: after =>
    match assignment? t with
    | some op => do
      let (value, ⟨rest, h⟩) ← expr after
      return (.assign name op value, ⟨rest, by simp only [List.length_cons]; omega⟩)
    | none =>
      match itemTarget? (t :: after) with
      | some (index, ⟨rest, h⟩) => do
        let (value, ⟨rest', h'⟩) ← expr rest
        return (.setItem name index value,
          ⟨rest', by simp only [List.length_cons] at h ⊢; omega⟩)
      | none => bareExpr _

/-- Reads the optional value after the word that leaves a function. -/
def giveBack (ts : List Token) : Continue Stmt ts :=
  match ts.head? with
  | some (.symbol .semicolon) | some .newline => .ok (.giveBack none, NotLonger.all ts)
  | _ => do
    let (value, rest) ← expr ts
    return (.giveBack (some value), Shorter.notLonger rest)

/-- Reads a simple statement. -/
def simpleStatement : (ts : List Token) → Read Stmt ts
  | .keyword .pass :: ts => .ok (.pass, Shorter.tail _ ts)
  | .keyword .leave :: ts => .ok (.leave, Shorter.tail _ ts)
  | .keyword .next :: ts => .ok (.next, Shorter.tail _ ts)
  | .keyword .giveBack :: ts => do
    let (statement, rest) ← giveBack ts
    return (statement, NotLonger.behind _ rest)
  | .identifier name :: ts => namedStatement name ts
  | ts => bareExpr ts

/-- Reads a line of simple statements with its newline. -/
def simpleLine (ts : List Token) : Read (List Stmt) ts := do
  let (first, ⟨rest, h⟩) ← simpleStatement ts
  match rest, h with
  | .newline :: rest, h => return ([first], ⟨rest, by simp only [List.length_cons] at h; omega⟩)
  | .symbol .semicolon :: .newline :: rest, h =>
    return ([first], ⟨rest, by simp only [List.length_cons] at h; omega⟩)
  | .symbol .semicolon :: rest, h =>
    let (others, ⟨rest', h'⟩) ← simpleLine rest
    return (first :: others, ⟨rest', by simp only [List.length_cons] at h; omega⟩)
  | rest, _ => .error rest
termination_by ts.length
decreasing_by
  simp only [List.length_cons] at h
  omega

/-- Reads the names of parameters up to the closing parenthesis. -/
def parameters : (ts : List Token) → Read (List String) ts
  | .symbol .closeParen :: ts => .ok ([], Shorter.tail _ ts)
  | .identifier name :: .symbol .closeParen :: ts =>
    .ok ([name], ⟨ts, by simp only [List.length_cons]; omega⟩)
  | .identifier name :: .symbol .comma :: ts => do
    let (others, ⟨rest, h⟩) ← parameters ts
    return (name :: others, ⟨rest, by simp only [List.length_cons]; omega⟩)
  | .identifier _ :: ts => .error ts
  | ts => .error ts

/-- Reads the condition of a choice or loop with its colon. -/
def condition (ts : List Token) : Read Expr ts := do
  let (test, ⟨rest, h⟩) ← expr ts
  let (_, ⟨rest', h'⟩) ← symbol .colon rest
  return (test, ⟨rest', by omega⟩)

/-- Reads the name, parameters and colon of a definition. -/
def signature (ts : List Token) : Read (String × List String) ts := do
  let (name, ⟨rest, h⟩) ← identifier ts
  let (_, ⟨rest₁, h₁⟩) ← symbol .openParen rest
  let (params, ⟨rest₂, h₂⟩) ← parameters rest₁
  let (_, ⟨rest₃, h₃⟩) ← symbol .colon rest₂
  return ((name, params), ⟨rest₃, by omega⟩)

/-- Reads the variable, the iterable and the colon of a loop over items. -/
def loopHead (ts : List Token) : Read (String × Expr) ts := do
  let (name, ⟨rest, h⟩) ← identifier ts
  let (_, ⟨rest₁, h₁⟩) ← exactly (fun | .keyword .within => true | _ => false) rest
  let (iterable, ⟨rest₂, h₂⟩) ← condition rest₁
  return ((name, iterable), ⟨rest₂, by omega⟩)

mutual

/-- Reads a line of a script. -/
def line (ts : List Token) : Read (List Stmt) ts :=
  match ts with
  | .keyword .define :: ts => do
    let ((name, params), ⟨rest, h⟩) ← signature ts
    let (body, ⟨rest', h'⟩) ← suite rest
    return ([.define name params body], ⟨rest', by simp only [List.length_cons]; omega⟩)
  | .keyword .onlyIf :: ts => do
    let (test, ⟨rest, h⟩) ← condition ts
    let (body, ⟨rest₁, h₁⟩) ← suite rest
    let ((branches, otherwise), ⟨rest₂, h₂⟩) ← alternatives rest₁
    return ([.choose ((test, body) :: branches) otherwise],
      ⟨rest₂, by simp only [List.length_cons]; omega⟩)
  | .keyword .loopWhile :: ts => do
    let (test, ⟨rest, h⟩) ← condition ts
    let (body, ⟨rest', h'⟩) ← suite rest
    return ([.loopWhile test body], ⟨rest', by simp only [List.length_cons]; omega⟩)
  | .keyword .loopFor :: ts => do
    let ((name, iterable), ⟨rest, h⟩) ← loopHead ts
    let (body, ⟨rest', h'⟩) ← suite rest
    return ([.loopFor name iterable body], ⟨rest', by simp only [List.length_cons]; omega⟩)
  | ts => simpleLine ts
termination_by 4 * ts.length
decreasing_by all_goals simp only [List.length_cons]; omega

/-- Reads the further branches of a choice. -/
def alternatives (ts : List Token) :
    Continue (List (Expr × List Stmt) × Option (List Stmt)) ts :=
  match ts with
  | .keyword .elseIf :: ts => do
    let (test, ⟨rest, h⟩) ← condition ts
    let (body, ⟨rest₁, h₁⟩) ← suite rest
    let ((branches, otherwise), ⟨rest₂, h₂⟩) ← alternatives rest₁
    return (((test, body) :: branches, otherwise),
      ⟨rest₂, by simp only [List.length_cons]; omega⟩)
  | .keyword .otherwise :: ts => do
    let (_, ⟨rest, h⟩) ← symbol .colon ts
    let (body, ⟨rest', h'⟩) ← suite rest
    return (([], some body), ⟨rest', by simp only [List.length_cons]; omega⟩)
  | ts => .ok (([], none), NotLonger.all ts)
termination_by 4 * ts.length
decreasing_by all_goals simp only [List.length_cons]; omega

/-- Reads the body of a compound statement. -/
def suite (ts : List Token) : Read (List Stmt) ts :=
  match ts with
  | .newline :: .indent :: ts => do
    let (first, ⟨rest, h⟩) ← line ts
    let (others, ⟨rest', h'⟩) ← linesToDedent rest
    return (first ++ others, ⟨rest', by simp only [List.length_cons]; omega⟩)
  | .newline :: ts => .error ts
  | ts => simpleLine ts
termination_by 4 * ts.length
decreasing_by all_goals simp only [List.length_cons]; omega

/-- Reads the lines of a block up to its dedent. -/
def linesToDedent (ts : List Token) : Read (List Stmt) ts :=
  match ts with
  | .dedent :: ts => .ok ([], Shorter.tail _ ts)
  | ts => do
    let (first, ⟨rest, h⟩) ← line ts
    let (others, ⟨rest', h'⟩) ← linesToDedent rest
    return (first ++ others, ⟨rest', by omega⟩)
termination_by 4 * ts.length + 1

end

/-- Reads the lines of a script to the end, or stops at the tokens where it got stuck. -/
def script (ts : List Token) : Except (List Token) (List Stmt) :=
  match ts with
  | [] => .ok []
  | t :: ts => do
    let (first, ⟨rest, _⟩) ← line (t :: ts)
    let others ← script rest
    return first ++ others
termination_by ts.length
decreasing_by assumption

/-- Reads one expression with newlines after it to the end. -/
def onlyExpr (ts : List Token) : Except (List Token) Expr := do
  let (value, ⟨rest, _⟩) ← expr ts
  match rest.dropWhile (fun | .newline => true | _ => false) with
  | [] => return value
  | stuck => .error stuck

/-- The fault at the token where reading got stuck, `remaining` tokens before the end. A fault at
the end starts at the end of the source and stops where the last token does. -/
def faultAt (source : String) (tokens : List PlacedToken) (remaining : Nat) : SyntaxError :=
  match tokens[tokens.length - remaining]? with
  | some t => ⟨.unexpectedToken t.token, t.start, t.stop⟩
  | none =>
    let size := source.utf8ByteSize
    ⟨.unexpectedEnd, size, (tokens.getLast?.map PlacedToken.stop).getD size⟩

/-- Reads the tokens of a source by `read`. -/
def readSource {α : Type} (read : List Token → Except (List Token) α) (source : String) :
    Except SyntaxError α := do
  let tokens ← tokenize source
  match read (tokens.map PlacedToken.token) with
  | .ok a => return a
  | .error stuck => .error (faultAt source tokens stuck.length)

end ScriptShell.Reader

namespace ScriptShell

/-- The script that a source is. -/
def parse (source : String) : Except SyntaxError (List Stmt) :=
  Reader.readSource Reader.script source

/-- The expression that a source is. -/
def parseExpression (source : String) : Except SyntaxError Expr :=
  Reader.readSource Reader.onlyExpr source

/-- Whether a source is a script. -/
def compiles (source : String) : Bool := (parse source).isOk

end ScriptShell
