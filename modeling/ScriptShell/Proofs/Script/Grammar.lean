import ScriptShell.Script.Tree
import ScriptShell.Token.Basic

/-!
# The grammar of scripts

Which token lists are expressions and scripts, and of which trees, said by production rules alone:
no reader is mentioned. In the notation of the rules, braces repeat and brackets make optional:

    or         = and { "or" and }
    and        = not { "and" not }
    not        = "not" not | comparison
    comparison = sum [ ("==" | "!=" | "<" | ">" | "<=" | ">=" | "in") sum ]
    sum        = term { ("+" | "-") term }
    term       = unary { ("*" | "/" | "//" | "%") unary }
    unary      = "-" unary | power
    power      = postfixed [ "**" unary ]
    postfixed  = atom { "(" items ")" | "[" or "]" }
    atom       = literal | NAME | "(" or ")" | "[" items "]" | "{" pairs "}"
    items      = [ or { "," or } [ "," ] ]
    pairs      = [ or ":" or { "," or ":" or } [ "," ] ]

    program    = { line }
    line       = compound | simpleLine
    simpleLine = simple { ";" simple } [ ";" ] NEWLINE
    simple     = "pass" | "break" | "continue" | "return" [ or ]
               | NAME ("=" | "+=" | "-=" | "*=" | "/=") or
               | NAME "[" or "]" "=" or
               | or
    compound   = "def" NAME "(" parameters ")" ":" suite
               | "if" or ":" suite alternatives
               | "while" or ":" suite
               | "for" NAME "in" or ":" suite
    alternatives = { "elif" or ":" suite } [ "else" ":" suite ]
    parameters = [ NAME { "," NAME } [ "," ] ]
    suite      = simpleLine | NEWLINE INDENT lines DEDENT
    lines      = line { line }

A repetition whose tree grows to the left is a rule that calls itself on the left, and one whose
tree is a list is a rule that calls itself on the right.
-/

namespace ScriptShell

/-- The nonterminals of expressions, the loosest binding first. -/
inductive ExprRule where
  | or | and | not | comparison | sum | term | unary | power | postfixed | atom | items | pairs

/-- What a nonterminal of expressions is the grammar of. -/
abbrev ExprRule.Tree : ExprRule → Type
  | .items => List Expr
  | .pairs => List (Expr × Expr)
  | _ => Expr

/-- The signs that compare two sums. -/
def comparisonSigns : List (Token × Operator) :=
  [(.symbol .equal, .eq), (.symbol .notEqual, .ne), (.symbol .less, .lt), (.symbol .greater, .gt),
    (.symbol .atMost, .le), (.symbol .atLeast, .ge), (.keyword .within, .isIn)]

/-- The signs between the terms of a sum. -/
def sumSigns : List (Token × Operator) := [(.symbol .plus, .add), (.symbol .minus, .sub)]

/-- The signs between the factors of a term. -/
def termSigns : List (Token × Operator) :=
  [(.symbol .times, .mul), (.symbol .divide, .div), (.symbol .floorDivide, .floorDiv),
    (.symbol .percent, .mod)]

/-- The tokens that are constants. -/
inductive LiteralToken : Token → Expr → Prop where
  | integer {n : Int64} : LiteralToken (.integer n) (.int n)
  | float {x : Float} : LiteralToken (.float x) (.float x)
  | string {s : String} : LiteralToken (.string s) (.str s)
  | yes : LiteralToken (.keyword .yes) (.bool true)
  | no : LiteralToken (.keyword .no) (.bool false)
  | nothing : LiteralToken (.keyword .nothing) .none

/-- A token list is derived from a nonterminal of expressions, with a tree. -/
inductive ExprRule.Derives : (rule : ExprRule) → List Token → rule.Tree → Prop where
  | ofAnd {us e} : Derives .and us e → Derives .or us e
  | disj {us vs l r} : Derives .or us l → Derives .and vs r →
      Derives .or (us ++ .keyword .disj :: vs) (.or l r)
  | ofNot {us e} : Derives .not us e → Derives .and us e
  | conj {us vs l r} : Derives .and us l → Derives .not vs r →
      Derives .and (us ++ .keyword .conj :: vs) (.and l r)
  | ofComparison {us e} : Derives .comparison us e → Derives .not us e
  | negation {us e} : Derives .not us e → Derives .not (.keyword .negation :: us) (.not e)
  | ofSum {us e} : Derives .sum us e → Derives .comparison us e
  | compare {us vs l r t op} : (t, op) ∈ comparisonSigns → Derives .sum us l → Derives .sum vs r →
      Derives .comparison (us ++ t :: vs) (.binary op l r)
  | ofTerm {us e} : Derives .term us e → Derives .sum us e
  | add {us vs l r t op} : (t, op) ∈ sumSigns → Derives .sum us l → Derives .term vs r →
      Derives .sum (us ++ t :: vs) (.binary op l r)
  | ofUnary {us e} : Derives .unary us e → Derives .term us e
  | multiply {us vs l r t op} : (t, op) ∈ termSigns → Derives .term us l → Derives .unary vs r →
      Derives .term (us ++ t :: vs) (.binary op l r)
  | ofPower {us e} : Derives .power us e → Derives .unary us e
  | minus {us e} : Derives .unary us e → Derives .unary (.symbol .minus :: us) (.neg e)
  | ofPostfixed {us e} : Derives .postfixed us e → Derives .power us e
  | exponent {us vs l r} : Derives .postfixed us l → Derives .unary vs r →
      Derives .power (us ++ .symbol .power :: vs) (.binary .pow l r)
  | ofAtom {us e} : Derives .atom us e → Derives .postfixed us e
  | call {us vs f args} : Derives .postfixed us f → Derives .items vs args →
      Derives .postfixed (us ++ .symbol .openParen :: vs ++ [.symbol .closeParen]) (.call f args)
  | index {us vs e i} : Derives .postfixed us e → Derives .or vs i →
      Derives .postfixed (us ++ .symbol .openBracket :: vs ++ [.symbol .closeBracket]) (.index e i)
  | literal {t e} : LiteralToken t e → Derives .atom [t] e
  | name {x} : Derives .atom [.identifier x] (.name x)
  | paren {us e} : Derives .or us e →
      Derives .atom (.symbol .openParen :: us ++ [.symbol .closeParen]) e
  | list {us es} : Derives .items us es →
      Derives .atom (.symbol .openBracket :: us ++ [.symbol .closeBracket]) (.list es)
  | dict {us es} : Derives .pairs us es →
      Derives .atom (.symbol .openBrace :: us ++ [.symbol .closeBrace]) (.dict es)
  | noItems : Derives .items [] []
  | lastItem {us e} : Derives .or us e → Derives .items us [e]
  | moreItems {us vs e es} : Derives .or us e → Derives .items vs es →
      Derives .items (us ++ .symbol .comma :: vs) (e :: es)
  | noPairs : Derives .pairs [] []
  | lastPair {us vs k e} : Derives .or us k → Derives .or vs e →
      Derives .pairs (us ++ .symbol .colon :: vs) [(k, e)]
  | morePairs {us vs ws k e es} : Derives .or us k → Derives .or vs e → Derives .pairs ws es →
      Derives .pairs (us ++ .symbol .colon :: vs ++ .symbol .comma :: ws) ((k, e) :: es)

/-- Whatever calls and brackets are added to can stand where any expression can. -/
theorem ExprRule.Derives.of_postfixed {us : List Token} {e : Expr}
    (h : ExprRule.postfixed.Derives us e) : ExprRule.or.Derives us e :=
  .ofAnd (.ofNot (.ofComparison (.ofSum (.ofTerm (.ofUnary (.ofPower (.ofPostfixed h)))))))

/-- The nonterminals of scripts. -/
inductive ScriptRule where
  | program | line | simpleLine | simple | compound | alternatives | parameters | suite | lines

/-- What a nonterminal of scripts is the grammar of. -/
abbrev ScriptRule.Tree : ScriptRule → Type
  | .simple | .compound => Stmt
  | .alternatives => List (Expr × List Stmt) × Option (List Stmt)
  | .parameters => List String
  | _ => List Stmt

/-- The signs that assign to a name, with the operator that they apply first. -/
def assignmentSigns : List (Symbol × Option Operator) :=
  [(.assign, none), (.plusAssign, some .add), (.minusAssign, some .sub),
    (.timesAssign, some .mul), (.divideAssign, some .div)]

/-- A token list is derived from a nonterminal of scripts, with a tree. -/
inductive ScriptRule.Derives : (rule : ScriptRule) → List Token → rule.Tree → Prop where
  | emptyProgram : Derives .program [] []
  | ofLines {us p} : Derives .lines us p → Derives .program us p
  | ofCompound {us s} : Derives .compound us s → Derives .line us [s]
  | ofSimpleLine {us p} : Derives .simpleLine us p → Derives .line us p
  | lastSimple {us s} : Derives .simple us s → Derives .simpleLine (us ++ [.newline]) [s]
  | lastSimpleWithSign {us s} : Derives .simple us s →
      Derives .simpleLine (us ++ [.symbol .semicolon, .newline]) [s]
  | moreSimple {us vs s p} : Derives .simple us s → Derives .simpleLine vs p →
      Derives .simpleLine (us ++ .symbol .semicolon :: vs) (s :: p)
  | pass : Derives .simple [.keyword .pass] .pass
  | leave : Derives .simple [.keyword .leave] .leave
  | next : Derives .simple [.keyword .next] .next
  | giveBackNothing : Derives .simple [.keyword .giveBack] (.giveBack none)
  | giveBack {us e} : ExprRule.Derives .or us e →
      Derives .simple (.keyword .giveBack :: us) (.giveBack (some e))
  | assign {x sign op us e} : (sign, op) ∈ assignmentSigns → ExprRule.Derives .or us e →
      Derives .simple (.identifier x :: .symbol sign :: us) (.assign x op e)
  | setItem {x us vs i e} : ExprRule.Derives .or us i → ExprRule.Derives .or vs e →
      Derives .simple (.identifier x :: .symbol .openBracket :: us ++
        .symbol .closeBracket :: .symbol .assign :: vs) (.setItem x i e)
  | expr {us e} : ExprRule.Derives .or us e → Derives .simple us (.expr e)
  | define {x us vs params body} : Derives .parameters us params → Derives .suite vs body →
      Derives .compound (.keyword .define :: .identifier x :: .symbol .openParen :: us ++
        .symbol .closeParen :: .symbol .colon :: vs) (.define x params body)
  | choose {us vs ws c body branches otherwise} : ExprRule.Derives .or us c →
      Derives .suite vs body → Derives .alternatives ws (branches, otherwise) →
      Derives .compound (.keyword .onlyIf :: us ++ .symbol .colon :: vs ++ ws)
        (.choose ((c, body) :: branches) otherwise)
  | loopWhile {us vs c body} : ExprRule.Derives .or us c → Derives .suite vs body →
      Derives .compound (.keyword .loopWhile :: us ++ .symbol .colon :: vs) (.loopWhile c body)
  | loopFor {x us vs e body} : ExprRule.Derives .or us e → Derives .suite vs body →
      Derives .compound (.keyword .loopFor :: .identifier x :: .keyword .within :: us ++
        .symbol .colon :: vs) (.loopFor x e body)
  | noAlternative : Derives .alternatives [] ([], none)
  | otherwise {us body} : Derives .suite us body →
      Derives .alternatives (.keyword .otherwise :: .symbol .colon :: us) ([], some body)
  | elseIf {us vs ws c body branches otherwise} : ExprRule.Derives .or us c →
      Derives .suite vs body → Derives .alternatives ws (branches, otherwise) →
      Derives .alternatives (.keyword .elseIf :: us ++ .symbol .colon :: vs ++ ws)
        ((c, body) :: branches, otherwise)
  | noParameter : Derives .parameters [] []
  | lastParameter {x} : Derives .parameters [.identifier x] [x]
  | moreParameters {x us xs} : Derives .parameters us xs →
      Derives .parameters (.identifier x :: .symbol .comma :: us) (x :: xs)
  | ofInlineSuite {us p} : Derives .simpleLine us p → Derives .suite us p
  | block {us p} : Derives .lines us p →
      Derives .suite (.newline :: .indent :: us ++ [.dedent]) p
  | lastLine {us p} : Derives .line us p → Derives .lines us p
  | moreLines {us vs p q} : Derives .line us p → Derives .lines vs q →
      Derives .lines (us ++ vs) (p ++ q)

end ScriptShell
