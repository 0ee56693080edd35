import ScriptShell.Script.Tree
import ScriptShell.Token.Basic

/-!
# Reading expressions

The grammar, loosest binding first, where `chain` stands for one operand and any number of
operators with an operand, grouped to the left:

* `or` is a chain of `and` with `or`, and `and` is a chain of `not` with `and`;
* `not` is `not` before a `not`, or a comparison;
* a comparison is a `sum`, or two of them around one comparison operator;
* `sum` is a chain of `term` with `+ -`, and `term` is a chain of `unary` with `* / // %`;
* `unary` is `-` before a `unary`, or a postfix expression with an optional `**` and `unary`;
* a postfix expression is an atom before any number of calls and indexes;
* an atom is a literal, a name, an expression in parentheses, or a list or dict display, with an
  optional comma before the closing bracket.

One token decides what to read next, so reading never goes back. It stops at the first token that
cannot follow those before it, and the tokens from there on are the failure.
-/

namespace ScriptShell.Reader

/-- What follows something that took at least one token of `ts`. -/
abbrev Shorter (ts : List Token) := { rest : List Token // rest.length < ts.length }

/-- What follows something that may have taken no token of `ts`. -/
abbrev NotLonger (ts : List Token) := { rest : List Token // rest.length ≤ ts.length }

/-- What follows the first token. -/
def Shorter.tail (t : Token) (ts : List Token) : Shorter (t :: ts) := ⟨ts, Nat.lt_succ_self _⟩

/-- What follows nothing. -/
def NotLonger.all (ts : List Token) : NotLonger ts := ⟨ts, Nat.le_refl _⟩

/-- What follows a token and something behind it. -/
def Shorter.behind {ts : List Token} (t : Token) (rest : Shorter ts) : Shorter (t :: ts) :=
  ⟨rest.1, Nat.lt_succ_of_lt rest.2⟩

/-- What follows a token and something that may be behind it. -/
def NotLonger.behind {ts : List Token} (t : Token) (rest : NotLonger ts) : Shorter (t :: ts) :=
  ⟨rest.1, Nat.lt_succ_of_le rest.2⟩

/-- What follows something that took a token, where it need not have taken any. -/
def Shorter.notLonger {ts : List Token} (rest : Shorter ts) : NotLonger ts :=
  ⟨rest.1, Nat.le_of_lt rest.2⟩

/-- Reads something from the front of `ts`, or stops at the tokens where it got stuck. -/
abbrev Read (α : Type) (ts : List Token) := Except (List Token) (α × Shorter ts)

/-- Reads what may continue something, or stops at the tokens where it got stuck. -/
abbrev Continue (α : Type) (ts : List Token) := Except (List Token) (α × NotLonger ts)

/-- The levels at which operators form chains. -/
inductive Level where
  | or | and | sum | term
  deriving DecidableEq, Repr

/-- The operator that a token is at a level, as what it makes of its operands. -/
def Level.operator? : Level → Token → Option (Expr → Expr → Expr)
  | .or, .keyword .disj => some .or
  | .and, .keyword .conj => some .and
  | .sum, .symbol .plus => some (.binary .add)
  | .sum, .symbol .minus => some (.binary .sub)
  | .term, .symbol .times => some (.binary .mul)
  | .term, .symbol .divide => some (.binary .div)
  | .term, .symbol .floorDivide => some (.binary .floorDiv)
  | .term, .symbol .percent => some (.binary .mod)
  | _, _ => none

/-- The comparison that a token is. -/
def comparison? : Token → Option Operator
  | .symbol .equal => some .eq
  | .symbol .notEqual => some .ne
  | .symbol .less => some .lt
  | .symbol .greater => some .gt
  | .symbol .atMost => some .le
  | .symbol .atLeast => some .ge
  | .keyword .within => some .isIn
  | _ => none

/-- The expression that one token is. -/
def leaf? : Token → Option Expr
  | .integer n => some (.int n)
  | .float x => some (.float x)
  | .string s => some (.str s)
  | .keyword .yes => some (.bool true)
  | .keyword .no => some (.bool false)
  | .keyword .nothing => some .none
  | .identifier name => some (.name name)
  | _ => none

/-- The place of a level among the rules, counted from the tightest. -/
def Level.rank : Level → Nat
  | .or => 13
  | .and => 11
  | .sum => 7
  | .term => 5

theorem Level.rank_lt (level : Level) : level.rank < 20 := by cases level <;> decide

mutual

/-- Reads an expression. -/
def expr (ts : List Token) : Read Expr ts := chain .or ts
termination_by 20 * ts.length + 14
decreasing_by simp [Level.rank]

/-- Reads a chain of operands. -/
def chain (level : Level) (ts : List Token) : Read Expr ts := do
  let (left, ⟨rest, h⟩) ← operand level ts
  let (whole, ⟨rest', h'⟩) ← chainTail level left rest
  return (whole, ⟨rest', Nat.lt_of_le_of_lt h' h⟩)
termination_by 20 * ts.length + level.rank
decreasing_by
  · cases level <;> simp [Level.rank]
  · have := level.rank_lt
    omega

/-- Reads the operators and operands after `left`. -/
def chainTail (level : Level) (left : Expr) : (ts : List Token) → Continue Expr ts
  | [] => .ok (left, NotLonger.all [])
  | t :: ts =>
    match level.operator? t with
    | none => .ok (left, NotLonger.all (t :: ts))
    | some build => do
      let (right, ⟨rest, h⟩) ← operand level ts
      let (whole, ⟨rest', h'⟩) ← chainTail level (build left right) rest
      return (whole, ⟨rest', by simp only [List.length_cons]; omega⟩)
termination_by ts => 20 * ts.length
decreasing_by
  all_goals have := level.rank_lt
  all_goals simp only [List.length_cons] at *
  all_goals omega

/-- Reads an operand of a chain. -/
def operand (level : Level) (ts : List Token) : Read Expr ts :=
  match level with
  | .or => chain .and ts
  | .and => negation ts
  | .sum => chain .term ts
  | .term => unary ts
termination_by 20 * ts.length + (level.rank - 1)
decreasing_by all_goals simp [Level.rank]

/-- Reads a negated or plain comparison. -/
def negation : (ts : List Token) → Read Expr ts
  | .keyword .negation :: ts => do
    let (operand, rest) ← negation ts
    return (.not operand, Shorter.behind _ rest)
  | ts => comparison ts
termination_by ts => 20 * ts.length + 9
decreasing_by
  all_goals try simp only [List.length_cons] at *
  all_goals omega

/-- Reads a sum, or two sums with a comparison between them. -/
def comparison (ts : List Token) : Read Expr ts := do
  let (left, ⟨rest, h⟩) ← chain .sum ts
  match rest, h with
  | [], h => return (left, ⟨[], h⟩)
  | t :: rest, h =>
    match comparison? t with
    | none => return (left, ⟨t :: rest, h⟩)
    | some op =>
      let (right, ⟨rest', h'⟩) ← chain .sum rest
      return (.binary op left right, ⟨rest', by simp only [List.length_cons] at h; omega⟩)
termination_by 20 * ts.length + 8
decreasing_by
  all_goals try simp only [List.length_cons, Level.rank] at *
  all_goals omega

/-- Reads a sign before an operand, or a power. -/
def unary : (ts : List Token) → Read Expr ts
  | .symbol .minus :: ts => do
    let (operand, rest) ← unary ts
    return (.neg operand, Shorter.behind _ rest)
  | ts => power ts
termination_by ts => 20 * ts.length + 3
decreasing_by
  all_goals try simp only [List.length_cons] at *
  all_goals omega

/-- Reads a postfix expression with an optional exponent. -/
def power (ts : List Token) : Read Expr ts := do
  let (base, ⟨rest, h⟩) ← postfixed ts
  match rest, h with
  | .symbol .power :: rest, h =>
    let (exponent, ⟨rest', h'⟩) ← unary rest
    return (.binary .pow base exponent, ⟨rest', by simp only [List.length_cons] at h; omega⟩)
  | rest, h => return (base, ⟨rest, h⟩)
termination_by 20 * ts.length + 2
decreasing_by
  all_goals try simp only [List.length_cons] at *
  all_goals omega

/-- Reads an atom with the calls and indexes after it. -/
def postfixed (ts : List Token) : Read Expr ts := do
  let (target, ⟨rest, h⟩) ← atom ts
  let (whole, ⟨rest', h'⟩) ← postfixTail target rest
  return (whole, ⟨rest', Nat.lt_of_le_of_lt h' h⟩)
termination_by 20 * ts.length + 1
decreasing_by
  all_goals omega

/-- Reads the calls and indexes after `target`. -/
def postfixTail (target : Expr) : (ts : List Token) → Continue Expr ts
  | .symbol .openParen :: ts => do
    let (args, ⟨rest, h⟩) ← items .closeParen ts
    let (whole, ⟨rest', h'⟩) ← postfixTail (.call target args) rest
    return (whole, ⟨rest', by simp only [List.length_cons]; omega⟩)
  | .symbol .openBracket :: ts => do
    let (index, ⟨rest, h⟩) ← expr ts
    match rest, h with
    | .symbol .closeBracket :: rest, h =>
      let (whole, ⟨rest', h'⟩) ← postfixTail (.index target index) rest
      return (whole, ⟨rest', by simp only [List.length_cons] at h ⊢; omega⟩)
    | rest, _ => .error rest
  | ts => .ok (target, NotLonger.all ts)
termination_by ts => 20 * ts.length
decreasing_by
  all_goals try simp only [List.length_cons] at *
  all_goals omega

/-- Reads an atom. -/
def atom : (ts : List Token) → Read Expr ts
  | [] => .error []
  | .symbol .openParen :: ts => do
    let (inner, ⟨rest, h⟩) ← expr ts
    match rest, h with
    | .symbol .closeParen :: rest, h =>
      return (inner, ⟨rest, by simp only [List.length_cons] at h ⊢; omega⟩)
    | rest, _ => .error rest
  | .symbol .openBracket :: ts => do
    let (values, rest) ← items .closeBracket ts
    return (.list values, Shorter.behind _ rest)
  | .symbol .openBrace :: ts => do
    let (entries, rest) ← pairs ts
    return (.dict entries, Shorter.behind _ rest)
  | t :: ts =>
    match leaf? t with
    | some e => .ok (e, Shorter.tail _ ts)
    | none => .error (t :: ts)
termination_by ts => 20 * ts.length
decreasing_by
  all_goals try simp only [List.length_cons] at *
  all_goals omega

/-- Reads expressions with commas between them up to the bracket `close`. -/
def items (close : Symbol) : (ts : List Token) → Read (List Expr) ts
  | [] => .error []
  | t :: ts =>
    match t with
    | .symbol sign =>
      if sign = close then .ok ([], Shorter.tail _ ts) else itemsFrom close (t :: ts)
    | _ => itemsFrom close (t :: ts)
termination_by ts => 20 * ts.length + 16
decreasing_by
  all_goals try simp only [List.length_cons] at *
  all_goals omega

/-- Reads one expression or more with commas between them up to the bracket `close`. -/
def itemsFrom (close : Symbol) (ts : List Token) : Read (List Expr) ts := do
  let (first, ⟨rest, h⟩) ← expr ts
  match rest, h with
  | .symbol sign :: rest, h =>
    if sign = close then
      return ([first], ⟨rest, by simp only [List.length_cons] at h; omega⟩)
    else if sign = .comma then
      let (others, ⟨rest', h'⟩) ← items close rest
      return (first :: others, ⟨rest', by simp only [List.length_cons] at h; omega⟩)
    else .error (.symbol sign :: rest)
  | rest, _ => .error rest
termination_by 20 * ts.length + 15
decreasing_by
  all_goals try simp only [List.length_cons] at *
  all_goals omega

/-- Reads keys and values with commas between the pairs up to the closing brace. -/
def pairs : (ts : List Token) → Read (List (Expr × Expr)) ts
  | .symbol .closeBrace :: ts => .ok ([], Shorter.tail _ ts)
  | ts => pairsFrom ts
termination_by ts => 20 * ts.length + 16
decreasing_by
  all_goals omega

/-- Reads one pair or more with commas between them up to the closing brace. -/
def pairsFrom (ts : List Token) : Read (List (Expr × Expr)) ts := do
  let (key, ⟨rest, h⟩) ← expr ts
  match rest, h with
  | .symbol .colon :: rest, h =>
    let (value, ⟨rest', h'⟩) ← expr rest
    match rest', h' with
    | .symbol .closeBrace :: rest'', h'' =>
      return ([(key, value)], ⟨rest'', by simp only [List.length_cons] at h h''; omega⟩)
    | .symbol .comma :: rest'', h'' =>
      let (others, ⟨final, h'''⟩) ← pairs rest''
      return ((key, value) :: others,
        ⟨final, by simp only [List.length_cons] at h h''; omega⟩)
    | rest', _ => .error rest'
  | rest, _ => .error rest
termination_by 20 * ts.length + 15
decreasing_by
  all_goals try simp only [List.length_cons] at *
  all_goals omega

end

end ScriptShell.Reader
