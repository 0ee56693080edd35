/-!
# Scripts

A script is a list of statements over expressions. Expressions have no effects of their own except
through calls; statements bind names, choose, repeat, define functions and leave loops and
functions.
-/

namespace ScriptShell

/-- The operators that evaluate both operands. -/
inductive Operator where
  | add | sub | mul | div | floorDiv | mod | pow
  | eq | ne | lt | gt | le | ge | isIn
  deriving DecidableEq, Repr

/-- An operator as it is written. -/
def Operator.text : Operator → String
  | .add => "+"
  | .sub => "-"
  | .mul => "*"
  | .div => "/"
  | .floorDiv => "//"
  | .mod => "%"
  | .pow => "**"
  | .eq => "=="
  | .ne => "!="
  | .lt => "<"
  | .gt => ">"
  | .le => "<="
  | .ge => ">="
  | .isIn => "in"

/-- An expression. The keys of a dict display must evaluate to strings; `and` and `or` evaluate
their right operand only when the left one does not decide. -/
inductive Expr where
  | none
  | bool (value : Bool)
  | int (value : Int64)
  | float (value : Float)
  | str (value : String)
  | name (name : String)
  | list (items : List Expr)
  | dict (pairs : List (Expr × Expr))
  | neg (operand : Expr)
  | not (operand : Expr)
  | binary (op : Operator) (left right : Expr)
  | and (left right : Expr)
  | or (left right : Expr)
  | call (callee : Expr) (args : List Expr)
  | index (target index : Expr)

/-- Whether an expression is a constant: a literal, or a number after a minus sign. -/
def Expr.isLiteral : Expr → Bool
  | .none | .bool _ | .int _ | .float _ | .str _ => true
  | .neg (.int _) | .neg (.float _) => true
  | _ => false

/-- A statement. The branches of a choice are tried in order, and `otherwise` runs when none is
taken. -/
inductive Stmt where
  | expr (value : Expr)
  | assign (name : String) (op : Option Operator) (value : Expr)
  | setItem (name : String) (index value : Expr)
  | define (name : String) (params : List String) (body : List Stmt)
  | choose (branches : List (Expr × List Stmt)) (otherwise : Option (List Stmt))
  | loopWhile (condition : Expr) (body : List Stmt)
  | loopFor (name : String) (iterable : Expr) (body : List Stmt)
  | giveBack (value : Option Expr)
  | leave
  | next
  | pass

end ScriptShell
