import ScriptShell.Value.Items
import ScriptShell.Value.Order

/-!
# Operators on values

What an operator makes of two values. Integers and truth values are added, multiplied and so on
exactly or not at all; other pairs of numbers are taken as floating-point numbers. Strings and
lists can be joined, and repeated up to a greatest length. A true division of integers and a power
with a negative exponent are floating-point numbers.
-/

namespace ScriptShell

/-- The exact integer, or the fault that there is none. -/
def exactly? (n : Option Int64) : Except EvalError Value :=
  match n with
  | some n => .ok (.int n)
  | none => .error .integerOverflow

/-- What an arithmetic operator makes of two integers. -/
def Operator.ofInts (op : Operator) (a b : Int64) : Except EvalError Value :=
  match op with
  | .sub => exactly? (Integer.sub? a b)
  | .mul => exactly? (Integer.mul? a b)
  | .div => if b = 0 then .error .divisionByZero else .ok (.float (a.toFloat / b.toFloat))
  | .floorDiv => if b = 0 then .error .divisionByZero else exactly? (Integer.floorDiv? a b)
  | .mod => if b = 0 then .error .divisionByZero else .ok (.int (Integer.floorMod a b))
  | .pow =>
    if b < 0 then .ok (.float (a.toFloat ^ b.toFloat)) else exactly? (Integer.pow? a b)
  | _ => exactly? (Integer.add? a b)

/-- What an arithmetic operator makes of two floating-point numbers. -/
def Operator.ofFloats (op : Operator) (x y : Float) : Except EvalError Value :=
  match op with
  | .sub => .ok (.float (x - y))
  | .mul => .ok (.float (x * y))
  | .div => if y == 0 then .error .divisionByZero else .ok (.float (x / y))
  | .floorDiv => if y == 0 then .error .divisionByZero else .ok (.float (x / y).floor)
  | .mod =>
    if y == 0 then .error .divisionByZero else .ok (.float (x - y * (x / y).floor))
  | .pow => .ok (.float (x ^ y))
  | _ => .ok (.float (x + y))

/-- What an arithmetic operator makes of two values that stand for numbers. -/
def Operator.ofNumbers (op : Operator) (a b : Value) : Except EvalError Value :=
  match a.asInt?, b.asInt? with
  | some m, some n => op.ofInts m n
  | _, _ =>
    match a.asFloat?, b.asFloat? with
    | some x, some y => op.ofFloats x y
    | _, _ => .error (.operandKinds op a.kind b.kind)

/-- How often a sequence of some length is repeated; less than once counts as not at all. -/
def repetitions (times : Int64) (length : Nat) : Except EvalError Nat :=
  let count := times.toInt.toNat
  if count * length ≤ greatestLength then .ok count
  else .error (.repetitionTooLong length times)

/-- A string repeated. -/
def repeatText (times : Int64) (s : String) : Except EvalError Value := do
  let count ← repetitions times s.utf8ByteSize
  return .str (if s.isEmpty then "" else String.join (List.replicate count s))

/-- A list repeated. -/
def repeatItems (times : Int64) (items : List Value) : Except EvalError Value := do
  let count ← repetitions times items.length
  return .list (if items.isEmpty then [] else (List.replicate count items).flatten)

/-- What an operator makes of two values. -/
def Operator.apply (op : Operator) (a b : Value) : Except EvalError Value :=
  match op with
  | .eq => .ok (.bool (a.equals b))
  | .ne => .ok (.bool (!a.equals b))
  | .lt | .gt | .le | .ge => (Value.compare op a b).map .bool
  | .isIn => (Value.contains b a).map .bool
  | .add =>
    match a, b with
    | .str s, .str t => .ok (.str (s ++ t))
    | .list xs, .list ys => .ok (.list (xs ++ ys))
    | a, b => Operator.add.ofNumbers a b
  | .mul =>
    match a, b with
    | .str s, .int n | .int n, .str s => repeatText n s
    | .list xs, .int n | .int n, .list xs => repeatItems n xs
    | a, b => Operator.mul.ofNumbers a b
  | op => op.ofNumbers a b

/-- The negative of a value. -/
def Value.negate : Value → Except EvalError Value
  | .float x => .ok (.float (-x))
  | v =>
    match v.asInt? with
    | some n => exactly? (Integer.neg? n)
    | Option.none => .error (.negatedKind v.kind)

end ScriptShell
