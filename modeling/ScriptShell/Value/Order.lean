import ScriptShell.Value.Fault

/-!
# Order of values

Strings are ordered by their characters, integers by size, and lists by their first items that are
not equal in order, a shorter list standing before those it starts. Other numbers are ordered as
floating-point numbers, of which some are in no order. Any other pair of values cannot be compared.
-/

namespace ScriptShell.Value

/-- The order of two strings by their characters. -/
def orderOfTexts : List Char → List Char → Ordering
  | [], [] => .eq
  | [], _ :: _ => .lt
  | _ :: _, [] => .gt
  | c :: cs, d :: ds =>
    if c.toNat < d.toNat then .lt
    else if d.toNat < c.toNat then .gt
    else orderOfTexts cs ds

/-- The order of two floating-point numbers, if they have one. -/
def orderOfFloats? (x y : Float) : Option Ordering :=
  if x < y then some .lt
  else if y < x then some .gt
  else if x == y then some .eq
  else Option.none

/-- The order of two integers. -/
def orderOfInts (m n : Int64) : Ordering :=
  if m < n then .lt else if n < m then .gt else .eq

/-- The order of two values that are neither two strings, two integers nor two lists. -/
def orderOfNumbers (op : Operator) (a b : Value) : Except EvalError (Option Ordering) :=
  match a.asFloat?, b.asFloat? with
  | some x, some y => .ok (orderOfFloats? x y)
  | _, _ => .error (.unordered op a.kind b.kind)

mutual

/-- The order of two values, if they have one; the operator is named when they cannot be
compared. -/
def order (op : Operator) : Value → Value → Except EvalError (Option Ordering)
  | .str s, .str t => .ok (some (orderOfTexts s.toList t.toList))
  | .int m, .int n => .ok (some (orderOfInts m n))
  | .list xs, .list ys => orderOfItems op xs ys
  | a, b => orderOfNumbers op a b

/-- The order of two lists. -/
def orderOfItems (op : Operator) : List Value → List Value → Except EvalError (Option Ordering)
  | [], [] => .ok (some .eq)
  | [], _ :: _ => .ok (some .lt)
  | _ :: _, [] => .ok (some .gt)
  | x :: xs, y :: ys => do
    match ← x.order op y with
    | some .eq => orderOfItems op xs ys
    | decided => return decided

end

/-- Whether a comparison holds for values in an order; none holds for values in no order. -/
def holds (op : Operator) : Option Ordering → Bool
  | Option.none => false
  | some o =>
    match op with
    | .lt => o == .lt
    | .gt => o == .gt
    | .le => o != .gt
    | _ => o != .lt

/-- Compares two values. -/
def compare (op : Operator) (a b : Value) : Except EvalError Bool := do
  return holds op (← a.order op b)

end ScriptShell.Value
