import ScriptShell.Value.Basic

/-!
# Equality of values

Values of one type are equal when they have equal parts; the order of a dict's entries does not
count, and progressions are compared by their items. Numbers and truth values are equal when they
stand for the same floating-point number, two integers when they are the same.
-/

namespace ScriptShell.Value

/-- Whether two values stand for equal floating-point numbers. -/
def sameNumber (a b : Value) : Bool :=
  match a.asFloat?, b.asFloat? with
  | some x, some y => x == y
  | _, _ => false

mutual

/-- Whether two values are equal. -/
def equals : Value → Value → Bool
  | .none, .none => true
  | .str s, .str t => s == t
  | .list xs, .list ys => itemsEqual xs ys
  | .dict xs, .dict ys => xs.length == ys.length && entriesWithin xs ys
  | .range r, .range t => r.sameItems t
  | .function i _, .function j _ => i == j
  | .builtin f, .builtin g => f == g
  | .int m, .int n => m == n
  | a, b => sameNumber a b

/-- Whether two lists have equal items in the same places. -/
def itemsEqual : List Value → List Value → Bool
  | [], [] => true
  | x :: xs, y :: ys => x.equals y && itemsEqual xs ys
  | _, _ => false

/-- Whether each of some entries has an equal one among others. -/
def entriesWithin : List (String × Value) → List (String × Value) → Bool
  | [], _ => true
  | (key, x) :: es, others =>
    others.any (fun (k, y) => key == k && x.equals y) && entriesWithin es others

end

end ScriptShell.Value
