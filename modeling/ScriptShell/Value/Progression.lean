import ScriptShell.Number.Integer

/-!
# Arithmetic progressions

A progression runs from a start in equal steps and ends before it would reach or pass its stop. It
is kept as these three numbers: its length, its items and membership are computed, so a long
progression takes no more room than a short one. The length is exact as a number; where a length
has to be a word it is cut to the greatest one.
-/

namespace ScriptShell

/-- A progression: the numbers `start`, `start + step`, … strictly before `stop`. -/
structure Progression where
  start : Int64
  stop : Int64
  step : Int64
  step_ne_zero : step ≠ 0
  deriving DecidableEq, Repr

namespace Progression

/-- The progression with a given start, stop and step; there is none with step zero. -/
def of? (start stop step : Int64) : Option Progression :=
  if h : step = 0 then none else some ⟨start, stop, step, h⟩

/-- The number of items. -/
def count (r : Progression) : Nat :=
  let start := r.start.toInt
  let stop := r.stop.toInt
  let step := r.step.toInt
  if 0 < step then
    if start < stop then ((stop - start + step - 1) / step).toNat else 0
  else if stop < start then ((start - stop - step - 1) / -step).toNat else 0

/-- The number of items as a length. -/
def length (r : Progression) : Nat := min r.count (Integer.lengthBound - 1)

/-- Whether there are no items. -/
def isEmpty (r : Progression) : Bool := r.length == 0

/-- The item at a position. -/
def get? (r : Progression) (i : Nat) : Option Int64 :=
  if i < r.length then Integer.ofInt? (r.start.toInt + i * r.step.toInt) else none

/-- Whether a number is an item. -/
def contains (r : Progression) (n : Int64) : Bool :=
  let inBounds :=
    if 0 < r.step.toInt then decide (r.start ≤ n ∧ n < r.stop)
    else decide (n ≤ r.start ∧ r.stop < n)
  inBounds && (n.toInt - r.start.toInt) % r.step.toInt == 0

/-- Whether two progressions have the same items in the same order. -/
def sameItems (a b : Progression) : Bool :=
  a.length == b.length &&
    (a.isEmpty || (a.start == b.start && (a.length == 1 || a.step == b.step)))

/-- The items in order. -/
def items (r : Progression) : List Int64 := (List.range r.length).filterMap r.get?

/-- A progression as it is written; a step of one is left out. -/
def text (r : Progression) : List Char :=
  let bounds := Integer.text r.start.toInt ++ [',', ' '] ++ Integer.text r.stop.toInt
  let step := if r.step = 1 then [] else [',', ' '] ++ Integer.text r.step.toInt
  "range(".toList ++ bounds ++ step ++ [')']

end Progression

end ScriptShell
