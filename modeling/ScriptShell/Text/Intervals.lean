/-!
# Tables of intervals

A set of characters is given by the closed intervals of their numbers, in increasing order, and a
number is looked up by halving.
-/

namespace ScriptShell.Text

/-- Whether `n` lies in one of the intervals with an index from `low` to before `high`, found by
halving at most `fuel` times. -/
def inIntervals (table : Array (Nat × Nat)) (n : Nat) : Nat → Nat → Nat → Bool
  | 0, _, _ => false
  | fuel + 1, low, high =>
    if high ≤ low then false
    else
      let middle := (low + high) / 2
      match table[middle]? with
      | none => false
      | some (first, last) =>
        if n < first then inIntervals table n fuel low middle
        else if last < n then inIntervals table n fuel (middle + 1) high
        else true

/-- Whether a number lies in a table of intervals. -/
def isListed (table : Array (Nat × Nat)) (n : Nat) : Bool := inIntervals table n 32 0 table.size

end ScriptShell.Text
