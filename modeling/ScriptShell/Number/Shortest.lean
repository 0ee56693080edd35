import ScriptShell.Number.Binary64
import ScriptShell.Number.Integer

/-!
# The shortest decimal that reads back

Around a finite number lies the interval of reals that read back as it; its ends belong to it when
the significand is even. For one, two, and up to seventeen digits the two neighbours of the number
on that decimal grid are tested against the interval. The first grid with a neighbour inside gives
the digits; of two neighbours inside the nearer is taken, and the upper one when both are as near.
-/

namespace ScriptShell.Decimal

/-- A positive decimal number `digits · 10 ^ exponent`. -/
structure Scaled where
  digits : Nat
  exponent : Int
  deriving DecidableEq, Repr

/-- A binary number with the interval that reads back as it, over one denominator. -/
structure Target where
  value : Nat
  low : Nat
  high : Nat
  den : Nat
  closed : Bool
  deriving DecidableEq, Repr

/-- The interval around `significand · 2 ^ exponent`. Below the least significand of a binade the
numbers lie twice as close, so the lower half of the interval is half as wide there. -/
def Target.ofParts (significand : Nat) (exponent : Int) : Target :=
  let unit := if 2 ≤ exponent then 1 <<< (exponent - 2).toNat else 1
  let den := if 2 ≤ exponent then 1 else 1 <<< (2 - exponent).toNat
  let below := if significand = Binary64.hiddenBit ∧ -1074 < exponent then 1 else 2
  { value := 4 * significand * unit
    low := (4 * significand - below) * unit
    high := (4 * significand + 2) * unit
    den := den
    closed := significand % 2 == 0 }

/-- The number over a grid of step `10 ^ grid`: value, low end, high end, and the step itself. -/
def Target.onGrid (t : Target) (grid : Int) : Nat × Nat × Nat × Nat :=
  if 0 ≤ grid then (t.value, t.low, t.high, t.den * Nat.pow 10 grid.toNat)
  else
    let scale := Nat.pow 10 (-grid).toNat
    (t.value * scale, t.low * scale, t.high * scale, t.den)

/-- The point of a grid that stands for the number, if one of its neighbours there reads back. -/
def Target.onGrid? (t : Target) (grid : Int) : Option Nat :=
  let (value, low, high, step) := t.onGrid grid
  let floor := value / step
  let floorReadsBack := low < floor * step || (t.closed && low == floor * step)
  let ceilReadsBack := (floor + 1) * step < high || (t.closed && (floor + 1) * step == high)
  if floorReadsBack && ceilReadsBack then
    some (if 2 * (value - floor * step) < step then floor else floor + 1)
  else if floorReadsBack then some floor
  else if ceilReadsBack then some (floor + 1)
  else none

/-- The least `order` from `guess` on, at most `fuel` steps away, with the number below
`10 ^ order`. -/
def Target.orderFrom (t : Target) : Nat → Int → Int
  | 0, guess => guess
  | fuel + 1, guess =>
    let (value, _, _, step) := t.onGrid guess
    if value < step then guess else t.orderFrom fuel (guess + 1)

/-- The exponent of the least power of ten above the number. -/
def Target.order (t : Target) : Int :=
  let guess : Int := ((Nat.log2 t.value : Int) - Nat.log2 t.den) * 30103 / 100000
  t.orderFrom 6 (guess - 2)

/-- The first grid with a point that reads back, the grids having `count`, `count + 1`, … digits
and `fuel` of them being tried. -/
def Target.firstGrid (t : Target) (order : Int) : Nat → Nat → Scaled
  | 0, count => ⟨t.value * Nat.pow 10 count / t.den, -count⟩
  | fuel + 1, count =>
    let grid := order - count
    match t.onGrid? grid with
    | some digits => ⟨digits, grid⟩
    | none => t.firstGrid order fuel (count + 1)

/-- A decimal without zeros at the end of its digits, at most `fuel` of them taken off. -/
def Scaled.withoutZeros : Nat → Scaled → Scaled
  | 0, s => s
  | fuel + 1, s =>
    if s.digits % 10 = 0 ∧ s.digits ≠ 0 then withoutZeros fuel ⟨s.digits / 10, s.exponent + 1⟩
    else s

/-- The shortest decimal that reads back as `significand · 2 ^ exponent`, the significand not
being zero. -/
def shortest (significand : Nat) (exponent : Int) : Scaled :=
  let t := Target.ofParts significand exponent
  (t.firstGrid t.order 17 1).withoutZeros 20

/-- A decimal in positional notation: never an exponent, and a point only before a fraction. -/
def Scaled.positional (s : Scaled) : List Char :=
  let digits := Integer.naturalDigits s.digits
  if 0 ≤ s.exponent then digits ++ List.replicate s.exponent.toNat '0'
  else
    let places := (-s.exponent).toNat
    if digits.length ≤ places then
      '0' :: '.' :: List.replicate (places - digits.length) '0' ++ digits
    else
      digits.take (digits.length - places) ++ '.' :: digits.drop (digits.length - places)

end ScriptShell.Decimal
