/-!
# Binary64 numbers taken apart

A finite floating-point number is a signed whole number of units, a unit being a power of two. The
parts are read off the number's bits, so everything said about them is exact: truncation toward
zero, the test for a whole number, and the number nearest to a given ratio.
-/

namespace ScriptShell.Binary64

/-- What the bits of a number say: no number, an infinity, or `±significand · 2 ^ exponent`. -/
inductive Parts where
  | nan
  | infinite (negative : Bool)
  | finite (negative : Bool) (significand : Nat) (exponent : Int)
  deriving DecidableEq, Repr

/-- The bit that says that a number is negative. -/
def signBit : Nat := 1 <<< 63

/-- The highest bit of the significand of a number that is not subnormal; the bits of the number
leave it out. -/
def hiddenBit : Nat := 1 <<< 52

/-- The bits of the positive infinity. -/
def infinityBits : Nat := 2047 * hiddenBit

/-- The parts that sixty-four bits describe. -/
def partsOfBits (bits : Nat) : Parts :=
  let negative := decide (signBit ≤ bits % (2 * signBit))
  let scale : Nat := bits / hiddenBit % 2048
  let fraction : Nat := bits % hiddenBit
  if scale = 2047 then
    if fraction = 0 then .infinite negative else .nan
  else if scale = 0 then .finite negative fraction (-1074)
  else .finite negative (hiddenBit + fraction) ((scale : Int) - 1075)

/-- The parts of a number. -/
def parts (x : Float) : Parts := partsOfBits x.toBits.toNat

/-- The whole number that is left of `±significand · 2 ^ exponent` when its fraction is dropped. -/
def truncated (negative : Bool) (significand : Nat) (exponent : Int) : Int :=
  let size : Nat :=
    if 0 ≤ exponent then significand <<< exponent.toNat
    else significand >>> (-exponent).toNat
  if negative then -size else size

/-- Whether `significand · 2 ^ exponent` is a whole number. -/
def isWholeAt (significand : Nat) (exponent : Int) : Bool :=
  0 ≤ exponent || significand % (1 <<< (-exponent).toNat) == 0

/-- Whether a number is finite. -/
def isFinite (x : Float) : Bool :=
  match parts x with
  | .finite .. => true
  | _ => false

/-- Whether a number is finite and has no fraction. -/
def isWhole (x : Float) : Bool :=
  match parts x with
  | .finite _ significand exponent => isWholeAt significand exponent
  | _ => false

/-- A finite number with its fraction dropped. -/
def truncate? (x : Float) : Option Int :=
  match parts x with
  | .finite negative significand exponent => some (truncated negative significand exponent)
  | _ => none

/-- The number of bits that a natural number takes. -/
def bitLength (n : Nat) : Nat := if n = 0 then 0 else n.log2 + 1

/-- The bits of the magnitude nearest to `num / den`, a tie going to the even one; `den` is not
zero. A subnormal magnitude is a multiple of the least one, and beyond the greatest magnitude lies
infinity. -/
def nearestBits (num den : Nat) : Nat :=
  if num = 0 then 0
  else
    let guess : Int := (bitLength num : Int) - bitLength den - 53
    let quotient (exponent : Int) : Nat × Nat × Nat :=
      let top := if exponent < 0 then num <<< (-exponent).toNat else num
      let bottom := if exponent < 0 then den else den <<< exponent.toNat
      (top / bottom, top % bottom, bottom)
    let fitted := if 2 * hiddenBit ≤ (quotient guess).1 then guess + 1 else guess
    let exponent := max (-1074) fitted
    let (whole, rest, bottom) := quotient exponent
    let rounded :=
      if bottom < 2 * rest ∨ (bottom = 2 * rest ∧ whole % 2 = 1) then whole + 1 else whole
    let scale := (exponent + 1074).toNat
    min (scale * hiddenBit + rounded) infinityBits

/-- The number nearest to `±num / den`. -/
def nearest (negative : Bool) (num den : Nat) : Float :=
  Float.ofBits (UInt64.ofNat ((if negative then signBit else 0) + nearestBits num den))

/-- The number nearest to `±digits · 10 ^ exponent`. Magnitudes of `10 ^ 310` and more are
infinite and those below `10 ^ -400` are zero, so no power beyond these is ever computed. -/
def ofDecimal (negative : Bool) (digits : Nat) (exponent : Int) : Float :=
  let order : Int := exponent + (Nat.log2 (digits + 1) : Int) * 30103 / 100000
  if digits = 0 ∨ order < -400 then nearest negative 0 1
  else if 400 < order then Float.ofBits (UInt64.ofNat
    ((if negative then signBit else 0) + infinityBits))
  else if 0 ≤ exponent then nearest negative (digits * Nat.pow 10 exponent.toNat) 1
  else nearest negative digits (Nat.pow 10 (-exponent).toNat)

end ScriptShell.Binary64
