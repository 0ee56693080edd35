import ScriptShell.Number.Digits

/-!
# Integers of the language

An integer of the language is a 64-bit word read as a signed number. Arithmetic is exact or
refused: an operation answers `none` exactly when its exact result is no 64-bit number. Division
rounds toward negative infinity, and the remainder has the sign of the divisor.
-/

namespace ScriptShell.Integer

/-- The least number that is too large for a word: two to the sixty-third power. -/
def bound : Int := 0x8000000000000000

/-- The word that stands for a number, if there is one. -/
def ofInt? (n : Int) : Option Int64 :=
  if -bound ≤ n ∧ n < bound then some (Int64.ofInt n) else none

theorem ofInt?_eq_some_iff {n : Int} {w : Int64} : ofInt? n = some w ↔ w.toInt = n := by
  unfold ofInt?
  constructor
  · intro h
    split at h
    · next hn =>
      cases h
      unfold bound at hn
      exact Int64.toInt_ofInt_of_le (by omega) (by omega)
    · cases h
  · intro h
    have hlow := Int64.le_toInt w
    have hhigh := Int64.toInt_lt w
    rw [h] at hlow hhigh
    unfold bound
    rw [if_pos ⟨by omega, by omega⟩, ← h, Int64.ofInt_toInt]

theorem ofInt?_eq_none_iff {n : Int} : ofInt? n = none ↔ ¬ (-bound ≤ n ∧ n < bound) := by
  unfold ofInt?
  split <;> simp_all

/-- The word nearest to a number. -/
def clamp (n : Int) : Int64 :=
  if n < -bound then Int64.minValue
  else if bound ≤ n then Int64.maxValue
  else Int64.ofInt n

/-- The least number that is not a length: lengths are unsigned 64-bit words. -/
def lengthBound : Nat := 0x10000000000000000

def add? (a b : Int64) : Option Int64 := ofInt? (a.toInt + b.toInt)

def sub? (a b : Int64) : Option Int64 := ofInt? (a.toInt - b.toInt)

def mul? (a b : Int64) : Option Int64 := ofInt? (a.toInt * b.toInt)

def neg? (a : Int64) : Option Int64 := ofInt? (-a.toInt)

/-- Whether a truncated division left a remainder on the wrong side: one whose sign is not the
divisor's. -/
def roundedUp (remainder divisor : Int64) : Bool :=
  remainder != 0 && (decide (remainder < 0) != decide (divisor < 0))

/-- The quotient rounded down, for a divisor other than zero. Words divide toward zero, so a
quotient that was rounded up is one too large; the least word divided by minus one is refused. -/
def floorDiv? (a b : Int64) : Option Int64 :=
  if a = Int64.minValue ∧ b = -1 then none
  else if roundedUp (a % b) b then some (a / b - 1)
  else some (a / b)

/-- The remainder of the quotient rounded down, for a divisor other than zero. -/
def floorMod (a b : Int64) : Int64 :=
  if roundedUp (a % b) b then a % b + b else a % b

/-- The power of an integer, for an exponent that is a natural number. From two on, a base leaves
the range by its sixty-fourth power at the latest. -/
def boundedPow (a : Int64) (n : Nat) : Option Int64 :=
  if n = 0 then some 1
  else if a = 0 then some 0
  else if a = 1 then some 1
  else if a = -1 then some (if n % 2 = 0 then 1 else -1)
  else if 64 ≤ n then none
  else ofInt? (Int.pow a.toInt n)

/-- The power of an integer for an exponent that is not negative. An exponent of more than
thirty-two bits is refused, whatever the base. -/
def pow? (a b : Int64) : Option Int64 :=
  let n := b.toInt.toNat
  if n < 0x100000000 then boundedPow a n else none

/-- The value of a decimal digit. -/
def digitValue (c : Char) : Nat := c.toNat - '0'.toNat

/-- The number that one or more decimal digits spell. -/
def naturalOfDigits? (cs : List Char) : Option Nat :=
  if cs.isEmpty || !cs.all Char.isDigit then none
  else some (Digits.number 10 (cs.map digitValue))

/-- The integer a text spells: decimal digits after at most one sign. -/
def parse? : List Char → Option Int64
  | '-' :: cs => (naturalOfDigits? cs).bind fun n => ofInt? (-n)
  | '+' :: cs => (naturalOfDigits? cs).bind fun n => ofInt? n
  | cs => (naturalOfDigits? cs).bind fun n => ofInt? n

/-- The decimal digits of a natural number, at most `fuel` of them, before `tail`. -/
def digitsOnto : Nat → Nat → List Char → List Char
  | 0, _, tail => tail
  | fuel + 1, n, tail =>
    let digit := Char.ofNat ('0'.toNat + n % 10)
    if n < 10 then digit :: tail else digitsOnto fuel (n / 10) (digit :: tail)

/-- The decimal digits of a natural number. -/
def naturalDigits (n : Nat) : List Char := digitsOnto (n + 1) n []

/-- A number in decimal digits, after a minus sign when it is negative. -/
def text (n : Int) : List Char :=
  if n < 0 then '-' :: naturalDigits n.natAbs else naturalDigits n.natAbs

/-- The text of an integer. -/
def render (a : Int64) : String := String.ofList (text a.toInt)

end ScriptShell.Integer
