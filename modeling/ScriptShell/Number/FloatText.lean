import ScriptShell.Number.Shortest

/-!
# Text of floating-point numbers

Two ways to write a number. In the plain form it is the shortest decimal that reads back, in
positional notation. A value of the language is written the same way, except that a whole number
below ten to the sixteenth always has one decimal, and that no number is without a sign. Reading
takes digits with an optional point and exponent, and the names of the infinities and of no number.
-/

namespace ScriptShell.FloatText

/-- A minus sign before the text of a negative number. -/
def signed (negative : Bool) (cs : List Char) : List Char :=
  if negative then '-' :: cs else cs

/-- A number in the plain form. -/
def plainChars (x : Float) : List Char :=
  match Binary64.parts x with
  | .nan => ['N', 'a', 'N']
  | .infinite negative => signed negative ['i', 'n', 'f']
  | .finite negative 0 _ => signed negative ['0']
  | .finite negative significand exponent =>
    signed negative (Decimal.shortest significand exponent).positional

/-- Whether a whole number is written with one decimal: it is below `10 ^ 16`. -/
def hasOneDecimal (significand : Nat) (exponent : Int) : Bool :=
  Binary64.isWholeAt significand exponent &&
    decide (Binary64.truncated false significand exponent < 10000000000000000)

/-- A number as a value of the language is written. -/
def valueChars (x : Float) : List Char :=
  match Binary64.parts x with
  | .nan => ['n', 'a', 'n']
  | .infinite negative => signed negative ['i', 'n', 'f']
  | .finite negative significand exponent =>
    if hasOneDecimal significand exponent then
      signed negative
        (Integer.text (Binary64.truncated false significand exponent) ++ ['.', '0'])
    else signed negative (Decimal.shortest significand exponent).positional

/-- A number in the plain form. -/
def plain (x : Float) : String := String.ofList (plainChars x)

/-- A number as a value of the language is written. -/
def value (x : Float) : String := String.ofList (valueChars x)

/-- An exponent from which on further digits are not counted. -/
def exponentLimit : Nat := 0x10000

/-- The exponent that one or more digits spell: once it reaches the limit, further digits do not
change it. -/
def cappedExponent? (ds : List Char) : Option Nat :=
  if ds.isEmpty || !ds.all Char.isDigit then none
  else some (ds.foldl (fun n d =>
    if n < exponentLimit then 10 * n + Integer.digitValue d else n) 0)

/-- The exponent that follows the digits of a number: none, or `e` with an optional sign and one or
more digits. -/
def exponent? : List Char → Option Int
  | [] => some 0
  | c :: cs =>
    if c == 'e' || c == 'E' then
      match cs with
      | '-' :: ds => (cappedExponent? ds).map fun n => -(n : Int)
      | '+' :: ds => (cappedExponent? ds).map fun n => (n : Int)
      | ds => (cappedExponent? ds).map fun n => (n : Int)
    else none

/-- The number nearest to digits with an optional point and exponent. -/
def unsignedDecimal? (negative : Bool) (cs : List Char) : Option Float :=
  let whole := cs.takeWhile Char.isDigit
  let rest := cs.dropWhile Char.isDigit
  let (fraction, rest) := match rest with
    | '.' :: ds => (ds.takeWhile Char.isDigit, ds.dropWhile Char.isDigit)
    | ds => ([], ds)
  match Integer.naturalOfDigits? (whole ++ fraction), exponent? rest with
  | some digits, some exponent =>
    some (Binary64.ofDecimal negative digits (exponent - fraction.length))
  | _, _ => none

/-- The number that a text without a sign spells. -/
def unsigned? (negative : Bool) (cs : List Char) : Option Float :=
  let lower := String.ofList (cs.map Char.toLower)
  if lower = "inf" ∨ lower = "infinity" then
    some (if negative then -(1.0 / 0.0) else 1.0 / 0.0)
  else if lower = "nan" then some (0.0 / 0.0)
  else unsignedDecimal? negative cs

/-- The number that a text spells: after at most one sign, digits or a name. -/
def parse? : List Char → Option Float
  | '-' :: cs => unsigned? true cs
  | '+' :: cs => unsigned? false cs
  | cs => unsigned? false cs

end ScriptShell.FloatText
