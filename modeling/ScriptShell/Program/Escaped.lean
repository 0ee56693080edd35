import ScriptShell.Text.Utf8

/-!
# Escapes that utilities read

Utilities that write their arguments read escapes in them: a backslash with a letter, or with the
digits of a byte in base eight or sixteen. Each of them has rules of its own for the digits, and some
take the letter `c` as the end of all output. A backslash that starts no escape stands for itself.
-/

namespace ScriptShell.Escaped

/-- The value of an octal digit. -/
def octalDigit? (c : Char) : Option Nat :=
  if '0' ≤ c ∧ c ≤ '7' then some (c.toNat - '0'.toNat) else none

/-- The value of a digit of base sixteen. -/
def hexDigit? (c : Char) : Option Nat :=
  if c.isDigit then some (c.toNat - '0'.toNat)
  else if 'a' ≤ c ∧ c ≤ 'f' then some (c.toNat - 'a'.toNat + 10)
  else if 'A' ≤ c ∧ c ≤ 'F' then some (c.toNat - 'A'.toNat + 10)
  else none

/-- The value of at most `limit` digits of a base, and what follows them. -/
def digits (base : Nat) (digit? : Char → Option Nat) : Nat → Nat → List Char → Nat × List Char
  | limit + 1, value, c :: cs =>
    match digit? c with
    | some d => digits base digit? limit (base * value + d) cs
    | none => (value, c :: cs)
  | _, value, cs => (value, cs)

theorem length_digits_le (base : Nat) (digit? : Char → Option Nat) (limit value : Nat)
    (cs : List Char) : (digits base digit? limit value cs).2.length ≤ cs.length := by
  fun_induction digits base digit? limit value cs with
  | case1 limit value c cs d hd ih => exact Nat.le_succ_of_le ih
  | case2 => exact Nat.le_refl _
  | case3 => exact Nat.le_refl _

/-- The byte of a letter after a backslash. -/
def letter? : Char → Option UInt8
  | 'a' => some 7
  | 'b' => some 8
  | 'e' => some 27
  | 'f' => some 12
  | 'n' => some 10
  | 'r' => some 13
  | 't' => some 9
  | 'v' => some 11
  | '\\' => some 92
  | _ => none

/-- The bytes of a character. -/
def bytesOf (c : Char) : List UInt8 := Text.Utf8.encode (String.singleton c)

/-- The rules of a utility for escapes. -/
structure Rules where
  /-- Whether a zero may stand before the three digits of an octal number. -/
  zeroFirst : Bool
  /-- Whether `x` starts a number in base sixteen. -/
  hexadecimal : Bool
  /-- Whether a double quote can be escaped. -/
  quotes : Bool
  /-- Whether `c` ends all output. -/
  stops : Bool
  deriving DecidableEq, Repr

/-- The rules of `echo`. -/
def inEcho : Rules := ⟨true, true, false, true⟩

/-- The rules of the shell's own `echo`. -/
def inShellEcho : Rules := ⟨true, false, false, true⟩

/-- The rules of the formats of `printf`. -/
def inFormat : Rules := ⟨false, true, true, true⟩

/-- The rules of the formats of the shell's own `printf`. -/
def inShellFormat : Rules := ⟨false, false, false, false⟩

namespace Rules

/-- Reads an escape that is a character after a backslash and what follows them: its bytes, and what
is left. -/
def escape (r : Rules) (c : Char) (cs : List Char) : List UInt8 × List Char :=
  match letter? c, octalDigit? c with
  | some b, _ => ([b], cs)
  | none, some d =>
    let number :=
      if r.zeroFirst && d == 0 then digits 8 octalDigit? 3 0 cs else digits 8 octalDigit? 2 d cs
    ([UInt8.ofNat number.1], number.2)
  | none, none =>
    if c == '"' && r.quotes then ([34], cs)
    else if c == 'x' && r.hexadecimal && cs.head?.any fun d => (hexDigit? d).isSome then
      let number := digits 16 hexDigit? 2 0 cs
      ([UInt8.ofNat number.1], number.2)
    else (92 :: bytesOf c, cs)

theorem length_escape_le (r : Rules) (c : Char) (cs : List Char) :
    (r.escape c cs).2.length ≤ cs.length := by
  unfold escape
  split
  · exact Nat.le_refl _
  · dsimp only
    split <;> exact length_digits_le ..
  · split
    · exact Nat.le_refl _
    · split
      · exact length_digits_le ..
      · exact Nat.le_refl _

/-- The bytes of a text with its escapes read, and whether it ran to its end. -/
def read (r : Rules) : List Char → List UInt8 × Bool
  | [] => ([], true)
  | '\\' :: c :: cs =>
    if r.stops && c == 'c' then ([], false)
    else
      have := r.length_escape_le c cs
      let (bytes, ended) := read r (r.escape c cs).2
      ((r.escape c cs).1 ++ bytes, ended)
  | c :: cs =>
    let (bytes, ended) := read r cs
    (bytesOf c ++ bytes, ended)
termination_by cs => cs.length
decreasing_by all_goals simp only [List.length_cons]; omega

end Rules

end ScriptShell.Escaped
