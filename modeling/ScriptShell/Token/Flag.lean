import ScriptShell.Token.Lexeme

/-!
# Flags

A minus sign that stands after an operand and a blank, flush against a word or a second minus sign,
starts a flag, as in `ls -la` and `git log --oneline`. The flag takes in all words, minus signs and
integers that follow without a gap.
-/

namespace ScriptShell.Flag

/-- Whether a flag may start with these two lexemes when it follows an operand. -/
def startsWith (minus next : Lexeme) : Bool :=
  match minus.token with
  | .symbol .minus =>
    minus.afterBlank && next.start == minus.stop &&
      (next.token.isWord || match next.token with
        | .symbol .minus => true
        | _ => false)
  | _ => false

/-- The lexemes that a flag can take in after its first minus sign. -/
def joins : Token → Bool
  | .symbol .minus | .integer _ => true
  | token => token.isWord

/-- The text of the lexemes that follow each other without a gap from byte `stop` on and can join
a flag. -/
def tail (stop : Nat) : List Lexeme → List Char
  | [] => []
  | l :: ls => if l.start == stop && joins l.token then l.text ++ tail l.stop ls else []

/-- The lexemes after those that join a flag. -/
def afterTail (stop : Nat) : List Lexeme → List Lexeme
  | [] => []
  | l :: ls => if l.start == stop && joins l.token then afterTail l.stop ls else l :: ls

theorem length_afterTail_le (stop : Nat) (ls : List Lexeme) :
    (afterTail stop ls).length ≤ ls.length := by
  induction ls generalizing stop with
  | nil => simp [afterTail]
  | cons l ls ih =>
    unfold afterTail
    split
    · exact Nat.le_succ_of_le (ih _)
    · simp

/-- The flag that starts with a minus sign. -/
def ofMinus (minus : Lexeme) (ls : List Lexeme) : Lexeme :=
  let text := minus.text ++ tail minus.stop ls
  { minus with token := .flag (String.ofList text), text := text }

/-- Lexemes with their flags made whole; `afterOperand` says whether an operand ends right before
them. -/
def foldFrom (afterOperand : Bool) : List Lexeme → List Lexeme
  | l :: next :: ls =>
    if afterOperand && startsWith l next then
      ofMinus l (next :: ls) :: foldFrom false (afterTail l.stop (next :: ls))
    else l :: foldFrom l.token.endsOperand (next :: ls)
  | ls => ls
termination_by ls => ls.length
decreasing_by
  · exact Nat.lt_succ_of_le (length_afterTail_le _ _)
  · simp

/-- Lexemes with their flags made whole. -/
def fold (ls : List Lexeme) : List Lexeme := foldFrom false ls

end ScriptShell.Flag
