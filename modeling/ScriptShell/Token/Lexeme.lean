import ScriptShell.Text.Blank
import ScriptShell.Text.Escape
import ScriptShell.Token.Basic

/-!
# Lexemes

A source is cut from the left into blanks, comments and lexemes, each as long as it can be. A
lexeme keeps its text and place, and whether a space or a tab stands right before it, so that later
passes need not look at the source. Cutting stops at the first characters that start no lexeme.
-/

namespace ScriptShell

/-- A token as it stands in the source. -/
structure Lexeme where
  token : Token
  text : List Char
  start : Nat
  afterBlank : Bool
  deriving Repr

/-- The byte after a lexeme. -/
def Lexeme.stop (l : Lexeme) : Nat := l.start + Text.utf8Length l.text

namespace Lexeme

/-- What the first characters of a source are. -/
inductive Reading where
  | skipped
  | token (token : Token)
  | unreadable
  deriving Repr

/-- A source cut after its first characters. -/
structure Cut where
  reading : Reading
  taken : List Char
  rest : List Char
  deriving Repr

/-- Blanks between lexemes; a line feed is a lexeme. -/
def isGap (c : Char) : Bool := c == ' ' || c == '\t' || c == '\r' || c == '\x0c'

/-- The characters that can start an identifier. -/
def startsName (c : Char) : Bool := c.isAlpha || c == '_'

/-- The characters that can continue an identifier. -/
def continuesName (c : Char) : Bool := c.isAlphanum || c == '_'

/-- The rest of a string literal after its opening quote: what belongs to it, and what follows it
if it is closed. A line feed never belongs to a literal, not even after a backslash. -/
def stringBody (quote : Char) : List Char → List Char × Option (List Char)
  | [] => ([], none)
  | '\\' :: cs =>
    match cs with
    | [] => (['\\'], none)
    | '\n' :: _ => (['\\'], none)
    | c :: cs =>
      let (taken, rest) := stringBody quote cs
      ('\\' :: c :: taken, rest)
  | c :: cs =>
    if c = '\n' then ([], none)
    else if c = quote then ([c], some cs)
    else
      let (taken, rest) := stringBody quote cs
      (c :: taken, rest)

/-- Cuts a source after a string literal that starts with `quote`. -/
def cutString (quote : Char) (cs : List Char) : Cut :=
  match stringBody quote cs with
  | (taken, some rest) =>
    ⟨.token (.string (String.ofList (Text.unescape taken.dropLast))), quote :: taken, rest⟩
  | (taken, none) => ⟨.unreadable, quote :: taken, cs.drop taken.length⟩

/-- The token of an identifier or keyword. -/
def wordToken (word : String) : Token :=
  match Keyword.ofText? word with
  | some k => .keyword k
  | none => .identifier word

/-- Cuts a source after a number. A point makes it a float if a digit follows; an integer that is
no 64-bit number is unreadable. -/
def cutNumber (cs : List Char) : Cut :=
  let whole := cs.takeWhile Char.isDigit
  let rest := cs.dropWhile Char.isDigit
  match rest with
  | '.' :: d :: ds =>
    if d.isDigit then
      let fraction := (d :: ds).takeWhile Char.isDigit
      let taken := whole ++ '.' :: fraction
      ⟨.token (.float ((FloatText.parse? taken).getD 0)), taken, (d :: ds).dropWhile Char.isDigit⟩
    else cutInteger whole rest
  | rest => cutInteger whole rest
where
  /-- The cut after the digits of an integer. -/
  cutInteger (digits rest : List Char) : Cut :=
    match Integer.parse? digits with
    | some n => ⟨.token (.integer n), digits, rest⟩
    | none => ⟨.unreadable, digits, rest⟩

/-- Cuts a source after a symbol of two characters or of one. -/
def cutSymbol (c : Char) (cs : List Char) : Cut :=
  match cs.head?.bind (Symbol.ofPair? c) with
  | some sign => ⟨.token (.symbol sign), c :: cs.take 1, cs.drop 1⟩
  | none =>
    match Symbol.ofChar? c with
    | some sign => ⟨.token (.symbol sign), [c], cs⟩
    | none => ⟨.unreadable, [c], cs⟩

/-- Cuts a source that starts with `c` after its first blank, comment or lexeme. -/
def cut (c : Char) (cs : List Char) : Cut :=
  if isGap c then ⟨.skipped, [c], cs⟩
  else if c = '\n' then ⟨.token .newline, [c], cs⟩
  else if c = '#' then
    ⟨.skipped, c :: cs.takeWhile (· != '\n'), cs.dropWhile (· != '\n')⟩
  else if c = '"' ∨ c = '\'' then cutString c cs
  else if c.isDigit then cutNumber (c :: cs)
  else if startsName c then
    ⟨.token (wordToken (String.ofList (c :: cs.takeWhile continuesName))),
      c :: cs.takeWhile continuesName, cs.dropWhile continuesName⟩
  else cutSymbol c cs

/-- A closed literal is followed by what its body leaves. -/
theorem append_of_stringBody {quote : Char} {cs taken rest : List Char}
    (h : stringBody quote cs = (taken, some rest)) : taken ++ rest = cs := by
  fun_induction stringBody quote cs generalizing taken with
  | case1 => simp at h
  | case2 => simp at h
  | case3 => simp at h
  | case4 c cs hc taken' rest' heq ih =>
    simp only [Prod.mk.injEq] at h
    obtain ⟨rfl, rfl⟩ := h
    simp [ih heq]
  | case5 => simp at h
  | case6 =>
    simp only [Prod.mk.injEq, Option.some.injEq] at h
    obtain ⟨rfl, rfl⟩ := h
    rfl
  | case7 c cs _ _ _ taken' rest' heq ih =>
    simp only [Prod.mk.injEq] at h
    obtain ⟨rfl, rfl⟩ := h
    simp [ih heq]

theorem length_cutString_rest_le (quote : Char) (cs : List Char) :
    (cutString quote cs).rest.length ≤ cs.length := by
  unfold cutString
  split
  · next h =>
    have := congrArg List.length (append_of_stringBody h)
    simp at this ⊢
    omega
  · simp

theorem rest_cutInteger (digits rest : List Char) :
    (cutNumber.cutInteger digits rest).rest = rest := by
  unfold cutNumber.cutInteger
  split <;> rfl

theorem length_cutNumber_rest_le {c : Char} (cs : List Char) (h : c.isDigit) :
    (cutNumber (c :: cs)).rest.length ≤ cs.length := by
  have hdrop : (c :: cs).dropWhile Char.isDigit = cs.dropWhile Char.isDigit := by simp [h]
  have hle := (List.dropWhile_sublist Char.isDigit (l := cs)).length_le
  unfold cutNumber
  simp only [hdrop]
  split
  · next d ds heq =>
    rw [heq] at hle
    split
    · have := (List.dropWhile_sublist Char.isDigit (l := d :: ds)).length_le
      simp only [List.length_cons] at hle this ⊢
      omega
    · rw [rest_cutInteger, heq]
      exact hle
  · rw [rest_cutInteger]
    exact hle

theorem length_cutSymbol_rest_le (c : Char) (cs : List Char) :
    (cutSymbol c cs).rest.length ≤ cs.length := by
  unfold cutSymbol
  split
  · simp
  · split <;> simp

/-- What is left after a cut is shorter than the source. -/
theorem length_cut_rest_le (c : Char) (cs : List Char) : (cut c cs).rest.length ≤ cs.length := by
  unfold cut
  split
  · simp
  split
  · simp
  split
  · exact (List.dropWhile_sublist _).length_le
  split
  · exact length_cutString_rest_le c cs
  split
  · next h => exact length_cutNumber_rest_le cs h
  split
  · exact (List.dropWhile_sublist _).length_le
  · exact length_cutSymbol_rest_le c cs

/-- The lexemes of a source that starts at byte `start` after the character `previous`. -/
def scanFrom (previous : Option Char) (start : Nat) :
    List Char → Except SyntaxError (List Lexeme)
  | [] => .ok []
  | c :: cs =>
    let next := cut c cs
    let stop := start + Text.utf8Length next.taken
    match next.reading with
    | .unreadable => .error ⟨.unexpectedText (String.ofList next.taken), start, stop⟩
    | .skipped => scanFrom next.taken.getLast? stop next.rest
    | .token token => do
      let lexemes ← scanFrom next.taken.getLast? stop next.rest
      return ⟨token, next.taken, start, previous == some ' ' || previous == some '\t'⟩ :: lexemes
termination_by cs => cs.length
decreasing_by
  all_goals exact Nat.lt_succ_of_le (length_cut_rest_le c cs)

/-- The lexemes of a source. -/
def scan (source : List Char) : Except SyntaxError (List Lexeme) := scanFrom none 0 source

end Lexeme

end ScriptShell
