import ScriptShell.Token.Basic

/-!
# Parsing expressions

A parsing expression is tried on a list of tokens: it reads something from their front, or it fails.
Of two alternatives the second is tried only where the first fails, and a repetition goes on for as
long as it can. A choice that was made is never made anew: what fails behind it does not bring the
other alternative back.

Failures are no ends. An alternative, a repetition or an option that fails is left, and reading goes
on without it. What is known of failures is the place of the one that came furthest, and that is
where a text that cannot be read is at fault.
-/

namespace ScriptShell

namespace Peg

/-- What comes of trying a parsing expression: what was read and the tokens behind it, if it
succeeded, and the number of tokens from the furthest failure to the end. Where nothing failed,
that is the number of tokens that it was tried on. -/
structure Attempt (α : Type) where
  result : Option (α × List Token)
  left : Nat

/-- An attempt behind others that failed with `left` tokens to the end, at the furthest. -/
def Attempt.within {α : Type} (left : Nat) (attempt : Attempt α) : Attempt α :=
  { attempt with left := min left attempt.left }

/-- The same attempt with something made of what was read. -/
def Attempt.map {α β : Type} (f : α → β) (attempt : Attempt α) : Attempt β :=
  { attempt with result := attempt.result.map fun (a, rest) => (f a, rest) }

end Peg

/-- A parsing expression, as what comes of trying it on tokens. -/
abbrev Peg (α : Type) := List Token → Peg.Attempt α

namespace Peg

variable {α β : Type}

/-- Reads nothing. -/
protected def pure (a : α) : Peg α := fun ts => ⟨some (a, ts), ts.length⟩

/-- Reads one thing and then another, which may depend on the first. -/
protected def bind (p : Peg α) (next : α → Peg β) : Peg β := fun ts =>
  match p ts with
  | ⟨none, left⟩ => ⟨none, left⟩
  | ⟨some (a, rest), left⟩ => (next a rest).within left

instance : Monad Peg where
  pure := Peg.pure
  bind := Peg.bind

/-- Reads the first of two things, or the second where that fails. -/
protected def orElse (p : Peg α) (q : Unit → Peg α) : Peg α := fun ts =>
  match p ts with
  | ⟨none, left⟩ => (q () ts).within left
  | attempt => attempt

instance : OrElse (Peg α) where
  orElse := Peg.orElse

/-- Reads one token, if it stands for something. -/
def take (f : Token → Option α) : Peg α
  | [] => ⟨none, 0⟩
  | t :: ts => ⟨(f t).map (·, ts), ts.length + 1⟩

/-- Reads one token of some kind. -/
def one (p : Token → Bool) : Peg Unit := take fun t => if p t then some () else none

/-- Reads nothing where no token is left. -/
def atEnd : Peg Unit := fun ts => ⟨if ts.isEmpty then some ((), ts) else none, ts.length⟩

/-- A parsing expression that uses itself, on fewer tokens than it was tried on. -/
def recursive (body : Peg α → Peg α) : Peg α
  | ts =>
    body (fun us => if us.length < ts.length then recursive body us else ⟨none, us.length⟩) ts
termination_by ts => ts.length

/-- Reads something or nothing. -/
def optional (p : Peg α) : Peg (Option α) := some <$> p <|> pure none

/-- Reads something as often as it stands there. A repetition that reads nothing is left. -/
def many (p : Peg α) : Peg (List α)
  | ts =>
    match p ts with
    | ⟨none, left⟩ => ⟨some ([], ts), left⟩
    | ⟨some (a, rest), left⟩ =>
      if rest.length < ts.length then ((many p rest).map (a :: ·)).within left
      else ⟨some ([], ts), left⟩
termination_by ts => ts.length

/-- Reads what makes something greater, as often as it stands there. -/
def grown (more : Peg (α → α)) (a : α) : Peg α := do
  let others ← many more
  return others.foldl (fun a more => more a) a

/-- Reads at least one thing, with separators between them and an optional one behind the last. -/
def separated1 (separator : Peg Unit) (p : Peg α) : Peg (List α) := do
  let first ← p
  let others ← many <| do
    separator
    p
  let _ ← optional separator
  return first :: others

/-- Reads any number of things with separators, the last one optional. -/
def separated (separator : Peg Unit) (p : Peg α) : Peg (List α) :=
  separated1 separator p <|> pure []

/-- What the tokens are read as, or the number of tokens from the furthest failure to the end. -/
def run (p : Peg α) (ts : List Token) : Except Nat α :=
  match p ts with
  | ⟨some (a, _), _⟩ => .ok a
  | ⟨none, left⟩ => .error left

end Peg

end ScriptShell
