/-!
# Commands of several lines

A line that ends with a colon or leaves a bracket or quote open starts a command of several lines,
which goes on up to the next empty line. Only one bracket or quote is kept open at a time, and what
stands inside it is not looked at.
-/

namespace ScriptShell

namespace Continuation

/-- The character that closes what a character opens. -/
def closer? : Char → Option Char
  | '(' => some ')'
  | '\x7b' => some '\x7d'
  | '[' => some ']'
  | '"' => some '"'
  | '\'' => some '\''
  | _ => none

/-- What closes the bracket or quote that is open after a text, `awaited` being what closes the one
that is open before it. -/
def stillAwaited (awaited : Option Char) : List Char → Option Char
  | [] => awaited
  | c :: cs =>
    match awaited with
    | none => stillAwaited (closer? c) cs
    | some a => stillAwaited (if c = a then none else some a) cs

/-- Whether a text leaves a bracket or quote open. -/
def isUncompleted (line : String) : Bool := (stillAwaited none line.toList).isSome

/-- Whether a line starts a command of several lines. -/
def isNeeded (line : String) : Bool :=
  !line.isEmpty && (line.toList.getLast? == some ':' || isUncompleted line)

/-- The command that a first line and the lines after it make, with the number of those lines it
takes and what is left of them; there is none if they run out. -/
def gather (command : String) : List String → Option (String × Nat × List String)
  | [] => none
  | line :: lines =>
    if line.isEmpty then some (command, 1, lines)
    else (gather (command ++ "\n" ++ line) lines).map fun (whole, n, rest) => (whole, n + 1, rest)

theorem length_rest_of_gather {command whole : String} {lines rest : List String} {n : Nat}
    (h : gather command lines = some (whole, n, rest)) : rest.length ≤ lines.length := by
  induction lines generalizing command n with
  | nil => simp [gather] at h
  | cons line lines ih =>
    simp only [gather] at h
    split at h
    · simp only [Option.some.injEq, Prod.mk.injEq] at h
      simp [← h.2.2]
    · simp only [Option.map_eq_some_iff, Prod.mk.injEq] at h
      obtain ⟨⟨w, m, r⟩, hr, rfl, rfl, rfl⟩ := h
      exact Nat.le_succ_of_le (ih hr)

end Continuation

/-- Reads the command that starts with a line, from the lines after it. -/
def readCommand (first : String) (lines : List String) : Option (String × Nat × List String) :=
  if Continuation.isNeeded first then Continuation.gather first lines
  else some (first, 0, lines)

/-- Reading a command takes lines and adds none. -/
theorem length_rest_of_readCommand {first whole : String} {lines rest : List String} {n : Nat}
    (h : readCommand first lines = some (whole, n, rest)) : rest.length ≤ lines.length := by
  unfold readCommand at h
  split at h
  · exact Continuation.length_rest_of_gather h
  · simp only [Option.some.injEq, Prod.mk.injEq] at h
    simp [← h.2.2]

end ScriptShell
