import Mathlib.Data.List.Forall2
import ScriptShell.Session.Interaction

/-!
# The lines of a command

Which lines a command is read from, and what an interaction does with the lines that are left. A
list of lines is empty, or it begins with the lines of a command, or it begins a command that the
end of the lines leaves unfinished, and the interaction tells these apart as it goes.
-/

namespace ScriptShell

/-- The lines that a command is read from: a line that no further ones belong to is a command, and
one that further lines belong to makes one with those up to the first empty line, which is
dropped. -/
inductive Makes : List String → String → Prop where
  | alone {line : String} (ends : Continuation.isNeeded line = false) : Makes [line] line
  | joined {first : String} {more : List String} (goesOn : Continuation.isNeeded first = true)
      (filled : "" ∉ more) :
      Makes (first :: (more ++ [""])) ("\n".intercalate (first :: more))

/-- Lines that begin a command and do not end it. -/
inductive Unfinished : List String → Prop where
  | intro {first : String} {more : List String} (goesOn : Continuation.isNeeded first = true)
      (filled : "" ∉ more) : Unfinished (first :: more)

/-! ### Reading one command -/

namespace Continuation

/-- Lines without an empty one among them end no command. -/
theorem gather_of_filled (command : String) {lines : List String} (h : "" ∉ lines) :
    gather command lines = none := by
  induction lines generalizing command with
  | nil => rfl
  | cons line lines ih =>
    have hline : line.isEmpty = false :=
      String.isEmpty_eq_false_iff.mpr (List.ne_of_not_mem_cons h).symm
    rw [gather, hline, if_neg Bool.false_ne_true, ih _ (List.not_mem_of_not_mem_cons h),
      Option.map_none]

/-- The lines up to the first empty one are put behind a command. -/
theorem gather_of_empty (command : String) {more : List String} (h : "" ∉ more)
    (rest : List String) :
    gather command (more ++ "" :: rest) =
      some ("\n".intercalate (command :: more), more.length + 1, rest) := by
  induction more generalizing command with
  | nil => simp [gather]
  | cons line more ih =>
    have hline : line.isEmpty = false :=
      String.isEmpty_eq_false_iff.mpr (List.ne_of_not_mem_cons h).symm
    rw [List.cons_append, gather, hline, if_neg Bool.false_ne_true,
      ih _ (List.not_mem_of_not_mem_cons h), Option.map_some, String.intercalate_cons_append,
      String.intercalate_cons_cons, List.length_cons]

end Continuation

/-- A command is read from the lines that make it, and the others are left. -/
theorem Makes.readCommand {first command : String} {lines : List String}
    (h : Makes (first :: lines) command) (rest : List String) :
    readCommand first (lines ++ rest) = some (command, lines.length, rest) := by
  unfold ScriptShell.readCommand
  cases h with
  | alone ends =>
    rw [ends]
    rfl
  | @joined first more goesOn filled =>
    rw [if_pos goesOn, List.append_assoc, List.singleton_append,
      Continuation.gather_of_empty _ filled, List.length_append, List.length_singleton]

theorem Makes.exists_cons {command : String} {lines : List String} (h : Makes lines command) :
    ∃ first more, lines = first :: more := by
  cases h <;> exact ⟨_, _, rfl⟩

/-- Which command lines begin with, and what is left of them, is told by reading it. -/
theorem Makes.exists_readCommand {first command : String} {lines taken rest : List String}
    (h : Makes taken command) (hsplit : first :: lines = taken ++ rest) :
    ∃ count, ScriptShell.readCommand first lines = some (command, count, rest) := by
  obtain ⟨first', more, rfl⟩ := h.exists_cons
  rw [List.cons_append] at hsplit
  obtain ⟨rfl, rfl⟩ := List.cons.inj hsplit
  exact ⟨_, h.readCommand rest⟩

/-- Lines begin with those of a command, or they begin a command and do not end it. -/
theorem exists_makes_or_unfinished (first : String) (lines : List String) :
    (∃ taken command rest, first :: lines = taken ++ rest ∧ Makes taken command) ∨
      Unfinished (first :: lines) := by
  cases hneeded : Continuation.isNeeded first with
  | false => exact .inl ⟨[first], first, lines, rfl, .alone hneeded⟩
  | true =>
    by_cases hempty : "" ∈ lines
    · obtain ⟨more, rest, rfl, hfilled⟩ := List.eq_append_cons_of_mem hempty
      exact .inl ⟨_, _, rest, by simp, .joined hneeded hfilled⟩
    · exact .inr (.intro hneeded hempty)

/-! ### An interaction with the lines that are left -/

section Interact

variable {τ : Type} (process : String → τ → Option τ) (isOver : τ → Bool) (state : τ)

theorem interact_nil : interact process isOver state [] = some (state, .noMoreLines) := by
  rw [interact]

/-- A command that lines begin and do not end is not processed. -/
theorem Unfinished.interact {lines : List String} (h : Unfinished lines) :
    interact process isOver state lines = some (state, .insideCommand) := by
  cases h with
  | @intro first more goesOn filled =>
    have hread : readCommand first more = none := by
      rw [ScriptShell.readCommand, if_pos goesOn, Continuation.gather_of_filled _ filled]
    rw [ScriptShell.interact]
    split
    · rfl
    · next hsome =>
      rw [hread] at hsome
      cases hsome

/-- A command that lines begin with is processed, and the interaction goes on with the others. -/
theorem Makes.interact {taken : List String} {command : String} (h : Makes taken command)
    (rest : List String) :
    interact process isOver state (taken ++ rest) =
      (process command state).bind fun state =>
        if isOver state then some (state, .requested)
        else ScriptShell.interact process isOver state rest := by
  obtain ⟨first, more, rfl⟩ := h.exists_cons
  rw [List.cons_append, ScriptShell.interact]
  split
  · next hnone =>
    rw [h.readCommand rest] at hnone
    cases hnone
  · next hread =>
    rw [h.readCommand rest] at hread
    cases hread
    cases process command state <;> rfl

end Interact

end ScriptShell
