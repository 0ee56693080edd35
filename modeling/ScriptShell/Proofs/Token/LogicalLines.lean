import Mathlib.Data.List.Induction
import ScriptShell.Proofs.Script.Brackets
import ScriptShell.Proofs.Token.Joined

/-!
# Logical lines

A logical line begins with the first lexeme of a source and with every lexeme that stands behind a
line feed outside brackets, unless it is a line feed itself. Here the lines of a source, their
columns and the blocks that are open on them are told from the lexemes alone, and the layout is said
as steps from state to state, one for each lexeme.
-/

namespace ScriptShell.Layout

/-! ### Blocks -/

/-- The columns of the blocks that are open on a line at column `column`, innermost first, if
`blocks` are open before it. -/
def enter (blocks : List Nat) (column : Nat) : List Nat := column :: blocks.filter (· < column)

/-- The columns of the blocks that are open on the last of the lines at these columns. -/
def openBlocks (columns : List Nat) : List Nat := columns.foldl enter []

theorem openBlocks_concat (columns : List Nat) (column : Nat) :
    openBlocks (columns ++ [column]) = enter (openBlocks columns) column := by
  simp [openBlocks]

theorem pairwise_enter {blocks : List Nat} (h : blocks.Pairwise (· > ·)) (column : Nat) :
    (enter blocks column).Pairwise (· > ·) := by
  refine List.pairwise_cons.mpr ⟨fun c hc => ?_, h.filter _⟩
  simpa using (List.mem_filter.mp hc).2

/-- Blocks are further to the right the deeper they are nested. -/
theorem pairwise_openBlocks (columns : List Nat) : (openBlocks columns).Pairwise (· > ·) := by
  induction columns using List.reverseRecOn with
  | nil => exact .nil
  | append_singleton columns column ih =>
    rw [openBlocks_concat]
    exact pairwise_enter ih column

/-- A line is out of line that is further to the left than the line before it and in line with no
block around that. -/
def OutOfLine (blocks : List Nat) (column : Nat) : Prop :=
  ∃ top enclosing, blocks = top :: enclosing ∧ column < top ∧ column ∉ enclosing

section Sorted

variable {blocks : List Nat} (hsorted : blocks.Pairwise (· > ·)) {column : Nat}
include hsorted

theorem closeTo_eq_none_iff : closeTo column blocks = none ↔ column ∉ blocks := by
  induction blocks with
  | nil => simp [closeTo]
  | cons top below ih =>
    obtain ⟨htop, hbelow⟩ := List.pairwise_cons.mp hsorted
    rw [closeTo, List.mem_cons, not_or]
    split
    · next hleft => rw [Option.map_eq_none_iff, ih hbelow, and_iff_right (Nat.ne_of_lt hleft)]
    · split
      · next heq => simp [heq]
      · next hleft hne =>
        refine iff_of_true rfl ⟨fun heq => hne heq.symm, fun hmem => ?_⟩
        have := htop column hmem
        omega

/-- Closing blocks leaves the block of the line, and those that the line is in. -/
theorem closeTo_eq_enter {n : Nat} {left : List Nat} (h : closeTo column blocks = some (n, left)) :
    left = enter blocks column ∧ n + left.length = blocks.length := by
  induction blocks generalizing n left with
  | nil => cases h
  | cons top below ih =>
    obtain ⟨htop, hbelow⟩ := List.pairwise_cons.mp hsorted
    rw [closeTo] at h
    split at h
    · next hleft =>
      obtain ⟨⟨m, left'⟩, hclose, heq⟩ := Option.map_eq_some_iff.mp h
      cases heq
      obtain ⟨rfl, hlength⟩ := ih hbelow hclose
      refine ⟨?_, by rw [List.length_cons, ← hlength]; omega⟩
      rw [enter, enter, List.filter_cons_of_neg (by simpa using Nat.le_of_lt hleft)]
    · split at h
      · next heq =>
        subst heq
        cases h
        have hall : below.filter (· < top) = below :=
          List.filter_eq_self.mpr fun c hc => by simpa using htop c hc
        exact ⟨by simp [enter, hall], by simp⟩
      · cases h

/-- A line is entered unless it is out of line. -/
theorem enterLine_eq_none_iff : enterLine column blocks = none ↔ OutOfLine blocks column := by
  unfold OutOfLine
  cases blocks with
  | nil => simp [enterLine]
  | cons top below =>
    rw [enterLine]
    split
    · next hright =>
      refine iff_of_false (by simp) ?_
      rintro ⟨_, _, heq, hleft, _⟩
      cases heq
      omega
    · next hright =>
      rw [Option.map_eq_none_iff, closeTo_eq_none_iff hsorted, List.mem_cons, not_or]
      constructor
      · rintro ⟨hne, hbelow⟩
        exact ⟨top, below, rfl, by omega, hbelow⟩
      · rintro ⟨_, _, heq, hleft, hbelow⟩
        cases heq
        exact ⟨Nat.ne_of_lt hleft, hbelow⟩

/-- Entering a line opens one block in those that are open already, or closes blocks. -/
theorem of_enterLine {tokens : List Token} {left : List Nat}
    (h : enterLine column blocks = some (tokens, left)) :
    left = enter blocks column ∧
      ((tokens = [.indent] ∧ blocks ≠ [] ∧ left.length = blocks.length + 1) ∨
        ∃ n, tokens = List.replicate n .dedent ∧ n + (left.length - 1) = blocks.length - 1) := by
  cases blocks with
  | nil =>
    cases h
    exact ⟨rfl, .inr ⟨0, rfl, rfl⟩⟩
  | cons top below =>
    rw [enterLine] at h
    split at h
    · next hright =>
      cases h
      have hall : (top :: below).filter (· < column) = top :: below := by
        refine List.filter_eq_self.mpr fun c hc => ?_
        rcases List.mem_cons.mp hc with rfl | hc
        · simpa using hright
        · have := (List.pairwise_cons.mp hsorted).1 c hc
          simp
          omega
      exact ⟨by rw [enter, hall], .inl ⟨rfl, List.cons_ne_nil _ _, rfl⟩⟩
    · obtain ⟨⟨n, left'⟩, hclose, heq⟩ := Option.map_eq_some_iff.mp h
      cases heq
      obtain ⟨rfl, hlength⟩ := closeTo_eq_enter hsorted hclose
      refine ⟨rfl, .inr ⟨n, rfl, ?_⟩⟩
      rw [enter, List.length_cons] at hlength ⊢
      omega

end Sorted

/-! ### Lines -/

/-- Whether a logical line has yet to begin behind lexemes. -/
def lineIsOver (before : List Lexeme) : Bool :=
  match before.getLast? with
  | none => true
  | some l =>
    match l.token with
    | .newline => depthBehind 0 (before.map Lexeme.token) == 0
    | _ => false

/-- Whether a logical line begins with a lexeme that stands behind others. -/
def beginsLine (before : List Lexeme) (l : Lexeme) : Bool :=
  match l.token with
  | .newline => false
  | _ => lineIsOver before

/-- The byte behind lexemes. -/
def stopOf (before : List Lexeme) : Nat := (before.getLast?.map Lexeme.stop).getD 0

/-- The column of a line that begins with a lexeme behind others: how far it stands behind the line
feed. -/
def column (before : List Lexeme) (l : Lexeme) : Nat := l.start - stopOf before

/-- The columns of the logical lines that begin in lexemes which stand behind others. -/
def columnsBehind (before : List Lexeme) : List Lexeme → List Nat
  | [] => []
  | l :: ls =>
    (if beginsLine before l then [column before l] else []) ++ columnsBehind (before ++ [l]) ls

/-- The columns of the logical lines of lexemes. -/
def lineColumns (ls : List Lexeme) : List Nat := columnsBehind [] ls

theorem columnsBehind_concat (before ls : List Lexeme) (l : Lexeme) :
    columnsBehind before (ls ++ [l]) = columnsBehind before ls ++
      if beginsLine (before ++ ls) l then [column (before ++ ls) l] else [] := by
  induction ls generalizing before with
  | nil => simp [columnsBehind]
  | cons m ls ih => simp [columnsBehind, ih]

theorem lineColumns_concat (ls : List Lexeme) (l : Lexeme) :
    lineColumns (ls ++ [l]) = lineColumns ls ++ if beginsLine ls l then [column ls l] else [] :=
  columnsBehind_concat [] ls l

theorem stopOf_concat (before : List Lexeme) (l : Lexeme) : stopOf (before ++ [l]) = l.stop := by
  simp [stopOf]

theorem lineIsOver_feed {l : Lexeme} (h : l.token = .newline) (before : List Lexeme) :
    lineIsOver (before ++ [l]) = (depthBehind 0 (before.map Lexeme.token) == 0) := by
  simp [lineIsOver, h, depthBehind, depthAfter, Token.opensBracket, Token.closesBracket]

theorem lineIsOver_token {l : Lexeme} (h : l.token ≠ .newline) (before : List Lexeme) :
    lineIsOver (before ++ [l]) = false := by
  unfold lineIsOver
  rw [List.getLast?_concat]
  dsimp only
  split
  · next hfeed => exact absurd hfeed h
  · rfl

theorem beginsLine_feed {l : Lexeme} (h : l.token = .newline) (before : List Lexeme) :
    beginsLine before l = false := by
  simp [beginsLine, h]

theorem beginsLine_token {l : Lexeme} (h : l.token ≠ .newline) (before : List Lexeme) :
    beginsLine before l = lineIsOver before := by
  unfold beginsLine
  split
  · next hfeed => exact absurd hfeed h
  · rfl

/-- Between lines no bracket is open. -/
theorem depthBehind_of_lineIsOver {before : List Lexeme} (h : lineIsOver before = true) :
    depthBehind 0 (before.map Lexeme.token) = 0 := by
  unfold lineIsOver at h
  split at h
  · next hnone =>
    rw [List.getLast?_eq_none_iff.mp hnone]
    rfl
  · split at h
    · simpa using h
    · cases h

/-- A logical line ends with a line feed. -/
theorem newline_of_lineIsOver {before : List Lexeme} (h : lineIsOver before = true) {l : Lexeme}
    (hl : before.getLast? = some l) : l.token = .newline := by
  rw [lineIsOver, hl] at h
  dsimp only at h
  split at h
  · assumption
  · cases h

/-! ### Steps -/

/-- The tokens that one lexeme leaves, and the state behind it. -/
inductive Step (s : State) (l : Lexeme) : List PlacedToken → State → Prop
  | inBrackets (isFeed : l.token = .newline) (inside : s.depth ≠ 0) : Step s l [] s
  | emptyLine (isFeed : l.token = .newline) (outside : s.depth = 0)
      (isEmpty : s.lineIsEmpty = true) : Step s l [] { s with lineStart := l.stop }
  | lineEnd (isFeed : l.token = .newline) (outside : s.depth = 0)
      (holdsToken : s.lineIsEmpty = false) :
      Step s l [⟨.newline, l.start, l.stop⟩]
        { s with lineStart := l.stop, lineIsEmpty := true, lastStop := l.stop }
  | first (noFeed : l.token ≠ .newline) (isEmpty : s.lineIsEmpty = true) {blocks : List Token}
      {columns : List Nat}
      (enters : enterLine (l.start - s.lineStart) s.columns = some (blocks, columns)) :
      Step s l (blocks.map (⟨·, l.start, l.start⟩) ++ [⟨l.token, l.start, l.stop⟩])
        ⟨columns, depthAfter s.depth l.token, s.lineStart, false, l.stop⟩
  | onLine (noFeed : l.token ≠ .newline) (holdsToken : s.lineIsEmpty = false) :
      Step s l [⟨l.token, l.start, l.stop⟩]
        { s with depth := depthAfter s.depth l.token, lastStop := l.stop }

/-- The tokens that lexemes leave, and the state behind them. -/
inductive Steps : State → List Lexeme → List PlacedToken → State → Prop
  | nil {s : State} : Steps s [] [] s
  | cons {s s' s'' : State} {l : Lexeme} {ls : List Lexeme} {tokens tokens' : List PlacedToken} :
      Step s l tokens s' → Steps s' ls tokens' s'' → Steps s (l :: ls) (tokens ++ tokens') s''

variable {s s' : State} {l : Lexeme} {ls us vs : List Lexeme} {tokens : List PlacedToken}

/-- A lexeme is the first of a line that is out of line. -/
structure Stuck (s : State) (l : Lexeme) : Prop where
  noFeed : l.token ≠ .newline
  isEmpty : s.lineIsEmpty = true
  misplaced : enterLine (l.start - s.lineStart) s.columns = none

/-- What a run does with a lexeme that is no line feed. -/
theorem run_token (h : l.token ≠ .newline) (s : State) (ls : List Lexeme) :
    run s (l :: ls) =
      if s.lineIsEmpty then
        match enterLine (l.start - s.lineStart) s.columns with
        | none => .error ⟨.unindent, l.start, l.start⟩
        | some (blocks, columns) => do
          let tokens ← run ⟨columns, depthAfter s.depth l.token, s.lineStart, false, l.stop⟩ ls
          return blocks.map (⟨·, l.start, l.start⟩) ++ ⟨l.token, l.start, l.stop⟩ :: tokens
      else do
        let tokens ← run { s with depth := depthAfter s.depth l.token, lastStop := l.stop } ls
        return ⟨l.token, l.start, l.stop⟩ :: tokens := by
  rw [run]
  split
  · next hfeed => exact absurd hfeed h
  · rfl

/-- A run takes a step and goes on, unless it is stuck. -/
theorem run_cons (s : State) (l : Lexeme) :
    (∃ tokens s', Step s l tokens s' ∧ ∀ ls, run s (l :: ls) = (run s' ls).map (tokens ++ ·)) ∨
      (Stuck s l ∧ ∀ ls, run s (l :: ls) = .error ⟨.unindent, l.start, l.start⟩) := by
  have hmap (r : Except SyntaxError (List PlacedToken)) : r = r.map ([] ++ ·) := by cases r <;> rfl
  by_cases hfeed : l.token = .newline
  · left
    by_cases hdepth : s.depth = 0
    · cases hline : s.lineIsEmpty with
      | true =>
        refine ⟨[], _, .emptyLine hfeed hdepth hline, fun ls => ?_⟩
        rw [run, hfeed]
        dsimp only
        rw [if_pos hdepth, hline, if_pos rfl, ← hmap]
      | false =>
        refine ⟨_, _, .lineEnd hfeed hdepth hline, fun ls => ?_⟩
        rw [run, hfeed]
        dsimp only
        rw [if_pos hdepth, hline, if_neg Bool.false_ne_true]
        rfl
    · refine ⟨[], s, .inBrackets hfeed hdepth, fun ls => ?_⟩
      rw [run, hfeed]
      dsimp only
      rw [if_neg hdepth, ← hmap]
  · cases hline : s.lineIsEmpty with
    | false =>
      refine .inl ⟨_, _, .onLine hfeed hline, fun ls => ?_⟩
      rw [run_token hfeed, hline, if_neg Bool.false_ne_true]
      rfl
    | true =>
      cases henter : enterLine (l.start - s.lineStart) s.columns with
      | none =>
        refine .inr ⟨⟨hfeed, hline, henter⟩, fun ls => ?_⟩
        rw [run_token hfeed, if_pos hline, henter]
      | some entered =>
        refine .inl ⟨_, _, .first hfeed hline henter, fun ls => ?_⟩
        rw [run_token hfeed, if_pos hline, henter]
        simp only [List.append_assoc, List.singleton_append]
        rfl

/-- A run that succeeds takes a step for each lexeme and then closes what is open. -/
theorem steps_of_run_eq_ok (h : run s ls = .ok tokens) :
    ∃ tokens' s', Steps s ls tokens' s' ∧ tokens = tokens' ++ closing s' := by
  induction ls generalizing s tokens with
  | nil =>
    cases h
    exact ⟨[], s, .nil, rfl⟩
  | cons l ls ih =>
    rcases run_cons s l with ⟨front, s', hstep, hrun⟩ | ⟨_, hrun⟩
    · rw [hrun] at h
      cases hrest : run s' ls with
      | error e =>
        rw [hrest] at h
        cases h
      | ok rest =>
        rw [hrest] at h
        cases h
        obtain ⟨tokens', s'', hsteps, rfl⟩ := ih hrest
        exact ⟨front ++ tokens', s'', .cons hstep hsteps, (List.append_assoc ..).symm⟩
    · rw [hrun] at h
      cases h

/-- A run that fails takes steps up to a lexeme that it is stuck at. -/
theorem stuck_of_run_eq_error {e : SyntaxError} (h : run s ls = .error e) :
    ∃ us l vs tokens s', ls = us ++ l :: vs ∧ Steps s us tokens s' ∧ Stuck s' l ∧
      e = ⟨.unindent, l.start, l.start⟩ := by
  induction ls generalizing s with
  | nil => cases h
  | cons l ls ih =>
    rcases run_cons s l with ⟨front, s', hstep, hrun⟩ | ⟨hstuck, hrun⟩
    · rw [hrun] at h
      cases hrest : run s' ls with
      | error e' =>
        rw [hrest] at h
        cases h
        obtain ⟨us, m, vs, tokens, s'', rfl, hsteps, hstuck, rfl⟩ := ih hrest
        exact ⟨l :: us, m, vs, _, s'', rfl, .cons hstep hsteps, hstuck, rfl⟩
      | ok rest =>
        rw [hrest] at h
        cases h
    · rw [hrun] at h
      cases h
      exact ⟨[], l, ls, [], s, rfl, .nil, hstuck, rfl⟩

/-- Steps over lexemes and then others. -/
theorem Steps.split (h : Steps s (us ++ vs) tokens s') :
    ∃ front back middle, tokens = front ++ back ∧ Steps s us front middle ∧
      Steps middle vs back s' := by
  induction us generalizing s tokens with
  | nil => exact ⟨[], tokens, s, rfl, .nil, h⟩
  | cons u us ih =>
    cases h with
    | cons hstep hrest =>
      obtain ⟨front, back, middle, rfl, hfront, hback⟩ := ih hrest
      exact ⟨_, back, middle, (List.append_assoc ..).symm, .cons hstep hfront, hback⟩

end ScriptShell.Layout
