import ScriptShell.Proofs.Token.OneLine

/-!
# Tokens apart from places

Places matter to the tokens of a source in two ways only: whether lexemes follow each other without
a gap, and how far the first lexeme of a line stands from its start. Both are told by the number of
bytes between a lexeme and the one before it. Here the passes over a source are said with these
gaps in place of places, and are shown to leave the same tokens.
-/

namespace ScriptShell

/-- A lexeme apart from its place: `gap` is the number of bytes between it and the one before it. -/
structure Spaced where
  token : Token
  text : List Char
  gap : Nat
  afterBlank : Bool

namespace Spaced

/-- Lexemes at their places, behind byte `stop`. -/
def placed (stop : Nat) : List Spaced → List Lexeme
  | [] => []
  | l :: ls =>
    ⟨l.token, l.text, stop + l.gap, l.afterBlank⟩ ::
      placed (stop + l.gap + Text.utf8Length l.text) ls

theorem map_token_placed (stop : Nat) (ls : List Spaced) :
    (placed stop ls).map Lexeme.token = ls.map token := by
  induction ls generalizing stop with
  | nil => rfl
  | cons l ls ih => rw [placed, List.map_cons, List.map_cons, ih]

/-! ### Lexemes -/

/-- The lexemes of a text that stands behind the character `previous` and `gap` bytes behind the
last lexeme. -/
def scan (previous : Option Char) (gap : Nat) : List Char → Option (List Spaced)
  | [] => some []
  | c :: cs =>
    match (Lexeme.cut c cs).reading with
    | .unreadable => none
    | .skipped =>
      scan (Lexeme.cut c cs).taken.getLast? (gap + Text.utf8Length (Lexeme.cut c cs).taken)
        (Lexeme.cut c cs).rest
    | .token token =>
      (scan (Lexeme.cut c cs).taken.getLast? 0 (Lexeme.cut c cs).rest).map
        (⟨token, (Lexeme.cut c cs).taken, gap, previous == some ' ' || previous == some '\t'⟩ :: ·)
termination_by cs => cs.length
decreasing_by
  all_goals exact Nat.lt_succ_of_le (Lexeme.length_cut_rest_le c cs)

theorem scan_skipped {c : Char} {cs : List Char} (h : (Lexeme.cut c cs).reading = .skipped)
    (previous : Option Char) (gap : Nat) :
    scan previous gap (c :: cs) = scan (Lexeme.cut c cs).taken.getLast?
      (gap + Text.utf8Length (Lexeme.cut c cs).taken) (Lexeme.cut c cs).rest := by
  rw [scan]
  simp only [h]

theorem scan_token {c : Char} {cs : List Char} {t : Token}
    (h : (Lexeme.cut c cs).reading = .token t) (previous : Option Char) (gap : Nat) :
    scan previous gap (c :: cs) =
      (scan (Lexeme.cut c cs).taken.getLast? 0 (Lexeme.cut c cs).rest).map
        (⟨t, (Lexeme.cut c cs).taken, gap,
          previous == some ' ' || previous == some '\t'⟩ :: ·) := by
  rw [scan]
  simp only [h]

/-- The lexemes of a text are those that it has apart from their places, at their places. -/
theorem scanFrom_eq (previous : Option Char) (stop gap : Nat) (cs : List Char) :
    (Lexeme.scanFrom previous (stop + gap) cs).toOption =
      (scan previous gap cs).map (placed stop) := by
  fun_induction scan previous gap cs generalizing stop with
  | case1 =>
    rw [Lexeme.scanFrom]
    rfl
  | case2 previous gap c cs hread =>
    rw [Lexeme.scanFrom, hread]
    rfl
  | case3 previous gap c cs hread ih =>
    rw [Lexeme.scanFrom, hread]
    dsimp only
    rw [Nat.add_assoc, ih]
  | case4 previous gap c cs token hread ih =>
    have hrest := ih (stop + gap + Text.utf8Length (Lexeme.cut c cs).taken)
    rw [Nat.add_zero] at hrest
    rw [Lexeme.scanFrom, hread]
    dsimp only
    cases hscan : Lexeme.scanFrom (Lexeme.cut c cs).taken.getLast?
        (stop + gap + Text.utf8Length (Lexeme.cut c cs).taken) (Lexeme.cut c cs).rest with
    | error e =>
      rw [hscan] at hrest
      rw [Option.map_eq_none_iff.mp hrest.symm]
      rfl
    | ok ls =>
      rw [hscan] at hrest
      obtain ⟨us, hus, rfl⟩ := Option.map_eq_some_iff.mp hrest.symm
      rw [hus]
      rfl

/-! ### Flags -/

/-- Whether a flag may start with these two lexemes when it follows an operand. -/
def startsFlag (minus next : Spaced) : Bool :=
  match minus.token with
  | .symbol .minus =>
    minus.afterBlank && next.gap == 0 &&
      (next.token.isWord || match next.token with
        | .symbol .minus => true
        | _ => false)
  | _ => false

/-- The text of the lexemes that follow each other without a gap and can join a flag. -/
def flagTail : List Spaced → List Char
  | [] => []
  | l :: ls => if l.gap == 0 && Flag.joins l.token then l.text ++ flagTail ls else []

/-- The lexemes after those that join a flag. -/
def afterFlag : List Spaced → List Spaced
  | [] => []
  | l :: ls => if l.gap == 0 && Flag.joins l.token then afterFlag ls else l :: ls

theorem length_afterFlag_le (ls : List Spaced) : (afterFlag ls).length ≤ ls.length := by
  induction ls with
  | nil => exact Nat.le_refl 0
  | cons l ls ih =>
    unfold afterFlag
    split
    · exact Nat.le_succ_of_le ih
    · exact Nat.le_refl _

/-- The flag that starts with a minus sign. -/
def flag (minus : Spaced) (ls : List Spaced) : Spaced :=
  let text := minus.text ++ flagTail ls
  { minus with token := .flag (String.ofList text), text := text }

/-- Lexemes with their flags made whole; `afterOperand` says whether an operand ends right before
them. -/
def fold (afterOperand : Bool) : List Spaced → List Spaced
  | l :: next :: ls =>
    if afterOperand && startsFlag l next then
      flag l (next :: ls) :: fold false (afterFlag (next :: ls))
    else l :: fold l.token.endsOperand (next :: ls)
  | ls => ls
termination_by ls => ls.length
decreasing_by
  · exact Nat.lt_succ_of_le (length_afterFlag_le _)
  · simp

theorem add_beq_self (stop gap : Nat) : (stop + gap == stop) = (gap == 0) := by
  rw [Bool.eq_iff_iff, beq_iff_eq, beq_iff_eq]
  omega

theorem tail_placed (stop : Nat) (ls : List Spaced) :
    Flag.tail stop (placed stop ls) = flagTail ls := by
  induction ls generalizing stop with
  | nil => rfl
  | cons l ls ih =>
    have hstop : Lexeme.stop ⟨l.token, l.text, stop + l.gap, l.afterBlank⟩ =
        stop + l.gap + Text.utf8Length l.text := rfl
    rw [placed, Flag.tail, flagTail, hstop, ih]
    simp only [add_beq_self]

theorem afterTail_placed (stop : Nat) (ls : List Spaced) :
    Flag.afterTail stop (placed stop ls) =
      placed (stop + Text.utf8Length (flagTail ls)) (afterFlag ls) := by
  induction ls generalizing stop with
  | nil => rfl
  | cons l ls ih =>
    have hstop : Lexeme.stop ⟨l.token, l.text, stop + l.gap, l.afterBlank⟩ =
        stop + l.gap + Text.utf8Length l.text := rfl
    rw [placed, Flag.afterTail, flagTail, afterFlag, hstop, ih]
    simp only [add_beq_self]
    split
    · next hjoins =>
      have hgap : l.gap = 0 := beq_iff_eq.mp (Bool.and_eq_true_iff.mp hjoins).1
      rw [hgap, Text.utf8Length_append, Nat.add_zero, Nat.add_assoc]
    · rfl

theorem startsWith_placed (stop : Nat) (l next : Spaced) :
    Flag.startsWith ⟨l.token, l.text, stop + l.gap, l.afterBlank⟩
      ⟨next.token, next.text, stop + l.gap + Text.utf8Length l.text + next.gap,
        next.afterBlank⟩ = startsFlag l next := by
  have hstop : Lexeme.stop ⟨l.token, l.text, stop + l.gap, l.afterBlank⟩ =
      stop + l.gap + Text.utf8Length l.text := rfl
  unfold Flag.startsWith
  rw [hstop, add_beq_self]
  rfl

theorem foldFrom_placed (afterOperand : Bool) (stop : Nat) (ls : List Spaced) :
    Flag.foldFrom afterOperand (placed stop ls) = placed stop (fold afterOperand ls) := by
  fun_induction fold afterOperand ls generalizing stop with
  | case1 afterOperand l next ls hstarts ih =>
    rw [placed, placed, Flag.foldFrom, startsWith_placed, if_pos hstarts, ← placed]
    have hstop : Lexeme.stop ⟨l.token, l.text, stop + l.gap, l.afterBlank⟩ =
        stop + l.gap + Text.utf8Length l.text := rfl
    rw [hstop, afterTail_placed, ih, Flag.ofMinus, hstop, tail_placed, placed, flag]
    simp only [Text.utf8Length_append, Nat.add_assoc]
  | case2 afterOperand l next ls hstarts ih =>
    rw [placed, placed, Flag.foldFrom, startsWith_placed, if_neg hstarts, ← placed, ih, placed]
  | case3 afterOperand ls hshort =>
    rcases ls with _ | ⟨l, _ | ⟨next, ls⟩⟩
    · simp only [placed, Flag.foldFrom]
    · simp only [placed, Flag.foldFrom]
    · exact absurd rfl (hshort l next ls)

/-! ### Layout -/

/-- The newline that ends a line, unless the line is empty. -/
def lineEnd (lineIsEmpty : Bool) : List Token := if lineIsEmpty then [] else [.newline]

theorem map_lineEnd_true (ts : Option (List Token)) : ts.map (lineEnd true ++ ·) = ts :=
  Option.map_id'

/-- The tokens of lexemes, from a state of the layout on: the columns of the enclosing blocks, the
open brackets, and whether the line is empty so far. -/
def laid (columns : List Nat) (depth : Nat) (lineIsEmpty : Bool) :
    List Spaced → Option (List Token)
  | [] => some (lineEnd lineIsEmpty ++ List.replicate (columns.length - 1) .dedent)
  | l :: ls =>
    match l.token with
    | .newline =>
      if depth = 0 then (laid columns 0 true ls).map (lineEnd lineIsEmpty ++ ·)
      else laid columns depth lineIsEmpty ls
    | token =>
      let entered :=
        if lineIsEmpty then Layout.enterLine l.gap columns else some ([], columns)
      entered.bind fun (blocks, columns) =>
        (laid columns (Layout.depthAfter depth token) false ls).map (blocks ++ token :: ·)

theorem laid_feed {l : Spaced} (h : l.token = .newline) (columns : List Nat) (depth : Nat)
    (lineIsEmpty : Bool) (ls : List Spaced) :
    laid columns depth lineIsEmpty (l :: ls) =
      if depth = 0 then (laid columns 0 true ls).map (lineEnd lineIsEmpty ++ ·)
      else laid columns depth lineIsEmpty ls := by
  rw [laid, h]

theorem laid_token {l : Spaced} (h : l.token ≠ .newline) (columns : List Nat) (depth : Nat)
    (lineIsEmpty : Bool) (ls : List Spaced) :
    laid columns depth lineIsEmpty (l :: ls) =
      (if lineIsEmpty then Layout.enterLine l.gap columns else some ([], columns)).bind
        fun (blocks, columns) => (laid columns (Layout.depthAfter depth l.token) false ls).map
          (blocks ++ l.token :: ·) := by
  rw [laid]
  split
  · next hfeed => exact absurd hfeed h
  · rfl

theorem toOption_bind_pure {ε α β : Type} (r : Except ε α) (f : α → β) :
    (r >>= fun a => pure (f a)).toOption = r.toOption.map f := by
  cases r <;> rfl

/-- The tokens that lexemes are laid out to, if they are. -/
def runTokens? (s : Layout.State) (ls : List Lexeme) : Option (List Token) :=
  (Layout.run s ls).toOption.map (List.map PlacedToken.token)

/-- What a line feed leaves. -/
theorem runTokens?_feed {l : Lexeme} (h : l.token = .newline) (s : Layout.State)
    (ls : List Lexeme) : ∃ lastStop, runTokens? s (l :: ls) =
      if s.depth = 0 then
        (runTokens? ⟨s.columns, 0, l.stop, true, lastStop⟩ ls).map (lineEnd s.lineIsEmpty ++ ·)
      else runTokens? s ls := by
  unfold runTokens?
  rw [Layout.run, h]
  dsimp only
  by_cases hdepth : s.depth = 0
  · cases hline : s.lineIsEmpty with
    | true =>
      refine ⟨s.lastStop, ?_⟩
      rw [if_pos hdepth, if_pos hdepth, if_pos rfl, hdepth, map_lineEnd_true]
    | false =>
      refine ⟨l.stop, ?_⟩
      rw [if_pos hdepth, if_pos hdepth, if_neg Bool.false_ne_true, toOption_bind_pure, hdepth]
      simp only [Option.map_map]
      rfl
  · exact ⟨0, by rw [if_neg hdepth, if_neg hdepth]⟩

/-- What a lexeme leaves that is no line feed. -/
theorem runTokens?_token {l : Lexeme} (h : l.token ≠ .newline) (s : Layout.State)
    (ls : List Lexeme) : runTokens? s (l :: ls) =
      (if s.lineIsEmpty then Layout.enterLine (l.start - s.lineStart) s.columns
        else some ([], s.columns)).bind fun (blocks, columns) =>
          (runTokens? ⟨columns, Layout.depthAfter s.depth l.token, s.lineStart, false, l.stop⟩
            ls).map (blocks ++ l.token :: ·) := by
  unfold runTokens?
  rw [Layout.run]
  split
  · next hfeed => exact absurd hfeed h
  dsimp only
  split
  · cases Layout.enterLine (l.start - s.lineStart) s.columns with
    | none => rfl
    | some entered =>
      dsimp only
      rw [toOption_bind_pure, Option.bind_some]
      simp only [Option.map_map]
      congr 1
      funext ts
      simp [Function.comp_def]
  · next hline =>
    obtain ⟨columns, depth, lineStart, lineIsEmpty, lastStop⟩ := s
    obtain rfl : lineIsEmpty = false := by simpa using hline
    rw [toOption_bind_pure, Option.bind_some]
    simp only [Option.map_map]
    rfl

/-- Where a line is empty so far, it starts right behind the last lexeme and in no bracket. -/
theorem runTokens?_placed {s : Layout.State} {stop : Nat}
    (hempty : s.lineIsEmpty = true → s.lineStart = stop ∧ s.depth = 0) (ls : List Spaced) :
    runTokens? s (placed stop ls) = laid s.columns s.depth s.lineIsEmpty ls := by
  induction ls generalizing s stop with
  | nil =>
    rw [placed, runTokens?, Layout.run, laid, lineEnd, ← Layout.closing_tokens]
    rfl
  | cons l ls ih =>
    rw [placed]
    let stop' := stop + l.gap + Text.utf8Length l.text
    by_cases hfeed : l.token = .newline
    · obtain ⟨lastStop, hrun⟩ := runTokens?_feed (l := ⟨l.token, l.text, stop + l.gap, _⟩) hfeed s
        (placed stop' ls)
      rw [hrun, laid_feed hfeed]
      split
      · have hnext := @ih ⟨s.columns, 0, stop', true, lastStop⟩ stop' fun _ => ⟨rfl, rfl⟩
        exact congrArg (Option.map (lineEnd s.lineIsEmpty ++ ·)) hnext
      · next hdepth => exact ih fun hline => absurd (hempty hline).2 hdepth
    · rw [runTokens?_token hfeed, laid_token hfeed]
      have henter : (if s.lineIsEmpty then Layout.enterLine (stop + l.gap - s.lineStart) s.columns
          else some ([], s.columns)) =
          if s.lineIsEmpty then Layout.enterLine l.gap s.columns else some ([], s.columns) := by
        split
        · next hline => rw [(hempty hline).1, Nat.add_sub_cancel_left]
        · rfl
      rw [henter]
      refine congrArg _ (funext fun entered => ?_)
      obtain ⟨blocks, columns⟩ := entered
      have hnext := @ih ⟨columns, Layout.depthAfter s.depth l.token, s.lineStart, false, stop'⟩
        stop' Bool.noConfusion
      exact congrArg (Option.map (blocks ++ l.token :: ·)) hnext

/-- The layout leaves the content of lexemes. -/
theorem content_laid {us : List Spaced} {ts : List Token} (h : laid [] 0 true us = some ts) :
    Token.content ts = Token.content (us.map token) := by
  have hrun := @runTokens?_placed .initial 0 (fun _ => ⟨rfl, rfl⟩) us
  obtain ⟨tokens, htokens, rfl⟩ := Option.map_eq_some_iff.mp (hrun.trans h)
  cases hlayout : Layout.run .initial (placed 0 us) with
  | error e =>
    rw [hlayout] at htokens
    cases htokens
  | ok tokens' =>
    rw [hlayout] at htokens
    cases htokens
    rw [Layout.content_of_run hlayout, map_token_placed]

end Spaced

/-- The tokens of a source apart from places, if it has any. -/
def tokens? (source : String) : Option (List Token) :=
  (Spaced.scan none 0 source.toList).bind fun ls => Spaced.laid [] 0 true (Spaced.fold false ls)

/-- The tokens of a source are those that it has apart from places. -/
theorem tokens?_eq (source : String) :
    (tokenize source).toOption.map (List.map PlacedToken.token) = tokens? source := by
  have hscan := Spaced.scanFrom_eq none 0 0 source.toList
  unfold tokens? tokenize Lexeme.scan
  rw [Nat.add_zero] at hscan
  cases hls : Lexeme.scanFrom none 0 source.toList with
  | error e =>
    rw [hls] at hscan
    rw [Option.map_eq_none_iff.mp hscan.symm]
    rfl
  | ok ls =>
    rw [hls] at hscan
    obtain ⟨us, hus, rfl⟩ := Option.map_eq_some_iff.mp hscan.symm
    have hrun := @Spaced.runTokens?_placed .initial 0 (fun _ => ⟨rfl, rfl⟩) (Spaced.fold false us)
    rw [hus, Option.bind_some]
    refine Eq.trans ?_ hrun
    rw [← Spaced.foldFrom_placed]
    rfl

/-- A reader reads a source when it reads its tokens. -/
theorem readSource_iff_tokens? {α : Type} (read : List Token → Except (List Token) α)
    (source : String) (a : α) :
    Reader.readSource read source = .ok a ↔ ∃ ts, tokens? source = some ts ∧ read ts = .ok a := by
  rw [readSource_eq_ok_iff, ← tokens?_eq]
  constructor
  · rintro ⟨ts, hts, hread⟩
    exact ⟨_, by rw [hts]; rfl, hread⟩
  · rintro ⟨us, hus, hread⟩
    obtain ⟨ts, hts, rfl⟩ := Option.map_eq_some_iff.mp hus
    refine ⟨ts, ?_, hread⟩
    cases htokens : tokenize source with
    | error e =>
      rw [htokens] at hts
      cases hts
    | ok ts' =>
      rw [htokens] at hts
      cases hts
      rfl

/-- A source is read as a script when its tokens are derived as one. -/
theorem parse_iff_derives (source : String) (p : List Stmt) :
    parse source = .ok p ↔ ∃ ts, tokens? source = some ts ∧ ScriptRule.program.Derives ts p := by
  rw [parse, readSource_iff_tokens?]
  simp only [script_iff_derives]

end ScriptShell
