import ScriptShell.Proofs.Token.Joined

/-!
# Sources line by line

Nothing of a source but its brackets and blocks goes on behind the end of a line, so the tokens of a
source can be told line by line. Lines without lexemes leave nothing, and lines that are all moved
to the right by the same number of blanks leave what they left before. So neither matters to what is
read.
-/

namespace ScriptShell

/-! ### Lines -/

/-- The lines of a source, without the line feeds between them. -/
def physicalLines (source : String) : List (List Char) := source.toList.splitOn '\n'

/-- Whether a line holds blanks only, up to a comment if there is one. -/
def isBlankLine (line : List Char) : Bool :=
  match line.dropWhile Lexeme.isGap with
  | [] => true
  | c :: _ => c == '#'

/-- The lines of a source that are not blank. -/
def contentLines (source : String) : List (List Char) :=
  (physicalLines source).filter fun line => !isBlankLine line

/-- A line behind some spaces. -/
def indentLine (n : Nat) (line : List Char) : List Char := List.replicate n ' ' ++ line

/-- A source with some spaces before each of its lines. -/
def indentedBy (n : Nat) (source : String) : String :=
  String.ofList (['\n'].intercalate ((physicalLines source).map (indentLine n)))

/-- Every source has a line. -/
theorem physicalLines_ne_nil (source : String) : physicalLines source ≠ [] :=
  List.splitOn_ne_nil _ _

/-- No line holds a line feed. -/
theorem feed_not_mem_of_mem_physicalLines {source : String} {line : List Char}
    (h : line ∈ physicalLines source) : '\n' ∉ line := by
  unfold physicalLines at h
  generalize source.toList = text at h
  induction text generalizing line with
  | nil =>
    rw [List.splitOn_nil] at h
    rw [List.mem_singleton.mp h]
    exact nofun
  | cons c cs ih =>
    rw [List.splitOn_cons_eq_if_modifyHead] at h
    split at h
    · rcases List.mem_cons.mp h with rfl | h
      · exact nofun
      · exact ih h
    · next hc =>
      obtain ⟨first, others, hlines⟩ := List.exists_cons_of_ne_nil (List.splitOn_ne_nil '\n' cs)
      rw [hlines] at h ih
      rcases List.mem_cons.mp h with rfl | h
      · have hfirst := ih (List.mem_cons_self ..)
        rw [List.mem_cons, not_or]
        exact ⟨fun heq => hc (beq_iff_eq.mpr heq.symm), hfirst⟩
      · exact ih (List.mem_cons_of_mem _ h)

/-- A source is its lines with line feeds between them. -/
theorem intercalate_physicalLines (source : String) :
    ['\n'].intercalate (physicalLines source) = source.toList :=
  List.intercalate_splitOn '\n'

/-- Indenting a source indents its lines. -/
theorem physicalLines_indentedBy (n : Nat) (source : String) :
    physicalLines (indentedBy n source) = (physicalLines source).map (indentLine n) := by
  unfold indentedBy
  rw [physicalLines, String.toList_ofList]
  refine List.splitOn_intercalate '\n' ?_ (by simpa using physicalLines_ne_nil source)
  intro line hline
  obtain ⟨line, hmem, rfl⟩ := List.mem_map.mp hline
  have := feed_not_mem_of_mem_physicalLines hmem
  simp [indentLine, this]

example : indentedBy 2 "x:\n  y\n" = "  x:\n    y\n  " := by decide +kernel

theorem isBlankLine_gap {c : Char} (h : Lexeme.isGap c = true) (line : List Char) :
    isBlankLine (c :: line) = isBlankLine line := by
  rw [isBlankLine, List.dropWhile_cons_of_pos h, isBlankLine]

/-- A blank line that starts with no gap starts a comment. -/
theorem eq_sharp_of_isBlankLine {c : Char} {line : List Char} (hgap : ¬Lexeme.isGap c = true)
    (h : isBlankLine (c :: line) = true) : c = '#' := by
  rw [isBlankLine, List.dropWhile_cons_of_neg hgap] at h
  exact beq_iff_eq.mp h

/-! ### Lexemes -/

/-- A literal that is left open on a line is left open when lines follow. -/
theorem Lexeme.stringBody_append_feed {quote : Char} {cs taken : List Char}
    (h : stringBody quote cs = (taken, none)) (ds : List Char) :
    stringBody quote (cs ++ '\n' :: ds) = (taken, none) := by
  fun_induction stringBody quote cs generalizing taken with
  | case1 =>
    cases h
    rw [List.nil_append, stringBody]
    · rw [if_pos rfl]
    · simp
  | case2 =>
    cases h
    rfl
  | case3 =>
    cases h
    rfl
  | case4 c cs hc taken' left' heq ih =>
    cases h
    rw [List.cons_append, List.cons_append, stringBody]
    · rw [ih heq]
    · exact hc
  | case5 cs hc =>
    cases h
    rw [List.cons_append, stringBody]
    · rw [if_pos rfl]
    · exact hc
  | case6 => cases h
  | case7 c cs hc hfeed hquote taken' left' heq ih =>
    cases h
    rw [List.cons_append, stringBody]
    · rw [if_neg hfeed, if_neg hquote, ih heq]
    · exact hc

/-- What starts no lexeme on a line starts none when lines follow. -/
theorem Lexeme.unreadable_append_feed {c : Char} {cs : List Char}
    (h : (cut c cs).reading = .unreadable) (ds : List Char) :
    (cut c (cs ++ '\n' :: ds)).reading = .unreadable := by
  by_cases hquote : c = '"' ∨ c = '\''
  · rw [cut_quote hquote] at h ⊢
    unfold cutString at h ⊢
    split at h
    · cases h
    · next taken hopen => rw [stringBody_append_feed hopen]
  · have hcomment : c = '#' → '\n' ∈ cs := by
      rintro rfl
      cases h
    rw [cut_append_unquoted (delimited_cons rfl ds) hquote hcomment]
    exact h

namespace Spaced

/-- A line that cannot be cut into lexemes cannot be when lines follow. -/
theorem scan_append_feed_eq_none {previous : Option Char} {gap : Nat} {cs : List Char}
    (h : scan previous gap cs = none) (ds : List Char) :
    scan previous gap (cs ++ '\n' :: ds) = none := by
  fun_induction scan previous gap cs with
  | case1 => cases h
  | case2 previous gap c cs hread =>
    rw [List.cons_append, scan]
    simp only [Lexeme.unreadable_append_feed hread ds]
  | case3 previous gap c cs hread ih =>
    have hne : (Lexeme.cut c cs).reading ≠ .unreadable := by simp [hread]
    have hcut := Lexeme.cut_append_feed hne ds
    rw [List.cons_append, scan_skipped (by rw [hcut]; exact hread), hcut]
    exact ih h
  | case4 previous gap c cs t hread ih =>
    have hne : (Lexeme.cut c cs).reading ≠ .unreadable := by simp [hread]
    have hcut := Lexeme.cut_append_feed hne ds
    rw [List.cons_append, scan_token (by rw [hcut]; exact hread), hcut, Lexeme.Cut.before,
      ih (Option.map_eq_none_iff.mp h), Option.map_none]

/-- A blank line has no lexemes. -/
theorem scan_of_isBlankLine {line : List Char} (h : isBlankLine line = true)
    (hfeed : '\n' ∉ line) (previous : Option Char) (gap : Nat) :
    scan previous gap line = some [] := by
  induction line generalizing previous gap with
  | nil => rw [scan]
  | cons c line ih =>
    have hrest : '\n' ∉ line := fun hmem => hfeed (List.mem_cons_of_mem _ hmem)
    by_cases hgap : Lexeme.isGap c = true
    · rw [scan_skipped (by rw [Lexeme.cut_gap hgap]), Lexeme.cut_gap hgap]
      rw [isBlankLine_gap hgap] at h
      exact ih h hrest _ _
    · obtain rfl := eq_sharp_of_isBlankLine hgap h
      have hcut := Lexeme.cut_openComment hrest []
      rw [List.append_nil] at hcut
      rw [scan_skipped (by rw [hcut]), hcut, List.dropWhile_nil, scan]

/-- A line has no line feeds among its lexemes. -/
theorem token_ne_newline_of_scan {previous : Option Char} {gap : Nat} {cs : List Char}
    {us : List Spaced} (h : scan previous gap cs = some us) (hfeed : '\n' ∉ cs) :
    ∀ l ∈ us, l.token ≠ .newline := by
  fun_induction scan previous gap cs generalizing us with
  | case1 =>
    cases h
    simp
  | case2 => cases h
  | case3 previous gap c cs hread ih =>
    have htaken : (Lexeme.cut c cs).taken ++ (Lexeme.cut c cs).rest = c :: cs :=
      Lexeme.taken_append_rest (by simp [hread])
    exact ih h fun hmem => hfeed (by rw [← htaken]; exact List.mem_append_right _ hmem)
  | case4 previous gap c cs t hread ih =>
    have htaken : (Lexeme.cut c cs).taken ++ (Lexeme.cut c cs).rest = c :: cs :=
      Lexeme.taken_append_rest (by simp [hread])
    obtain ⟨vs, hvs, rfl⟩ := Option.map_eq_some_iff.mp h
    refine List.forall_mem_cons.mpr ⟨fun ht => ?_, ih hvs fun hmem => hfeed ?_⟩
    · have hc := (Lexeme.eq_feed_of_isLayout hread (by rw [show t = .newline from ht]; rfl)).1
      exact hfeed (by rw [hc]; exact List.mem_cons_self ..)
    · rw [← htaken]
      exact List.mem_append_right _ hmem

/-- Lexemes of a line that is moved to the right by `n` bytes: only the first one can tell. -/
inductive Shifted (n : Nat) : List Spaced → List Spaced → Prop
  | nil : Shifted n [] []
  | cons {l m : Spaced} (token : m.token = l.token) (gap : m.gap = l.gap + n) (ls : List Spaced) :
      Shifted n (l :: ls) (m :: ls)

/-- A text further to the right is cut into the same lexemes further to the right. -/
theorem scan_shifted (n : Nat) (previous previous' : Option Char) (gap : Nat) (cs : List Char) :
    Option.Rel (Shifted n) (scan previous gap cs) (scan previous' (gap + n) cs) := by
  fun_induction scan previous gap cs generalizing previous' with
  | case1 =>
    rw [scan]
    exact .some .nil
  | case2 previous gap c cs hread =>
    rw [scan, hread]
    exact .none
  | case3 previous gap c cs hread ih =>
    rw [scan_skipped hread, Nat.add_right_comm]
    exact ih _
  | case4 previous gap c cs t hread ih =>
    rw [scan_token hread]
    cases scan (Lexeme.cut c cs).taken.getLast? 0 (Lexeme.cut c cs).rest with
    | none => exact .none
    | some ls => exact .some (Shifted.cons (by rfl) (by rfl) ls)

/-- The lexemes of a line behind spaces. -/
theorem scan_indentLine (n gap : Nat) (previous : Option Char) (line : List Char) :
    ∃ previous', scan previous gap (indentLine n line) = scan previous' (gap + n) line := by
  induction n generalizing gap previous with
  | zero => exact ⟨previous, rfl⟩
  | succ n ih =>
    obtain ⟨previous', hscan⟩ := ih (gap + 1) (some ' ')
    refine ⟨previous', ?_⟩
    rw [← Nat.add_assoc, Nat.add_right_comm, ← hscan, indentLine, List.replicate_succ,
      List.cons_append, scan_skipped (by rw [Lexeme.cut_gap rfl]), Lexeme.cut_gap rfl]
    rfl

/-! ### Flags -/

/-- Lexemes that are shifted are shifted with their flags folded. -/
theorem Shifted.fold {n : Nat} {us vs : List Spaced} (h : Shifted n us vs) :
    Shifted n (fold false us) (fold false vs) := by
  cases h with
  | nil =>
    simp only [Spaced.fold]
    exact .nil
  | cons token gap ls =>
    rw [fold_false_cons, fold_false_cons, token]
    exact .cons token gap _

/-! ### Layout -/

/-- The tokens of the lexemes of a line and of the lines that follow, `next` being those of the
lines that follow. -/
def laidLine (next : List Nat → Nat → Option (List Token)) (columns : List Nat) (depth : Nat)
    (lineIsEmpty : Bool) : List Spaced → Option (List Token)
  | [] =>
    if depth = 0 then (next columns 0).map (lineEnd lineIsEmpty ++ ·) else next columns depth
  | l :: ls =>
    let entered :=
      if lineIsEmpty then Layout.enterLine l.gap columns else some ([], columns)
    entered.bind fun (blocks, columns) =>
      (laidLine next columns (Layout.depthAfter depth l.token) false ls).map
        (blocks ++ l.token :: ·)

/-- A line is laid out by itself, and the lines that follow behind it. -/
theorem laid_append_feed_eq {us : List Spaced} (hus : ∀ l ∈ us, l.token ≠ .newline) {feed : Spaced}
    (hfeed : feed.token = .newline) (vs : List Spaced) (columns : List Nat) (depth : Nat)
    (lineIsEmpty : Bool) (hempty : lineIsEmpty = true → depth = 0) :
    laid columns depth lineIsEmpty (us ++ feed :: vs) =
      laidLine (fun columns depth => laid columns depth (depth == 0) vs) columns depth lineIsEmpty
        us := by
  induction us generalizing columns depth lineIsEmpty with
  | nil =>
    rw [List.nil_append, laid_feed hfeed, laidLine]
    split
    · rfl
    · next hdepth =>
      have hline : lineIsEmpty = false := by
        cases lineIsEmpty with
        | false => rfl
        | true => exact absurd (hempty rfl) hdepth
      rw [hline, beq_false_of_ne hdepth]
  | cons u us ih =>
    obtain ⟨hu, hus⟩ := List.forall_mem_cons.mp hus
    rw [List.cons_append, laid_token hu, laidLine]
    simp only [ih hus _ _ false nofun]

/-- A line feed at the end of a source adds nothing. -/
theorem laid_concat_feed {feed : Spaced} (hfeed : feed.token = .newline) (us : List Spaced)
    (columns : List Nat) (depth : Nat) (lineIsEmpty : Bool) :
    laid columns depth lineIsEmpty (us ++ [feed]) = laid columns depth lineIsEmpty us := by
  induction us generalizing columns depth lineIsEmpty with
  | nil =>
    rw [List.nil_append, laid_feed hfeed]
    split
    · rfl
    · rfl
  | cons u us ih =>
    rw [List.cons_append]
    by_cases hu : u.token = .newline
    · rw [laid_feed hu, laid_feed hu, ih, ih]
    · rw [laid_token hu, laid_token hu]
      simp only [ih]

/-- Where the lines that follow cannot be laid out none of the lines can. -/
theorem laidLine_none (columns : List Nat) (depth : Nat) (lineIsEmpty : Bool) (us : List Spaced) :
    laidLine (fun _ _ => none) columns depth lineIsEmpty us = none := by
  induction us generalizing columns depth lineIsEmpty with
  | nil =>
    rw [laidLine]
    split <;> rfl
  | cons u us ih => simp [laidLine, ih]

/-- A line without lexemes leaves nothing. -/
theorem laidLine_nil (next : List Nat → Nat → Option (List Token)) (columns : List Nat)
    (depth : Nat) : laidLine next columns depth (depth == 0) [] = next columns depth := by
  rw [laidLine]
  split
  · next hdepth => rw [hdepth, beq_self_eq_true, map_lineEnd_true]
  · rfl

/-- Closing blocks depends on the columns up to a common shift. -/
theorem closeTo_add (n width : Nat) (columns : List Nat) :
    Layout.closeTo (width + n) (columns.map (· + n)) =
      (Layout.closeTo width columns).map fun (k, left) => (k, left.map (· + n)) := by
  induction columns with
  | nil => rfl
  | cons top below ih =>
    rw [List.map_cons, Layout.closeTo, Layout.closeTo, ih]
    simp only [Nat.add_lt_add_iff_right, Nat.add_right_cancel_iff]
    split
    · rw [Option.map_map, Option.map_map]
      rfl
    · split <;> rfl

/-- A line that is moved to the right with the blocks around it opens and closes the same blocks. -/
theorem enterLine_add (n width : Nat) (columns : List Nat) :
    Layout.enterLine (width + n) (columns.map (· + n)) =
      (Layout.enterLine width columns).map fun (blocks, left) => (blocks, left.map (· + n)) := by
  cases columns with
  | nil => rfl
  | cons top below =>
    have hclose := closeTo_add n width (top :: below)
    rw [List.map_cons] at hclose ⊢
    rw [Layout.enterLine, Layout.enterLine, hclose]
    simp only [Nat.add_lt_add_iff_right]
    split
    · rfl
    · rw [Option.map_map, Option.map_map]
      rfl

section Moved

variable {n : Nat} {next next' : List Nat → Nat → Option (List Token)}
  (hnext : ∀ columns depth, next' (columns.map (· + n)) depth = next columns depth)
include hnext

/-- The rest of a line does not depend on how far the blocks around it are to the right. -/
theorem laidLine_moved_rest (columns : List Nat) (depth : Nat) (us : List Spaced) :
    laidLine next' (columns.map (· + n)) depth false us = laidLine next columns depth false us := by
  induction us generalizing depth with
  | nil => simp only [laidLine, hnext]
  | cons u us ih => simp [laidLine, ih]

/-- A line that is moved to the right with the blocks around it leaves the same tokens. -/
theorem laidLine_moved {us vs : List Spaced} (h : Shifted n us vs) (columns : List Nat)
    (depth : Nat) (lineIsEmpty : Bool) :
    laidLine next' (columns.map (· + n)) depth lineIsEmpty vs =
      laidLine next columns depth lineIsEmpty us := by
  cases h with
  | nil => simp only [laidLine, hnext]
  | cons token gap ls =>
    rw [laidLine, laidLine, token, gap]
    cases lineIsEmpty with
    | false => simp [laidLine_moved_rest hnext]
    | true =>
      simp only [if_true, enterLine_add, Option.bind_map]
      refine congrArg _ (funext fun (blocks, left) => ?_)
      simp only [Function.comp_apply, laidLine_moved_rest hnext]

end Moved

end Spaced

/-! ### Sources -/

/-- The tokens of lines, if they have any, behind lines that leave blocks at these columns and
brackets open. -/
def readLines (columns : List Nat) (depth : Nat) : List (List Char) → Option (List Token)
  | [] => Spaced.laid columns depth (depth == 0) []
  | line :: lines =>
    (Spaced.scan none 0 line).bind fun us =>
      Spaced.laidLine (fun columns depth => readLines columns depth lines) columns depth
        (depth == 0) (Spaced.fold false us)

/-- Blank lines leave nothing. -/
theorem readLines_filter {lines : List (List Char)} (hlines : ∀ line ∈ lines, '\n' ∉ line)
    (columns : List Nat) (depth : Nat) :
    readLines columns depth (lines.filter fun line => !isBlankLine line) =
      readLines columns depth lines := by
  induction lines generalizing columns depth with
  | nil => rfl
  | cons line lines ih =>
    obtain ⟨hline, hlines⟩ := List.forall_mem_cons.mp hlines
    cases hblank : isBlankLine line with
    | true =>
      have hfold : Spaced.fold false [] = [] := by simp only [Spaced.fold]
      rw [List.filter_cons_of_neg (by simp [hblank]), readLines,
        Spaced.scan_of_isBlankLine hblank hline, Option.bind_some, hfold, Spaced.laidLine_nil,
        ih hlines]
    | false =>
      rw [List.filter_cons_of_pos (by simp [hblank]), readLines, readLines]
      simp only [ih hlines]

/-- Lines that are all moved to the right leave the same tokens. -/
theorem readLines_indentLine (n : Nat) (columns : List Nat) (depth : Nat)
    (lines : List (List Char)) :
    readLines (columns.map (· + n)) depth (lines.map (indentLine n)) =
      readLines columns depth lines := by
  induction lines generalizing columns depth with
  | nil =>
    rw [List.map_nil, readLines, readLines, Spaced.laid, Spaced.laid, List.length_map]
  | cons line lines ih =>
    obtain ⟨previous, hscan⟩ := Spaced.scan_indentLine n 0 none line
    rw [List.map_cons, readLines, readLines, hscan]
    have hshifted := Spaced.scan_shifted n none previous 0 line
    revert hshifted
    generalize Spaced.scan none 0 line = us
    generalize Spaced.scan previous (0 + n) line = vs
    rintro (hshifted | _)
    · exact Spaced.laidLine_moved ih hshifted.fold columns depth (depth == 0)
    · rfl

/-- The tokens of lines are those of the lexemes of the text that they make up. -/
theorem readLines_eq {lines : List (List Char)} (hlines : ∀ line ∈ lines, '\n' ∉ line)
    (hne : lines ≠ []) (columns : List Nat) (depth : Nat) :
    readLines columns depth lines =
      (Spaced.scan none 0 (['\n'].intercalate lines)).bind fun us =>
        Spaced.laid columns depth (depth == 0) (Spaced.fold false us) := by
  induction lines generalizing columns depth with
  | nil => exact absurd rfl hne
  | cons line lines ih =>
    obtain ⟨hline, hlines⟩ := List.forall_mem_cons.mp hlines
    have hempty : (depth == 0) = true → depth = 0 := beq_iff_eq.mp
    have hfold {us : List Spaced} (hus : Spaced.scan none 0 line = some us) :
        ∀ l ∈ Spaced.fold false us, l.token ≠ .newline :=
      Spaced.forall_token_fold (P := (· ≠ .newline)) (fun _ => nofun)
        (Spaced.token_ne_newline_of_scan hus hline)
    rw [readLines]
    cases lines with
    | nil =>
      rw [List.intercalate_singleton]
      refine Option.bind_congr fun us hus => ?_
      have hfeed : Spaced.token ⟨.newline, ['\n'], 0, false⟩ = .newline := rfl
      rw [← Spaced.laid_concat_feed hfeed,
        Spaced.laid_append_feed_eq (hfold hus) hfeed _ _ _ _ hempty]
      simp only [readLines]
    | cons line' lines =>
      have hrest := ih hlines (List.cons_ne_nil _ _)
      rw [List.intercalate_cons_cons, List.append_assoc, List.singleton_append]
      generalize ['\n'].intercalate (line' :: lines) = rest at hrest ⊢
      cases hus : Spaced.scan none 0 line with
      | none => rw [Spaced.scan_append_feed_eq_none hus, Option.bind_none, Option.bind_none]
      | some us =>
        obtain ⟨feed, hfeed, hscan⟩ := Spaced.scan_append_feed hus rest
        rw [hscan, Option.bind_some]
        simp only [hrest]
        cases Spaced.scan none 0 rest with
        | none => exact Spaced.laidLine_none columns depth (depth == 0) _
        | some vs =>
          simp only [Option.map_some, Option.bind_some]
          rw [Spaced.fold_append_feed hfeed,
            Spaced.laid_append_feed_eq (hfold hus) hfeed _ _ _ _ hempty]

/-- A source is read line by line. -/
theorem tokens?_eq_readLines (source : String) :
    tokens? source = readLines [] 0 (physicalLines source) := by
  rw [readLines_eq (fun _ => feed_not_mem_of_mem_physicalLines) (physicalLines_ne_nil source),
    intercalate_physicalLines]
  rfl

/-- Blank lines can be left out of a source. -/
theorem tokens?_eq_contentLines (source : String) :
    tokens? source = readLines [] 0 (contentLines source) := by
  rw [tokens?_eq_readLines, contentLines,
    readLines_filter fun _ => feed_not_mem_of_mem_physicalLines]

/-- Two sources are read alike: they have the same tokens apart from their places, or neither has
any, and they are the same script and the same expression, or neither is one. -/
structure ReadAlike (a b : String) : Prop where
  tokens : (tokenize a).toOption.map (List.map PlacedToken.token) =
    (tokenize b).toOption.map (List.map PlacedToken.token)
  script : ∀ p, parse a = .ok p ↔ parse b = .ok p
  expression : ∀ e, parseExpression a = .ok e ↔ parseExpression b = .ok e

/-- Sources with the same tokens are read alike. -/
theorem readAlike_of_tokens? {a b : String} (h : tokens? a = tokens? b) : ReadAlike a b where
  tokens := by rw [tokens?_eq, tokens?_eq, h]
  script p := by rw [parse, parse, readSource_iff_tokens?, readSource_iff_tokens?, h]
  expression e := by
    rw [parseExpression, parseExpression, readSource_iff_tokens?, readSource_iff_tokens?, h]

/-- Sources are read alike that have the same lines but for blank ones, wherever these stand, and a
source is read as it was with the same number of spaces before all of its lines. -/
theorem readAlike_of_layout :
    (∀ a b, contentLines a = contentLines b → ReadAlike a b) ∧
      ∀ n source, ReadAlike source (indentedBy n source) := by
  refine ⟨fun a b h => readAlike_of_tokens? ?_, fun n source => readAlike_of_tokens? ?_⟩
  · rw [tokens?_eq_contentLines, tokens?_eq_contentLines, h]
  · rw [tokens?_eq_readLines, tokens?_eq_readLines, physicalLines_indentedBy]
    exact (readLines_indentLine n [] 0 (physicalLines source)).symm

/-- Blank lines before, between and behind the two lines of a block. -/
theorem readAlike_of_layout_block :
    contentLines "x:\n  y" = contentLines "\n# note\nx:\n\t\n  y\n  # note\n" ∧
      ReadAlike "x:\n  y" "\n# note\nx:\n\t\n  y\n  # note\n" := by
  have hlines :
      contentLines "x:\n  y" = contentLines "\n# note\nx:\n\t\n  y\n  # note\n" := by
    decide +kernel
  exact ⟨hlines, readAlike_of_layout.1 _ _ hlines⟩

end ScriptShell
