import ScriptShell.Proofs.Token.Spacing

/-!
# Sources one below the other

Of two sources on lines of their own, the tokens are those of the first and then those of the
second, if the first closes its brackets and both start at the same column: no lexeme and no flag
goes on behind a line feed, and the second source closes the blocks that the first one leaves open.
-/

namespace ScriptShell

/-! ### Lexemes -/

/-- A line feed ends whatever stands before it. -/
theorem Lexeme.cut_append_feed {c : Char} {cs : List Char}
    (h : (cut c cs).reading ≠ .unreadable) (ds : List Char) :
    cut c (cs ++ '\n' :: ds) = (cut c cs).before ('\n' :: ds) := by
  by_cases hopen : c = '#' ∧ '\n' ∉ cs
  · obtain ⟨rfl, hfeed⟩ := hopen
    have halone := cut_openComment hfeed []
    rw [List.append_nil] at halone
    have hall : ∀ d ∈ cs, (d != '\n') = true := by
      intro d hd
      simpa using fun heq : d = '\n' => hfeed (heq ▸ hd)
    have htake : (cs ++ '\n' :: ds).takeWhile (· != '\n') = cs.takeWhile (· != '\n') := by
      rw [List.takeWhile_append_of_pos hall, List.takeWhile_eq_self_iff.mpr hall,
        List.takeWhile_cons_of_neg (by decide), List.append_nil]
    rw [cut_openComment hfeed, htake, halone]
    rfl
  · exact cut_append (delimited_cons rfl ds) h fun hc =>
      Decidable.not_not.mp fun hfeed => hopen ⟨hc, hfeed⟩

namespace Spaced

/-- A line feed before a text is no blank. -/
theorem scan_behind_feed (cs : List Char) : scan (some '\n') 0 cs = scan none 0 cs := by
  cases cs with
  | nil => rw [scan, scan]
  | cons c cs => rw [scan, scan]; rfl

/-- The lexemes of a text that goes on behind a line feed are those of its parts, with the line feed
between them. -/
theorem scan_append_feed {previous : Option Char} {gap : Nat} {cs : List Char} {us : List Spaced}
    (h : scan previous gap cs = some us) (ds : List Char) :
    ∃ feed, feed.token = .newline ∧
      scan previous gap (cs ++ '\n' :: ds) =
        (scan none 0 ds).map fun vs => us ++ feed :: vs := by
  fun_induction scan previous gap cs generalizing us with
  | case1 previous gap =>
    cases h
    refine ⟨⟨.newline, ['\n'], gap, previous == some ' ' || previous == some '\t'⟩, rfl, ?_⟩
    rw [List.nil_append, scan_token (by rw [Lexeme.cut_feed]), Lexeme.cut_feed,
      List.getLast?_singleton, scan_behind_feed]
    rfl
  | case2 => cases h
  | case3 previous gap c cs hread ih =>
    obtain ⟨feed, hfeed, hscan⟩ := ih h
    have hne : (Lexeme.cut c cs).reading ≠ .unreadable := by simp [hread]
    have hcut := Lexeme.cut_append_feed hne ds
    refine ⟨feed, hfeed, ?_⟩
    rw [List.cons_append, scan_skipped (by rw [hcut]; exact hread), hcut]
    exact hscan
  | case4 previous gap c cs t hread ih =>
    obtain ⟨vs, hvs, rfl⟩ := Option.map_eq_some_iff.mp h
    obtain ⟨feed, hfeed, hscan⟩ := ih hvs
    have hne : (Lexeme.cut c cs).reading ≠ .unreadable := by simp [hread]
    have hcut := Lexeme.cut_append_feed hne ds
    refine ⟨feed, hfeed, ?_⟩
    rw [List.cons_append, scan_token (by rw [hcut]; exact hread), hcut, Lexeme.Cut.before, hscan,
      Option.map_map]
    rfl

/-! ### Flags -/

theorem mem_of_mem_afterFlag {l : Spaced} {ls : List Spaced} (h : l ∈ afterFlag ls) : l ∈ ls := by
  induction ls with
  | nil => exact h
  | cons m ls ih =>
    rw [afterFlag] at h
    split at h
    · exact List.mem_cons_of_mem _ (ih h)
    · exact h

/-- Making flags whole leaves flags and tokens that were there before. -/
theorem forall_token_fold {afterOperand : Bool} {us : List Spaced} {P : Token → Prop}
    (hflag : ∀ text, P (.flag text)) (h : ∀ l ∈ us, P l.token) :
    ∀ l ∈ fold afterOperand us, P l.token := by
  fun_induction fold afterOperand us with
  | case1 afterOperand l next ls _ ih =>
    refine List.forall_mem_cons.mpr ⟨hflag _, ih fun m hm => h m ?_⟩
    exact List.mem_cons_of_mem _ (mem_of_mem_afterFlag hm)
  | case2 afterOperand l next ls _ ih =>
    obtain ⟨hl, hrest⟩ := List.forall_mem_cons.mp h
    exact List.forall_mem_cons.mpr ⟨hl, ih hrest⟩
  | case3 => exact h

/-- The first lexeme of a line is no part of a flag. -/
theorem fold_false_cons (l : Spaced) (ls : List Spaced) :
    fold false (l :: ls) = l :: fold l.token.endsOperand ls := by
  cases ls with
  | nil => simp only [fold]
  | cons next ls => rw [fold, Bool.false_and, if_neg Bool.false_ne_true]

variable {feed : Spaced} (hfeed : feed.token = .newline) (vs : List Spaced)

include hfeed in
theorem flagTail_append (us : List Spaced) : flagTail (us ++ feed :: vs) = flagTail us := by
  induction us with
  | nil => simp [flagTail, hfeed, Flag.joins, Token.isWord]
  | cons u us ih => simp only [List.cons_append, flagTail, ih]

include hfeed in
theorem afterFlag_append (us : List Spaced) :
    afterFlag (us ++ feed :: vs) = afterFlag us ++ feed :: vs := by
  induction us with
  | nil => simp [afterFlag, hfeed, Flag.joins, Token.isWord]
  | cons u us ih =>
    simp only [List.cons_append, afterFlag, ih]
    split <;> rfl

include hfeed in
/-- A line feed starts no flag, and a flag starts behind no line feed. -/
theorem fold_feed (afterOperand : Bool) :
    fold afterOperand (feed :: vs) = feed :: fold false vs := by
  cases vs with
  | nil => simp [fold]
  | cons v vs => simp [fold, startsFlag, hfeed, Token.endsOperand]

include hfeed in
/-- No flag goes on behind a line feed. -/
theorem fold_append_feed (afterOperand : Bool) (us : List Spaced) :
    fold afterOperand (us ++ feed :: vs) = fold afterOperand us ++ feed :: fold false vs := by
  fun_induction fold afterOperand us with
  | case1 afterOperand l next ls hstarts ih =>
    have htail := flagTail_append hfeed vs (next :: ls)
    have hafter := afterFlag_append hfeed vs (next :: ls)
    rw [List.cons_append] at htail hafter
    rw [List.cons_append, List.cons_append, fold, if_pos hstarts, hafter, ih, flag, htail]
    rfl
  | case2 afterOperand l next ls hstarts ih =>
    rw [List.cons_append] at ih
    rw [List.cons_append, List.cons_append, fold, if_neg hstarts, ih]
    rfl
  | case3 afterOperand ls hshort =>
    rcases ls with _ | ⟨l, _ | ⟨next, ls⟩⟩
    · exact fold_feed hfeed vs afterOperand
    · have hstarts : startsFlag l feed = false := by
        unfold startsFlag
        simp only [hfeed, Token.isWord, Bool.or_false, Bool.and_false]
        split <;> rfl
      rw [List.cons_append, List.nil_append, fold, hstarts, Bool.and_false,
        if_neg Bool.false_ne_true, fold_feed hfeed]
      rfl
    · exact absurd rfl (hshort l next ls)

/-! ### Columns -/

/-- How far the first lexeme that is no line feed stands from the start of its line. -/
def firstColumn? : List Spaced → Option Nat
  | [] => none
  | l :: ls =>
    match l.token with
    | .newline => firstColumn? ls
    | _ => some l.gap

theorem firstColumn?_feed {l : Spaced} (h : l.token = .newline) (ls : List Spaced) :
    firstColumn? (l :: ls) = firstColumn? ls := by
  rw [firstColumn?, h]

theorem firstColumn?_token {l : Spaced} (h : l.token ≠ .newline) (ls : List Spaced) :
    firstColumn? (l :: ls) = some l.gap := by
  rw [firstColumn?]
  split
  · next hfeed => exact absurd hfeed h
  · rfl

/-- Making flags whole leaves lines where they are. -/
theorem firstColumn?_fold (ls : List Spaced) : firstColumn? (fold false ls) = firstColumn? ls := by
  induction ls with
  | nil => simp only [fold]
  | cons l ls ih =>
    by_cases hfeed : l.token = .newline
    · rw [fold_feed hfeed, firstColumn?_feed hfeed, firstColumn?_feed hfeed, ih]
    · rw [fold_false_cons, firstColumn?_token hfeed, firstColumn?_token hfeed]

/-- The outermost of the blocks at these columns is at `base`, and the others are further right. -/
def Based (base : Nat) (columns : List Nat) : Prop :=
  ∃ inner, columns = inner ++ [base] ∧ ∀ column ∈ inner, base < column

theorem Based.single (base : Nat) : Based base [base] := ⟨[], rfl, nofun⟩

/-- A line at the column of the outermost block closes all others. -/
theorem Based.enterLine {base : Nat} {columns : List Nat} (h : Based base columns) :
    Layout.enterLine base columns =
      some (List.replicate (columns.length - 1) .dedent, [base]) := by
  obtain ⟨inner, rfl, hinner⟩ := h
  have hclose : Layout.closeTo base (inner ++ [base]) = some (inner.length, [base]) := by
    induction inner with
    | nil => simp [Layout.closeTo]
    | cons column inner ih =>
      obtain ⟨hcolumn, hothers⟩ := List.forall_mem_cons.mp hinner
      rw [List.cons_append, Layout.closeTo, if_pos hcolumn, ih hothers]
      rfl
  cases inner with
  | nil =>
    rw [List.nil_append] at hclose ⊢
    rw [Layout.enterLine, if_neg (Nat.lt_irrefl base), hclose]
    rfl
  | cons column inner =>
    have hcolumn := hinner column (List.mem_cons_self ..)
    rw [List.cons_append] at hclose ⊢
    rw [Layout.enterLine, if_neg (Nat.lt_asymm hcolumn), hclose]
    simp

/-- Closing blocks leaves those that enclose them. -/
theorem Based.closeTo {base width n : Nat} {columns left : List Nat} (h : Based base columns)
    (hclose : Layout.closeTo width columns = some (n, left)) : Based base left := by
  obtain ⟨inner, rfl, hinner⟩ := h
  induction inner generalizing n left with
  | nil =>
    rw [List.nil_append, Layout.closeTo] at hclose
    split at hclose
    · cases hclose
    · split at hclose
      · cases hclose
        exact .single base
      · cases hclose
  | cons column inner ih =>
    obtain ⟨hcolumn, hothers⟩ := List.forall_mem_cons.mp hinner
    rw [List.cons_append, Layout.closeTo] at hclose
    split at hclose
    · obtain ⟨⟨m, left'⟩, hrest, heq⟩ := Option.map_eq_some_iff.mp hclose
      cases heq
      exact ih hothers hrest
    · split at hclose
      · cases hclose
        exact ⟨column :: inner, rfl, hinner⟩
      · cases hclose

/-- The outermost block stays while lines go on. -/
theorem Based.of_enterLine {base width : Nat} {columns columns' : List Nat} {blocks : List Token}
    (h : Based base columns) (henter : Layout.enterLine width columns = some (blocks, columns')) :
    Based base columns' := by
  unfold Layout.enterLine at henter
  split at henter
  · obtain ⟨inner, heq, -⟩ := h
    simp at heq
  · next top below =>
    split at henter
    · next hwidth =>
      cases henter
      obtain ⟨inner, heq, hinner⟩ := h
      refine ⟨width :: inner, by rw [heq]; rfl, List.forall_mem_cons.mpr ⟨?_, hinner⟩⟩
      cases inner with
      | nil =>
        obtain rfl : top = base := (List.cons.inj heq).1
        exact hwidth
      | cons column inner =>
        obtain rfl : top = column := (List.cons.inj heq).1
        exact Nat.lt_trans (hinner top (List.mem_cons_self ..)) hwidth
    · obtain ⟨⟨n, left⟩, hclose, heq⟩ := Option.map_eq_some_iff.mp henter
      cases heq
      exact h.closeTo hclose

/-! ### Layout -/

/-- What stands on lines of its own is laid out as it is alone, behind the ends of the blocks that
stood open; if it holds a lexeme it has to start at the column of the outermost of them. -/
theorem laid_behind {vs : List Spaced} {ws : List Token} (h : laid [] 0 true vs = some ws)
    {columns : List Nat} (hcolumn : ∀ column, firstColumn? vs = some column →
      columns = [] ∨ Based column columns) :
    laid columns 0 true vs = some (List.replicate (columns.length - 1) .dedent ++ ws) := by
  induction vs with
  | nil =>
    cases h
    rw [laid, lineEnd, if_pos rfl]
    simp
  | cons v vs ih =>
    by_cases hfeed : v.token = .newline
    · rw [laid_feed hfeed, if_pos rfl, map_lineEnd_true] at h ⊢
      rw [firstColumn?_feed hfeed] at hcolumn
      exact ih h hcolumn
    · rcases hcolumn v.gap (firstColumn?_token hfeed vs) with rfl | hbased
      · exact h
      · rw [laid_token hfeed, if_pos rfl] at h ⊢
        rw [hbased.enterLine]
        have hfirst : Layout.enterLine v.gap [] = some ([], [v.gap]) := rfl
        rw [hfirst] at h
        obtain ⟨ts, hts, rfl⟩ := Option.map_eq_some_iff.mp h
        rw [Option.bind_some]
        dsimp only
        rw [hts]
        simp

/-- A source that closes its brackets is laid out, and then what stands on lines below it, if that
starts at the same column. -/
theorem laid_append_feed {us vs : List Spaced} {ts ws : List Token} {columns : List Nat}
    {depth : Nat} {lineIsEmpty : Bool} (h : laid columns depth lineIsEmpty us = some ts)
    (hbehind : laid [] 0 true vs = some ws)
    (hdepth : depthBehind depth (us.map token) = 0)
    (hcolumn : ∀ column, firstColumn? vs = some column → Based column columns ∨
      (columns = [] ∧ lineIsEmpty = true ∧ ∀ first, firstColumn? us = some first → first = column))
    {feed : Spaced} (hfeed : feed.token = .newline) :
    laid columns depth lineIsEmpty (us ++ feed :: vs) = some (ts ++ ws) := by
  induction us generalizing columns depth lineIsEmpty ts with
  | nil =>
    obtain rfl : depth = 0 := hdepth
    cases h
    have hrest := @laid_behind vs ws hbehind columns fun column hc =>
      (hcolumn column hc).symm.imp_left And.left
    rw [List.nil_append, laid_feed hfeed, if_pos rfl, hrest, Option.map_some, List.append_assoc]
  | cons u us ih =>
    rw [List.map_cons, depthBehind, List.foldl_cons] at hdepth
    by_cases hu : u.token = .newline
    · have hsame : Layout.depthAfter depth u.token = depth := by
        rw [hu]
        rfl
      rw [hsame] at hdepth
      rw [firstColumn?_feed hu] at hcolumn
      rw [laid_feed hu] at h
      rw [List.cons_append, laid_feed hu]
      split at h
      · next hzero =>
        subst hzero
        obtain ⟨ts', hts', rfl⟩ := Option.map_eq_some_iff.mp h
        rw [if_pos rfl, ih hts' hdepth fun column hc => ?_]
        · simp
        · exact (hcolumn column hc).imp_right fun h => ⟨h.1, rfl, h.2.2⟩
      · next hinside =>
        rw [if_neg hinside]
        exact ih h hdepth hcolumn
    · rw [laid_token hu] at h
      rw [List.cons_append, laid_token hu]
      obtain ⟨⟨blocks, columns'⟩, henter, hlaid⟩ := Option.bind_eq_some_iff.mp h
      obtain ⟨ts', hts', rfl⟩ := Option.map_eq_some_iff.mp hlaid
      rw [henter, Option.bind_some]
      dsimp only
      rw [ih hts' hdepth fun column hc => ?_]
      · simp
      · left
        rcases hcolumn column hc with hbased | ⟨rfl, rfl, hfirst⟩
        · split at henter
          · exact hbased.of_enterLine henter
          · cases henter
            exact hbased
        · rw [hfirst u.gap (firstColumn?_token hu us)] at henter
          cases henter
          exact .single column

end Spaced

end ScriptShell
