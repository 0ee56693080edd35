import ScriptShell.Proofs.Script.Acceptance
import ScriptShell.Proofs.Script.Brackets

/-!
# Sources of one line

A source whose line feeds all stand inside brackets, or before its first token, is one line. If no
flag can start in it, its tokens are those of its text without the line feeds and with a newline at
the end. The other way round, whatever a source is read as is derived from the tokens of its text,
and where a line feed stands behind a name the name is all that can be read.
-/

namespace ScriptShell

/-- Tokens of which only line feeds inside brackets stand for line structure, where `depth` brackets
are open before them. -/
def OneLine : Nat → List Token → Prop
  | _, [] => True
  | depth, t :: ts =>
    (t.isLayout = true → t = .newline ∧ 0 < depth) ∧ OneLine (Layout.depthAfter depth t) ts

theorem OneLine.append {depth : Nat} {us vs : List Token} (hu : OneLine depth us)
    (hv : OneLine (depthBehind depth us) vs) : OneLine depth (us ++ vs) := by
  induction us generalizing depth with
  | nil => exact hv
  | cons u us ih => exact ⟨hu.1, ih hu.2 hv⟩

/-- Inside a bracket all is one line. -/
theorem oneLine_of_staysOpen {depth : Nat} {ts : List Token} (h : StaysOpen depth ts)
    (hfeed : ∀ t ∈ ts, t.isLayout = true → t = .newline) : OneLine depth ts := by
  induction ts generalizing depth with
  | nil => trivial
  | cons t ts ih =>
    exact ⟨fun ht => ⟨hfeed t (List.mem_cons_self ..) ht, h.1⟩,
      ih h.2 fun u hu => hfeed u (List.mem_cons_of_mem _ hu)⟩

namespace Layout

/-- On a line that holds a token, tokens of one line are laid out up to its end. -/
theorem run_of_oneLine {s : State} {ls : List Lexeme} (hline : s.lineIsEmpty = false)
    (h : OneLine s.depth (ls.map Lexeme.token)) :
    ∃ ts, run s ls = .ok ts ∧ ts.map PlacedToken.token =
      Token.content (ls.map Lexeme.token) ++
        .newline :: List.replicate (s.columns.length - 1) .dedent := by
  induction ls generalizing s with
  | nil =>
    refine ⟨closing s, rfl, ?_⟩
    rw [closing_tokens, hline]
    rfl
  | cons l ls ih =>
    obtain ⟨hfeed, hrest⟩ := h
    rw [run]
    split
    · next hl =>
      rw [hl] at hfeed hrest
      have hdepth := (hfeed rfl).2
      obtain ⟨ts, hrun, htokens⟩ := ih hline hrest
      rw [if_neg (Nat.ne_of_gt hdepth), List.map_cons, hl]
      exact ⟨ts, hrun, htokens⟩
    · next hl =>
      have hcontent : l.token.isLayout = false := by
        rw [← Bool.not_eq_true]
        exact fun hlayout => hl (hfeed hlayout).1
      let next : State :=
        { s with depth := depthAfter s.depth l.token, lastStop := l.stop }
      obtain ⟨ts, hrun, htokens⟩ := ih (s := next) hline hrest
      rw [if_neg (by simp [hline])]
      refine ⟨⟨l.token, l.start, l.stop⟩ :: ts, ?_, ?_⟩
      · rw [hrun]
        rfl
      · rw [List.map_cons, htokens, List.map_cons, Token.content_cons hcontent, List.cons_append]

/-- Line feeds before the first token leave nothing. -/
theorem run_newlines {s : State} {feeds : List Lexeme} (hline : s.lineIsEmpty = true)
    (hdepth : s.depth = 0) (hfeeds : ∀ l ∈ feeds, l.token = .newline) (ls : List Lexeme) :
    ∃ s', s'.lineIsEmpty = true ∧ s'.depth = 0 ∧ s'.columns = s.columns ∧
      run s (feeds ++ ls) = run s' ls := by
  induction feeds generalizing s with
  | nil => exact ⟨s, hline, hdepth, rfl, rfl⟩
  | cons l feeds ih =>
    let next : State := { s with lineStart := l.stop, lineIsEmpty := true }
    obtain ⟨s', hline', hdepth', hcolumns, hrun⟩ :=
      ih (s := next) rfl hdepth fun l hl => hfeeds l (List.mem_cons_of_mem _ hl)
    refine ⟨s', hline', hdepth', hcolumns, ?_⟩
    rw [List.cons_append, run, hfeeds l (List.mem_cons_self ..)]
    simp only [if_pos hdepth, if_pos hline]
    exact hrun

/-- Lexemes with newlines, a token and other tokens are line feeds, a lexeme and others. -/
theorem exists_feeds {ls : List Lexeme} {n : Nat} {t : Token} {ts : List Token}
    (h : ls.map Lexeme.token = List.replicate n .newline ++ t :: ts) :
    ∃ feeds l rest, ls = feeds ++ l :: rest ∧ (∀ f ∈ feeds, f.token = .newline) ∧ l.token = t ∧
      rest.map Lexeme.token = ts := by
  obtain ⟨feeds, others, rfl, hfeeds, hothers⟩ := List.map_eq_append_iff.mp h
  obtain ⟨l, rest, rfl, hl, hrest⟩ := List.map_eq_cons_iff.mp hothers
  refine ⟨feeds, l, rest, rfl, fun f hf => ?_, hl, hrest⟩
  have hmem : f.token ∈ feeds.map Lexeme.token := List.mem_map_of_mem hf
  rw [hfeeds] at hmem
  exact List.eq_of_mem_replicate hmem

/-- Lexemes of one line, with any line feeds before it, are laid out as that line. -/
theorem run_initial_of_oneLine {ls : List Lexeme} {n : Nat} {t : Token} {ts : List Token}
    (h : ls.map Lexeme.token = List.replicate n .newline ++ t :: ts) (ht : t.isLayout = false)
    (hline : OneLine (depthAfter 0 t) ts) :
    ∃ placed, run .initial ls = .ok placed ∧
      placed.map PlacedToken.token = t :: Token.content ts ++ [.newline] := by
  obtain ⟨feeds, l, rest, rfl, hfeeds, rfl, rfl⟩ := exists_feeds h
  obtain ⟨s, hempty, hdepth, hcolumns, hskip⟩ :=
    run_newlines (s := .initial) rfl rfl hfeeds (l :: rest)
  let next : State :=
    ⟨[l.start - s.lineStart], depthAfter 0 l.token, s.lineStart, false, l.stop⟩
  obtain ⟨placed, hplaced, htokens⟩ := run_of_oneLine (s := next) rfl hline
  have henter : enterLine (l.start - s.lineStart) s.columns =
      some ([], [l.start - s.lineStart]) := by
    rw [hcolumns]
    rfl
  refine ⟨⟨l.token, l.start, l.stop⟩ :: placed, ?_, ?_⟩
  · rw [hskip, run]
    split
    · next hl =>
      rw [hl] at ht
      cases ht
    · rw [if_pos hempty, henter]
      dsimp only
      rw [hdepth, hplaced]
      rfl
  · rw [List.map_cons, htokens]
    rfl

end Layout

/-- The tokens of a source of one line, with any line feeds before it. -/
theorem tokenize_of_oneLine {source : String} {n : Nat} {t : Token} {ts : List Token}
    (h : Lexeme.lexed source.toList = some (List.replicate n .newline ++ t :: ts))
    (ht : t.isLayout = false) (hline : OneLine (Layout.depthAfter 0 t) ts)
    (hflag : Flag.Unflagged t.endsOperand ts) :
    ∃ placed, tokenize source = .ok placed ∧
      placed.map PlacedToken.token = t :: Token.content ts ++ [.newline] := by
  obtain ⟨ls, hls, htokens⟩ := Lexeme.exists_scanFrom_of_lexed h none 0
  have hunflagged : Flag.Unflagged false (ls.map Lexeme.token) := by
    rw [htokens]
    exact Flag.unflagged_newlines n ⟨nofun, hflag⟩
  have hfold : Flag.fold ls = ls := Flag.foldFrom_of_unflagged hunflagged
  obtain ⟨placed, hplaced, hcontent⟩ := Layout.run_initial_of_oneLine htokens ht hline
  refine ⟨placed, ?_, hcontent⟩
  unfold tokenize
  rw [show Lexeme.scan source.toList = .ok ls from hls]
  change Layout.resolve (Flag.fold ls) = _
  rw [hfold]
  exact hplaced

/-- A source of one line that is an expression is read as that expression. -/
theorem parseExpression_of_oneLine {source : String} {n : Nat} {t : Token} {ts : List Token}
    (h : Lexeme.lexed source.toList = some (List.replicate n .newline ++ t :: ts))
    (ht : t.isLayout = false) (hline : OneLine (Layout.depthAfter 0 t) ts)
    (hflag : Flag.Unflagged t.endsOperand ts) {e : Expr}
    (he : ExprRule.or.Derives (t :: Token.content ts) e) : parseExpression source = .ok e := by
  obtain ⟨placed, hplaced, htokens⟩ := tokenize_of_oneLine h ht hline hflag
  refine (readSource_eq_ok_iff _ _ _).mpr ⟨placed, hplaced, (onlyExpr_iff_derives _ _).mpr ?_⟩
  exact ⟨_, 1, htokens, he⟩

/-- The tokens of a source that is read as an expression are derived as that expression, line feeds
apart. -/
theorem exists_lexed_of_parseExpression {source : String} {e : Expr}
    (h : parseExpression source = .ok e) :
    ∃ ts, Lexeme.lexed source.toList = some ts ∧ ExprRule.or.Derives (Token.content ts) e := by
  obtain ⟨placed, hplaced, hread⟩ := (readSource_eq_ok_iff _ _ _).mp h
  have hline := (onlyExpr_iff_derives _ _).mp hread
  obtain ⟨ls, hls, hrun⟩ := exists_run_of_tokenize hplaced fun t ht =>
    hline.isNoFlag _ (List.mem_map_of_mem ht)
  refine ⟨_, hls, ?_⟩
  obtain ⟨us, n, heq, hd⟩ := hline
  have hus : Token.content us = us :=
    Token.content_eq_self fun u hu => Token.isLayout_of_standsInExpr (hd.standsInExpr u hu)
  rw [← Layout.content_of_run hrun, heq, Token.content_append, hus,
    Token.content_replicate_newline, List.append_nil]
  exact hd

/-- A name at the start of a line, with a line feed or nothing behind it, is all there is on its
line. -/
theorem Layout.exists_newline_of_run {s : State} {l : Lexeme} {ls : List Lexeme} {x : String}
    {ts : List PlacedToken} (h : run s (l :: ls) = .ok ts) (hl : l.token = .identifier x)
    (hdepth : s.depth = 0) (hls : ∀ t, (ls.map Lexeme.token).head? = some t → t = .newline) :
    ∃ blocks us, (∀ b ∈ blocks, b = .indent ∨ b = .dedent) ∧
      ts.map PlacedToken.token = blocks ++ .identifier x :: .newline :: us := by
  cases lexemeLaid_of_run h with
  | skipped s' ts' hfeed =>
    rw [hl] at hfeed
    cases hfeed
  | lineEnd s' ts' hfeed =>
    rw [hl] at hfeed
    cases hfeed
  | token s' ts' blocks _ _ hblocks hline hnext htokens hbrackets =>
    rw [hl, hdepth] at hbrackets
    refine ⟨blocks, (ts'.map PlacedToken.token).tail, hblocks, ?_⟩
    rw [htokens, hl]
    cases ls with
    | nil =>
      cases hnext
      rw [closing_tokens, hline]
      rfl
    | cons next ls =>
      cases lexemeLaid_of_run hnext with
      | skipped _ _ _ _ _ _ hends =>
        rcases hends with hinside | hempty
        · exact absurd hbrackets hinside
        · rw [hline] at hempty
          cases hempty
      | lineEnd s'' ts'' _ _ _ _ htokens' =>
        rw [htokens']
        rfl
      | token _ _ _ hfeed => exact absurd (hls _ rfl) hfeed

/-- A source with a line feed, or nothing, behind the name it starts with is that name if it is an
expression at all. -/
theorem eq_name_of_parseExpression {source x : String} {n : Nat} {ts : List Token}
    (h : Lexeme.lexed source.toList = some (List.replicate n .newline ++ .identifier x :: ts))
    (hts : ∀ t, ts.head? = some t → t = .newline) {e : Expr}
    (he : parseExpression source = .ok e) : e = .name x := by
  obtain ⟨placed, hplaced, hread⟩ := (readSource_eq_ok_iff _ _ _).mp he
  have hline := (onlyExpr_iff_derives _ _).mp hread
  obtain ⟨ls, hls, hrun⟩ := exists_run_of_tokenize hplaced fun t ht =>
    hline.isNoFlag _ (List.mem_map_of_mem ht)
  rw [h, Option.some.injEq] at hls
  obtain ⟨feeds, l, rest, rfl, hfeeds, hl, rfl⟩ := Layout.exists_feeds hls.symm
  obtain ⟨s, _, hdepth, _, hskip⟩ :=
    Layout.run_newlines (s := .initial) rfl rfl hfeeds (l :: rest)
  rw [hskip] at hrun
  obtain ⟨blocks, us, hblocks, htokens⟩ := Layout.exists_newline_of_run hrun hl hdepth hts
  obtain ⟨vs, k, heq, hd⟩ := hline
  rw [htokens] at heq
  obtain ⟨vs', rfl, hrest⟩ :=
    Layout.exists_of_token_front hblocks (by exact nofun) hd.standsInExpr heq.symm
  obtain rfl : vs' = [] := by
    cases vs' with
    | nil => rfl
    | cons v vs' =>
      have hv := hd.standsInExpr v (by simp)
      rw [← (List.cons.inj hrest).1] at hv
      cases hv
  have hname : ExprRule.or.Derives [.identifier x] (.name x) := .of_postfixed (.ofAtom .name)
  have hread' := (onlyExpr_iff_derives [.identifier x] _).mpr ⟨_, 0, rfl, hname⟩
  rw [(onlyExpr_iff_derives [.identifier x] e).mpr ⟨_, 0, rfl, hd⟩] at hread'
  exact Except.ok.inj hread'

end ScriptShell
