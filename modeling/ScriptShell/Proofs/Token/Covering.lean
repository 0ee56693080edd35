import ScriptShell.Proofs.Token.Indentation
import ScriptShell.Proofs.Token.Tiling

/-!
# The tokens of a source cover it

Nothing of a source is lost between its text and its tokens. Apart from the tokens that are put in
for line structure each token stands for the text at its place, and what stands at no token's place
means nothing: blanks, comments, and line feeds that end no line of tokens.
-/

namespace ScriptShell

/-- Whether a token is put in for line structure: it starts or ends a block, or it is a newline
without a line feed. -/
def PlacedToken.isSynthesized (t : PlacedToken) : Bool :=
  match t.token with
  | .indent | .dedent => true
  | .newline => t.start == t.stop
  | _ => false

/-- The tokens that stand for texts of the source. -/
def written (placed : List PlacedToken) : List PlacedToken :=
  placed.filter fun t => !t.isSynthesized

/-- Byte `b` of a source can be left out of its tokens: it is skipped, or it is a line feed inside
brackets, or a line feed that ends a line without tokens. -/
inductive IsLeftOut (source : List Char) (ts : List PlacedToken) (b : Nat) : Prop
  | skipped : IsSkipped 0 source ts b → IsLeftOut source ts b
  | inBrackets (before after : List Char) {us vs : List PlacedToken} :
      source = before ++ '\n' :: after → Text.utf8Length before = b → ts = us ++ vs →
      (∀ t ∈ us, t.stop ≤ b) → (∀ t ∈ vs, b < t.start) →
      0 < depthBehind 0 (us.map PlacedToken.token) → IsLeftOut source ts b
  | emptyLine (before line after : List Char) : source = before ++ line ++ '\n' :: after →
      Text.utf8Length (before ++ line) = b → '\n' ∉ line →
      (∀ c, before.getLast? = some c → c = '\n') →
      (∀ t ∈ ts, t.stop ≤ Text.utf8Length before ∨ b < t.start) → IsLeftOut source ts b

/-- Tokens cover a source. -/
structure Covers (source : List Char) (placed : List PlacedToken) : Prop where
  /-- Written tokens are not empty and inside the source. -/
  inBounds : ∀ t ∈ written placed, t.start < t.stop ∧ t.stop ≤ Text.utf8Length source
  /-- They stand one behind another. -/
  inOrder : (written placed).Pairwise fun t u => t.stop ≤ u.start
  /-- Each is what the text at its place denotes. -/
  denoted : ∀ t ∈ written placed, ∃ text, IsSlice source t.start t.stop text ∧
    t.token.DenotedBy text
  /-- Nothing that means anything is at none of their places. -/
  leftOut : ∀ b < Text.utf8Length source,
    (∀ t ∈ written placed, ¬(t.start ≤ b ∧ b < t.stop)) → IsLeftOut source (written placed) b
  /-- The other tokens are empty, and a newline among them is the last but for ends of blocks. -/
  synthesized : ∀ front t behind, placed = front ++ t :: behind → t.isSynthesized = true →
    t.start = t.stop ∧ (t.token = .newline → ∀ u ∈ behind, u.token = .dedent)

/-- What the passes behind the first one cut out of a source and subtract is there. -/
structure StaysInRange (source : List Char) (lexemes : List Lexeme) : Prop where
  /-- A lexeme and what stands before it can be cut out. -/
  lexeme : ∀ l ∈ lexemes, IsSlice source l.start l.stop l.text
  /-- So can a flag. -/
  flag : ∀ l ∈ Flag.fold lexemes, IsSlice source l.start l.stop l.text
  /-- A literal has two quotes to be stripped of. -/
  quotes : ∀ l ∈ lexemes, ∀ text, l.token = .string text → ∃ quote body,
    l.text = quote :: (body ++ [quote]) ∧ quote.utf8Size = 1 ∧
      text = String.ofList (Text.unescape body)
  /-- Wherever the layout has got to, its line starts before the next lexeme. -/
  column : ∀ us l vs tokens s, Flag.fold lexemes = us ++ l :: vs →
    Layout.Steps .initial us tokens s → s.lineStart ≤ l.start

theorem written_append (us vs : List PlacedToken) : written (us ++ vs) = written us ++ written vs :=
  List.filter_append ..

theorem PlacedToken.isLayout_of_isSynthesized {t : PlacedToken} (h : t.isSynthesized = true) :
    t.token.isLayout = true := by
  obtain ⟨token, start, stop⟩ := t
  cases token with
  | newline | indent | dedent => rfl
  | _ => cases h

/-- Synthesized tokens are no content. -/
theorem content_written (ts : List PlacedToken) :
    Token.content ((written ts).map PlacedToken.token) =
      Token.content (ts.map PlacedToken.token) := by
  induction ts with
  | nil => rfl
  | cons t ts ih =>
    unfold written at ih ⊢
    cases h : t.isSynthesized with
    | false =>
      rw [List.filter_cons_of_pos (by simp [h]), List.map_cons, List.map_cons]
      unfold Token.content at ih ⊢
      rw [List.filter_cons, List.filter_cons, ih]
    | true =>
      rw [List.filter_cons_of_neg (by simp [h]), List.map_cons,
        Token.content_cons_of_isLayout (PlacedToken.isLayout_of_isSynthesized h), ih]

/-- What stands for a text is not synthesized. -/
theorem Lexeme.isSynthesized_placed {l : Lexeme} (h : l.token.DenotedBy l.text) :
    l.placed.isSynthesized = false := by
  have hlayout := h.eq_newline_of_isLayout
  unfold PlacedToken.isSynthesized
  split
  · next heq =>
    rw [show l.token = .indent from heq] at hlayout
    cases hlayout rfl
  · next heq =>
    rw [show l.token = .dedent from heq] at hlayout
    cases hlayout rfl
  · refine beq_eq_false_iff_ne.mpr (Nat.ne_of_lt ?_)
    exact Nat.lt_add_of_pos_right (Text.utf8Length_pos h.ne_nil)
  · rfl

namespace Layout

variable {s s' : State} {l : Lexeme} {ls : List Lexeme} {tokens : List PlacedToken}

/-! ### Synthesized tokens -/

/-- A lexeme leaves its token, and what opens and closes blocks before it, unless it is a line feed
inside brackets or on an empty line. -/
theorem Step.leaves (h : Step s l tokens s') :
    (∃ blocks : List Token, (∀ t ∈ blocks, t = .indent ∨ t = .dedent) ∧
      tokens = blocks.map (⟨·, l.start, l.start⟩) ++ [l.placed]) ∨
    (tokens = [] ∧ l.token = .newline ∧ (s.depth ≠ 0 ∨ s.lineIsEmpty = true)) := by
  cases h with
  | inBrackets isFeed inside => exact .inr ⟨rfl, isFeed, .inl inside⟩
  | emptyLine isFeed _ isEmpty => exact .inr ⟨rfl, isFeed, .inr isEmpty⟩
  | lineEnd isFeed => exact .inl ⟨[], nofun, by rw [Lexeme.placed, isFeed]; rfl⟩
  | first _ _ enters => exact .inl ⟨_, mem_enterLine enters, rfl⟩
  | onLine => exact .inl ⟨[], nofun, rfl⟩

/-- A lexeme leaves one written token, its own, unless it is a line feed inside brackets or on an
empty line. -/
theorem Step.written_eq (h : Step s l tokens s') (hl : l.token.DenotedBy l.text) :
    written tokens = [l.placed] ∨
      (tokens = [] ∧ l.token = .newline ∧ (s.depth ≠ 0 ∨ s.lineIsEmpty = true)) := by
  rcases h.leaves with ⟨blocks, hblocks, rfl⟩ | ⟨rfl, hfeed, hreason⟩
  · left
    have hnone : written (blocks.map (⟨·, l.start, l.start⟩)) = [] := by
      refine List.filter_eq_nil_iff.mpr fun t ht => ?_
      obtain ⟨block, hblock, rfl⟩ := List.mem_map.mp ht
      rcases hblocks block hblock with rfl | rfl <;> exact nofun
    rw [written_append, hnone, List.nil_append, written,
      List.filter_cons_of_pos (by simp [Lexeme.isSynthesized_placed hl]), List.filter_nil]
  · exact .inr ⟨rfl, hfeed, hreason⟩

/-- The synthesized tokens before the end of a source start and end blocks. -/
theorem Steps.synthesized (h : Steps s ls tokens s') (hls : ∀ l ∈ ls, l.token.DenotedBy l.text) :
    ∀ t ∈ tokens, t.isSynthesized = true → t.token ≠ .newline ∧ t.start = t.stop := by
  induction h with
  | nil => exact nofun
  | @cons _ _ _ l ls front back hstep _ ih =>
    obtain ⟨hl, hls⟩ := List.forall_mem_cons.mp hls
    intro t ht hsynthesized
    rcases List.mem_append.mp ht with ht | ht
    · rcases hstep.leaves with ⟨blocks, hblocks, rfl⟩ | ⟨rfl, -⟩
      · rcases List.mem_append.mp ht with ht | ht
        · obtain ⟨block, hblock, rfl⟩ := List.mem_map.mp ht
          rcases hblocks block hblock with rfl | rfl <;> exact ⟨nofun, rfl⟩
        · rw [List.mem_singleton.mp ht, Lexeme.isSynthesized_placed hl] at hsynthesized
          cases hsynthesized
      · cases ht
    · exact ih hls t ht hsynthesized

/-- What closes a source is synthesized. -/
theorem isSynthesized_of_mem_closing (s : State) :
    ∀ t ∈ closing s, t.isSynthesized = true ∧ t.start = t.stop := by
  intro t ht
  obtain ⟨token, htoken, rfl⟩ := List.mem_map.mp ht
  refine ⟨?_, rfl⟩
  rcases List.mem_append.mp htoken with htoken | htoken
  · split at htoken
    · cases htoken
    · rw [List.mem_singleton.mp htoken]
      exact beq_self_eq_true _
  · rw [List.eq_of_mem_replicate htoken]
    rfl

theorem written_closing (s : State) : written (closing s) = [] :=
  List.filter_eq_nil_iff.mpr fun t ht => by simp [(isSynthesized_of_mem_closing s t ht).1]

/-- Behind a newline that closes a source only blocks end. -/
theorem eq_dedent_of_closing {front behind : List PlacedToken} {t : PlacedToken}
    (h : closing s = front ++ t :: behind) (ht : t.token = .newline) :
    ∀ u ∈ behind, u.token = .dedent := by
  have htokens := congrArg (List.map PlacedToken.token) h
  rw [closing_tokens, List.map_append, List.map_cons, ht] at htokens
  have hno (n : Nat) (us vs : List Token) :
      List.replicate n Token.dedent ≠ us ++ .newline :: vs := by
    intro heq
    have hmem : Token.newline ∈ List.replicate n .dedent := heq ▸ by simp
    cases List.eq_of_mem_replicate hmem
  split at htokens
  · exact (hno _ _ _ htokens).elim
  · cases hfront : front.map PlacedToken.token with
    | nil =>
      rw [hfront] at htokens
      have hbehind : List.replicate (s.columns.length - 1) Token.dedent =
          behind.map PlacedToken.token := (List.cons.inj htokens).2
      exact fun u hu => List.eq_of_mem_replicate (hbehind ▸ List.mem_map_of_mem hu)
    | cons _ us =>
      rw [hfront] at htokens
      exact (hno _ _ _ (List.cons.inj htokens).2).elim

/-- The synthesized tokens of a source are empty, and a newline among them is the last but for ends
of blocks. -/
theorem synthesized_of_steps (h : Steps s ls tokens s') (hls : ∀ l ∈ ls, l.token.DenotedBy l.text)
    {front behind : List PlacedToken} {t : PlacedToken}
    (heq : tokens ++ closing s' = front ++ t :: behind) (ht : t.isSynthesized = true) :
    t.start = t.stop ∧ (t.token = .newline → ∀ u ∈ behind, u.token = .dedent) := by
  rcases List.append_eq_append_iff.mp heq with ⟨others, rfl, hclosing⟩ | ⟨others, rfl, hrest⟩
  · exact ⟨(isSynthesized_of_mem_closing s' t (by simp [hclosing])).2,
      eq_dedent_of_closing hclosing⟩
  · cases others with
    | nil =>
      have hclosing : closing s' = [] ++ t :: behind := hrest.symm
      exact ⟨(isSynthesized_of_mem_closing s' t (by simp [hclosing])).2,
        eq_dedent_of_closing hclosing⟩
    | cons u others =>
      obtain ⟨rfl, -⟩ := List.cons.inj hrest
      obtain ⟨hne, hempty⟩ := h.synthesized hls t (by simp) ht
      exact ⟨hempty, fun hfeed => absurd hfeed hne⟩

/-! ### Written tokens -/

/-- The written tokens are lexemes in their order. -/
theorem Steps.written_sublist (h : Steps s ls tokens s')
    (hls : ∀ l ∈ ls, l.token.DenotedBy l.text) :
    (written tokens).Sublist (ls.map Lexeme.placed) := by
  induction h with
  | nil => exact List.nil_sublist _
  | cons hstep _ ih =>
    obtain ⟨hl, hls⟩ := List.forall_mem_cons.mp hls
    rw [written_append, List.map_cons]
    rcases hstep.written_eq hl with hwritten | ⟨rfl, -⟩
    · rw [hwritten]
      exact (ih hls).cons_cons _
    · exact (ih hls).cons _

theorem Steps.exists_placed (h : Steps s ls tokens s') (hls : ∀ l ∈ ls, l.token.DenotedBy l.text) :
    ∀ t ∈ written tokens, ∃ l ∈ ls, t = l.placed := by
  intro t ht
  obtain ⟨l, hl, rfl⟩ := List.mem_map.mp ((h.written_sublist hls).subset ht)
  exact ⟨l, hl, rfl⟩

/-- Lines start before the lexemes on them. -/
theorem Steps.lineStart_le {P : Token → List Char → Prop} {start : Nat} {cs : List Char}
    {us vs : List Lexeme} (h : Steps s us tokens s')
    (htiles : Lexeme.Tiles P start cs (us ++ l :: vs)) (hs : s.lineStart ≤ start) :
    s'.lineStart ≤ l.start := by
  induction h generalizing start cs with
  | nil => exact Nat.le_trans hs (htiles.start_le l (List.mem_cons_self ..))
  | @cons s s' _ u us _ _ hstep _ ih =>
    have hplace := htiles.start_le u (List.mem_cons_self ..)
    cases htiles with
    | cons _ _ _ _ hrest =>
      refine ih hrest ?_
      have hstop : u.start ≤ u.stop := Nat.le_add_right ..
      have hkept : s.lineStart ≤ u.stop := Nat.le_trans hs (Nat.le_trans hplace hstop)
      cases hstep with
      | emptyLine | lineEnd => exact Nat.le_refl _
      | inBrackets | first | onLine => exact hkept

/-! ### What is left out -/

variable {source : List Char} {us vs : List Lexeme} {front back : List PlacedToken}

/-- Between lines a text ends with a line feed, if it is not empty. -/
theorem eq_feed_of_lineIsOver {start : Nat} {before : List Char}
    (htiles : Lexeme.Tiles Token.DenotedBy start before us) (hover : lineIsOver us = true)
    (hnone : us = [] → before = [])
    (hlast : ∀ m, us.getLast? = some m → ∃ others, before = others ++ m.text) {c : Char}
    (hc : before.getLast? = some c) : c = '\n' := by
  cases hus : us.getLast? with
  | none =>
    rw [hnone (List.getLast?_eq_none_iff.mp hus)] at hc
    cases hc
  | some m =>
    have htext := htiles.of_mem m (List.mem_of_getLast? hus)
    rw [newline_of_lineIsOver hover hus] at htext
    obtain ⟨others, rfl⟩ := hlast m hus
    rw [htext.eq_feed, List.getLast?_concat] at hc
    exact (Option.some.inj hc).symm

/-- A line feed that leaves no token is left out. -/
theorem isLeftOut_of_feed (htiles : Lexeme.Tiles Token.DenotedBy 0 source (us ++ l :: vs))
    (hlaid : Laid us (front.map PlacedToken.token) s) (hfeed : l.token = .newline)
    (hreason : s.depth ≠ 0 ∨ s.lineIsEmpty = true)
    (hfront : ∀ t ∈ written front, ∃ m ∈ us, t = m.placed)
    (hback : ∀ t ∈ written back, ∃ m ∈ vs, t = m.placed) :
    IsLeftOut source (written (front ++ back)) l.start := by
  obtain ⟨before, rest, rfl, hbefore, hrest, hnone, hlast⟩ := htiles.split
  cases hrest with
  | @cons gap _ rest _ _ hgap hstart hl hrest =>
    rw [hfeed] at hl
    rw [hl.eq_feed] at hgap ⊢
    rw [Nat.zero_add] at hstart
    have hplace : Text.utf8Length (before ++ gap) = l.start := by
      rw [Text.utf8Length_append, hstart]
    have hstop : l.stop = l.start + 1 := by
      rw [Lexeme.stop, hl.eq_feed]
      rfl
    have hahead : ∀ t ∈ written front, t.stop ≤ Text.utf8Length before := by
      intro t ht
      obtain ⟨m, hm, rfl⟩ := hfront t ht
      have hle := hbefore.stop_le m hm
      rwa [Nat.zero_add] at hle
    have hbehind : ∀ t ∈ written back, l.start < t.start := by
      intro t ht
      obtain ⟨m, hm, rfl⟩ := hback t ht
      have hle := hrest.start_le m hm
      change l.start < m.start
      omega
    rcases hreason with hinside | hempty
    · refine .inBrackets (before ++ gap) rest (by simp) hplace (written_append ..)
        (fun t ht => ?_) hbehind ?_
      · exact Nat.le_trans (hahead t ht) (by omega)
      · rw [depthBehind_eq_of_content (content_written front), hlaid.depthBehind_eq]
        exact Nat.pos_of_ne_zero hinside
    · refine .emptyLine before gap rest (by simp) hplace hgap.feed_not_mem (fun c hc => ?_)
        fun t ht => ?_
      · rw [hlaid.lineIsEmpty] at hempty
        exact eq_feed_of_lineIsOver hbefore hempty hnone hlast hc
      · rw [written_append] at ht
        exact (List.mem_append.mp ht).imp (hahead t) (hbehind t)

/-- Every byte that no token stands for is left out. -/
theorem isLeftOut_of_steps (htiles : Lexeme.Tiles Token.DenotedBy 0 source ls)
    (hsteps : Steps .initial ls tokens s) {b : Nat} (hb : b < Text.utf8Length source)
    (hout : ∀ t ∈ written tokens, ¬(t.start ≤ b ∧ b < t.stop)) :
    IsLeftOut source (written tokens) b := by
  have hls := htiles.of_mem
  rcases htiles.mem_or_isSkipped (fun t ht => .inr (hsteps.exists_placed hls t ht))
    (Nat.zero_le b) (by rwa [Nat.zero_add]) with ⟨l, hl, hstart, hstop⟩ | hskipped
  · obtain ⟨us, vs, rfl⟩ := List.append_of_mem hl
    have hus : ∀ m ∈ us, m.token.DenotedBy m.text := fun m hm => hls m (List.mem_append_left _ hm)
    have hvs : ∀ m ∈ vs, m.token.DenotedBy m.text :=
      fun m hm => hls m (List.mem_append_right _ (List.mem_cons_of_mem _ hm))
    obtain ⟨front, rest, s', rfl, hfront, hrest⟩ := hsteps.split
    cases hrest with
    | cons hstep hback =>
      -- the byte is in the text of `l`, so `l` leaves no token
      rcases hstep.written_eq (hls l hl) with hwritten | ⟨rfl, hfeed, hreason⟩
      · refine absurd ⟨hstart, hstop⟩ (hout l.placed ?_)
        rw [written_append, written_append, hwritten]
        simp
      · have htext := hls l hl
        rw [hfeed] at htext
        rw [Lexeme.stop, htext.eq_feed] at hstop
        obtain rfl : b = l.start := Nat.le_antisymm (Nat.le_of_lt_succ hstop) hstart
        have hlaid := Laid.initial.steps hfront fun m hm hne =>
          Bool.eq_false_iff.mpr fun hlayout => hne ((hus m hm).eq_newline_of_isLayout hlayout)
        exact isLeftOut_of_feed htiles hlaid hfeed hreason (hfront.exists_placed hus)
          (hback.exists_placed hvs)
  · exact .skipped hskipped

/-- Where lexemes tile a source their layout covers it. -/
theorem covers_of_steps (htiles : Lexeme.Tiles Token.DenotedBy 0 source ls)
    (hsteps : Steps .initial ls tokens s) : Covers source (tokens ++ closing s) := by
  have hls := htiles.of_mem
  have hwritten : written (tokens ++ closing s) = written tokens := by
    rw [written_append, written_closing, List.append_nil]
  have hplaced := hsteps.exists_placed hls
  refine {
    inBounds := ?_
    inOrder := ?_
    denoted := ?_
    leftOut := ?_
    synthesized := fun _ _ _ heq => synthesized_of_steps hsteps hls heq }
  all_goals rw [hwritten]
  · intro t ht
    obtain ⟨l, hl, rfl⟩ := hplaced t ht
    have hstop := htiles.stop_le l hl
    rw [Nat.zero_add] at hstop
    exact ⟨Nat.lt_add_of_pos_right (Text.utf8Length_pos (hls l hl).ne_nil), hstop⟩
  · exact (List.pairwise_map.mpr htiles.pairwise).sublist (hsteps.written_sublist hls)
  · intro t ht
    obtain ⟨l, hl, rfl⟩ := hplaced t ht
    exact ⟨l.text, htiles.isSlice hl⟩
  · exact fun b hb hout => isLeftOut_of_steps htiles hsteps hb hout

end Layout

/-! ### Sources -/

theorem staysInRange_of_scan {source : List Char} {lexemes : List Lexeme}
    (h : Lexeme.scan source = .ok lexemes) : StaysInRange source lexemes := by
  have hraw := Lexeme.Tiles.of_scanFrom h
  have htiles : Lexeme.Tiles Token.DenotedBy 0 source (Flag.fold lexemes) := hraw.foldFrom
  refine {
    lexeme := fun l hl => (hraw.isSlice hl).1
    flag := fun l hl => (htiles.isSlice hl).1
    quotes := fun l hl text heq => ?_
    column := fun us l vs tokens s heq hsteps =>
      hsteps.lineStart_le (heq ▸ htiles) (Nat.le_refl 0) }
  exact (heq ▸ hraw.of_mem l hl).quotes

/-- The tokens of a source cover it: nothing that means anything is lost between its text and its
tokens. On the way nothing is cut out of the source or subtracted that is not there. -/
theorem tokenize_covers {source : String} {placed : List PlacedToken}
    (h : tokenize source = .ok placed) :
    Covers source.toList placed ∧
      ∃ lexemes, Lexeme.scan source.toList = .ok lexemes ∧
        StaysInRange source.toList lexemes := by
  obtain ⟨lexemes, hscan, hrun⟩ := exists_of_bind_eq_ok h
  obtain ⟨tokens, s, hsteps, rfl⟩ := Layout.steps_of_run_eq_ok hrun
  have htiles : Lexeme.Tiles Token.DenotedBy 0 source.toList (Flag.fold lexemes) :=
    (Lexeme.Tiles.of_scanFrom hscan).foldFrom
  exact ⟨Layout.covers_of_steps htiles hsteps, lexemes, hscan, staysInRange_of_scan hscan⟩

/-- A flag, a comment and an empty line. -/
theorem tokenize_covers_flag :
    let placed : List PlacedToken := [⟨.identifier "a", 0, 1⟩, ⟨.flag "-b", 2, 4⟩, ⟨.newline, 7, 8⟩]
    tokenize "a -b#é\n\n" = .ok placed ∧ Covers "a -b#é\n\n".toList placed ∧
      ∃ lexemes, Lexeme.scan "a -b#é\n\n".toList = .ok lexemes ∧
        StaysInRange "a -b#é\n\n".toList lexemes := by
  intro placed
  have htokens : tokenize "a -b#é\n\n" = .ok placed := by with_unfolding_all rfl
  exact ⟨htokens, tokenize_covers htokens⟩

end ScriptShell
