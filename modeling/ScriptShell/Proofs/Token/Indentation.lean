import ScriptShell.Proofs.Token.LogicalLines

/-!
# Layout tokens are well formed

Blocks are opened and closed in turn and closed at the end of a source; newlines end lines, and
blocks open and close between lines and outside brackets. Before a line as many blocks stand open as
there are columns further to the right than the first one. This is an invariant of the layout, which
every lexeme keeps. The layout fails when a line is out of line, and in no other way.
-/

namespace ScriptShell

namespace Token

/-- Whether a token opens a block. -/
def isIndent : Token → Bool
  | .indent => true
  | _ => false

/-- Whether a token closes a block. -/
def isDedent : Token → Bool
  | .dedent => true
  | _ => false

/-- How many blocks tokens open. -/
def opened (ts : List Token) : Nat := ts.countP isIndent

/-- How many blocks tokens close. -/
def closed (ts : List Token) : Nat := ts.countP isDedent

theorem opened_append (us vs : List Token) : opened (us ++ vs) = opened us + opened vs :=
  List.countP_append

theorem closed_append (us vs : List Token) : closed (us ++ vs) = closed us + closed vs :=
  List.countP_append

/-- Only an indent opens a block. -/
theorem opened_cons_of_ne {t : Token} (h : t ≠ .indent) (ts : List Token) :
    opened (t :: ts) = opened ts := by
  refine List.countP_cons_of_neg ?_
  cases t with
  | indent => exact absurd rfl h
  | _ => exact nofun

/-- Only a dedent closes a block. -/
theorem closed_cons_of_ne {t : Token} (h : t ≠ .dedent) (ts : List Token) :
    closed (t :: ts) = closed ts := by
  refine List.countP_cons_of_neg ?_
  cases t with
  | dedent => exact absurd rfl h
  | _ => exact nofun

@[simp] theorem opened_dedents (n : Nat) : opened (List.replicate n .dedent) = 0 := by
  simp [opened, List.countP_replicate, isIndent]

@[simp] theorem closed_dedents (n : Nat) : closed (List.replicate n .dedent) = n := by
  simp [closed, List.countP_replicate, isDedent]

/-- A newline and the ends of blocks open no block. -/
theorem opened_ending (front : List Token) (n : Nat) :
    opened (front ++ .newline :: List.replicate n .dedent) = opened front := by
  rw [opened_append, opened_cons_of_ne (t := .newline) nofun, opened_dedents, Nat.add_zero]

/-- The end of a source closes the blocks that are left. -/
theorem closed_ending (front : List Token) (n : Nat) :
    closed (front ++ .newline :: List.replicate n .dedent) = closed front + n := by
  rw [closed_append, closed_cons_of_ne (t := .newline) nofun, closed_dedents]

end Token

namespace Layout

/-! ### Well-formed tokens -/

/-- The layout tokens among the tokens of a source are well formed. -/
structure WellLaid (ts : List Token) : Prop where
  /-- No block is closed that is not open. -/
  nested : ∀ front, front <+: ts → Token.closed front ≤ Token.opened front
  /-- In the end every block is closed. -/
  balanced : Token.closed ts = Token.opened ts
  /-- A source that is not empty ends with a newline and then the ends of the open blocks. -/
  ending : ts = [] ∨ ∃ front, ts = front ++
    .newline :: List.replicate (Token.opened front - Token.closed front) .dedent
  /-- No two newlines follow each other. -/
  newlineOnce : ∀ front back, ts ≠ front ++ .newline :: .newline :: back
  /-- A block opens at the front of a line that holds a token. -/
  indentBetween : ∀ front back, ts = front ++ .indent :: back →
    front.getLast? = some .newline ∧ ∃ t, back.head? = some t ∧ t.isLayout = false
  /-- A block closes at the front of a line or behind another block. -/
  dedentBehind : ∀ front back, ts = front ++ .dedent :: back →
    front.getLast? = some .newline ∨ front.getLast? = some .dedent
  /-- Inside brackets the only layout tokens are those that end a source. -/
  outsideBrackets : ∀ front t back, ts = front ++ t :: back → t.isLayout = true →
    0 < depthBehind 0 front → ∀ u ∈ back, u.isLayout = true

/-- Every token stands behind tokens that suit it. -/
def EachBehind (Suits : List Token → Token → Prop) (ts : List Token) : Prop :=
  ∀ front t back, ts = front ++ t :: back → Suits front t

/-- Whether a token may stand behind others. -/
def MayFollow (before : List Token) : Token → Prop
  | .newline => ∃ t, before.getLast? = some t ∧ t.isLayout = false
  | .indent => before.getLast? = some .newline
  | .dedent => Token.closed before < Token.opened before ∧
      (before.getLast? = some .newline ∨ before.getLast? = some .dedent)
  | _ => True

/-- Every token may follow those before it. -/
def InOrder (ts : List Token) : Prop := EachBehind MayFollow ts

/-- Layout tokens stand outside brackets. -/
def OutsideBrackets (ts : List Token) : Prop :=
  EachBehind (fun front t => t.isLayout = true → depthBehind 0 front = 0) ts

/-- A token that is no layout may follow any tokens. -/
theorem mayFollow_of_isLayout_eq_false {t : Token} (h : t.isLayout = false) (before : List Token) :
    MayFollow before t := by
  cases t with
  | newline | indent | dedent => cases h
  | _ => trivial

/-- A split of tokens with one more token behind them is a split of them or stands at the end. -/
theorem split_concat {ts front back : List Token} {t u : Token}
    (h : ts ++ [t] = front ++ u :: back) :
    (front = ts ∧ u = t ∧ back = []) ∨ ∃ back', back = back' ++ [t] ∧ ts = front ++ u :: back' := by
  cases back using List.reverseRecOn with
  | nil =>
    obtain ⟨rfl, heq⟩ := List.append_inj' h rfl
    exact .inl ⟨rfl, (List.cons.inj heq).1.symm, rfl⟩
  | append_singleton back v =>
    rw [← List.cons_append, ← List.append_assoc] at h
    obtain ⟨rfl, heq⟩ := List.append_inj' h rfl
    exact .inr ⟨back, by rw [(List.cons.inj heq).1], rfl⟩

namespace EachBehind

variable {Suits : List Token → Token → Prop} {ts front : List Token} {t : Token}

theorem nil : EachBehind Suits [] := by
  intro front t back h
  simp at h

/-- What suits each token behind those before it goes on with a token that it suits. -/
theorem concat (h : EachBehind Suits ts) (ht : Suits ts t) : EachBehind Suits (ts ++ [t]) := by
  intro front u back heq
  rcases split_concat heq with ⟨rfl, rfl, rfl⟩ | ⟨back', rfl, rfl⟩
  · exact ht
  · exact h front u back' rfl

/-- What suits each token of a list suits each of its front. -/
theorem of_prefix (h : EachBehind Suits ts) (hfront : front <+: ts) : EachBehind Suits front := by
  obtain ⟨back, rfl⟩ := hfront
  exact fun us u vs heq => h us u (vs ++ back) (by rw [heq]; simp)

end EachBehind

namespace InOrder

variable {ts : List Token}

/-- Blocks that are open are closed behind a newline. -/
theorem dedents (h : InOrder (ts ++ [.newline])) {n : Nat}
    (hn : n ≤ Token.opened ts - Token.closed ts) :
    InOrder (ts ++ .newline :: List.replicate n .dedent) := by
  induction n with
  | zero => exact h
  | succ n ih =>
    rw [List.replicate_succ', ← List.cons_append, ← List.append_assoc]
    refine (ih (Nat.le_of_succ_le hn)).concat ⟨?_, ?_⟩
    · rw [Token.closed_ending, Token.opened_ending]
      omega
    · cases n with
      | zero => exact .inl (List.getLast?_concat ..)
      | succ n =>
        rw [List.replicate_succ', ← List.cons_append, ← List.append_assoc]
        exact .inr (List.getLast?_concat ..)

/-- No block is closed that is not open. -/
theorem closed_le_opened (h : InOrder ts) : Token.closed ts ≤ Token.opened ts := by
  induction ts using List.reverseRecOn with
  | nil => exact Nat.le_refl 0
  | append_singleton ts t ih =>
    have hbefore := ih (h.of_prefix (List.prefix_append ..))
    rw [Token.closed_append, Token.opened_append]
    by_cases hdedent : t = .dedent
    · subst hdedent
      have := (h ts .dedent [] rfl).1
      change Token.closed ts + 1 ≤ _
      omega
    · rw [Token.closed_cons_of_ne hdedent]
      exact Nat.le_trans hbefore (Nat.le_add_right ..)

/-- Nor is one in a part of the tokens. -/
theorem nested {front : List Token} (h : InOrder ts) (hfront : front <+: ts) :
    Token.closed front ≤ Token.opened front :=
  closed_le_opened (h.of_prefix hfront)

/-- Two newlines do not follow each other. -/
theorem not_newline_newline {us vs : List Token} :
    ¬InOrder (us ++ .newline :: .newline :: vs) := by
  intro h
  obtain ⟨t, hlast, ht⟩ := h (us ++ [.newline]) .newline vs (by simp)
  rw [List.getLast?_concat] at hlast
  cases hlast
  cases ht

/-- Behind the start of a block stands no layout token. -/
theorem isLayout_behind_indent {us vs : List Token} {t : Token}
    (h : InOrder (us ++ .indent :: t :: vs)) : t.isLayout = false := by
  have hfollow := h (us ++ [.indent]) t vs (by simp)
  have hlast : (us ++ [Token.indent]).getLast? = some .indent := List.getLast?_concat ..
  cases t with
  | newline =>
    obtain ⟨u, hu, hlayout⟩ := hfollow
    rw [hlast] at hu
    cases hu
    cases hlayout
  | indent =>
    rw [MayFollow, hlast] at hfollow
    cases hfollow
  | dedent =>
    rw [MayFollow, hlast] at hfollow
    rcases hfollow.2 with hu | hu <;> cases hu
  | _ => rfl

end InOrder

/-- Layout tokens open and close no bracket. -/
theorem depthBehind_eq_of_content {us vs : List Token}
    (h : Token.content us = Token.content vs) (depth : Nat) :
    depthBehind depth us = depthBehind depth vs := by
  rw [← depthBehind_content, h, depthBehind_content]

/-- Outside brackets any number of layout tokens can follow. -/
theorem OutsideBrackets.append {ts blocks : List Token} (h : OutsideBrackets ts)
    (hdepth : depthBehind 0 ts = 0) (hblocks : ∀ t ∈ blocks, t.isLayout = true) :
    OutsideBrackets (ts ++ blocks) := by
  induction blocks using List.reverseRecOn with
  | nil =>
    rw [List.append_nil]
    exact h
  | append_singleton blocks t ih =>
    have hfront : ∀ u ∈ blocks, u.isLayout = true :=
      fun u hu => hblocks u (List.mem_append_left _ hu)
    rw [← List.append_assoc]
    have hcontent : Token.content (ts ++ blocks) = Token.content ts := by
      rw [Token.content_append, Token.content_eq_nil hfront, List.append_nil]
    exact (ih hfront).concat fun _ => (depthBehind_eq_of_content hcontent 0).trans hdepth

/-! ### The invariant -/

/-- A line is entered with layout tokens only. -/
theorem isLayout_of_mem_enterLine {width : Nat} {columns left : List Nat} {blocks : List Token}
    (h : enterLine width columns = some (blocks, left)) : ∀ t ∈ blocks, t.isLayout = true := by
  intro t ht
  rcases mem_enterLine h t ht with rfl | rfl <;> rfl

/-- What is known when lexemes `before` are laid out to tokens `ts` and the layout is in state
`s`. -/
structure Laid (before : List Lexeme) (ts : List Token) (s : State) : Prop where
  depth : s.depth = depthBehind 0 (before.map Lexeme.token)
  columns : s.columns = openBlocks (lineColumns before)
  based : ∀ base, (lineColumns before).head? = some base → Spaced.Based base s.columns
  lineIsEmpty : s.lineIsEmpty = lineIsOver before
  lineStart : s.lineIsEmpty = true → s.lineStart = stopOf before
  content : Token.content ts = Token.content (before.map Lexeme.token)
  nesting : Token.opened ts = Token.closed ts + (s.columns.length - 1)
  inOrder : InOrder ts
  outside : OutsideBrackets ts
  behindToken : s.lineIsEmpty = false → ∃ t, ts.getLast? = some t ∧ t.isLayout = false
  behindLine : s.lineIsEmpty = true → (ts = [] ∧ s.columns = []) ∨ ts.getLast? = some .newline

namespace Laid

variable {before : List Lexeme} {ts : List Token} {s s' : State} {l : Lexeme}
  {tokens : List PlacedToken}

/-- Nothing is laid out at the start. -/
theorem initial : Laid [] [] .initial where
  depth := rfl
  columns := rfl
  based := nofun
  lineIsEmpty := rfl
  lineStart _ := rfl
  content := rfl
  nesting := rfl
  inOrder := .nil
  outside := .nil
  behindToken := nofun
  behindLine _ := .inl ⟨rfl, rfl⟩

/-- The depth that is kept is the number of brackets open. -/
theorem depthBehind_eq (h : Laid before ts s) : depthBehind 0 ts = s.depth := by
  rw [h.depth, depthBehind_eq_of_content h.content]

/-- No bracket is open where a line starts. -/
theorem depth_eq_zero (h : Laid before ts s) (hempty : s.lineIsEmpty = true) : s.depth = 0 := by
  rw [h.depth, depthBehind_of_lineIsOver (h.lineIsEmpty ▸ hempty)]

/-- The columns of the open blocks grow from the outside in. -/
theorem pairwise_columns (h : Laid before ts s) : s.columns.Pairwise (· > ·) := by
  rw [h.columns]
  exact pairwise_openBlocks _

/-- The width of a line is the column of its first token. -/
theorem column_eq (h : Laid before ts s) (hempty : s.lineIsEmpty = true) (l : Lexeme) :
    l.start - s.lineStart = column before l := by
  rw [column, h.lineStart hempty]

/-- Behind a newline as many blocks stand open as there are columns but one. -/
theorem pending {front : List Token} (h : Laid before (front ++ [.newline]) s) :
    Token.opened front - Token.closed front = s.columns.length - 1 := by
  have hnesting := h.nesting
  have hopened := Token.opened_ending front 0
  have hclosed := Token.closed_ending front 0
  rw [List.replicate_zero] at hopened hclosed
  omega

/-- What a line feed leaves as it is. -/
theorem of_feed (hfeed : l.token = .newline) (before : List Lexeme) :
    depthBehind 0 ((before ++ [l]).map Lexeme.token) = depthBehind 0 (before.map Lexeme.token) ∧
      lineColumns (before ++ [l]) = lineColumns before ∧
      Token.content ((before ++ [l]).map Lexeme.token) =
        Token.content (before.map Lexeme.token) := by
  have hcontent : Token.content ((before ++ [l]).map Lexeme.token) =
      Token.content (before.map Lexeme.token) := by
    rw [List.map_append, Token.content_append, List.map_singleton, hfeed,
      Token.content_cons_of_isLayout rfl]
    exact List.append_nil _
  refine ⟨depthBehind_eq_of_content hcontent 0, ?_, hcontent⟩
  rw [lineColumns_concat, beginsLine_feed hfeed, if_neg nofun, List.append_nil]

/-- The tokens that open and close blocks before a line. -/
theorem enter (h : Laid before ts s) (hempty : s.lineIsEmpty = true) {width : Nat}
    {blocks : List Token} {left : List Nat}
    (henter : enterLine width s.columns = some (blocks, left)) :
    InOrder (ts ++ blocks) ∧
      Token.opened (ts ++ blocks) = Token.closed (ts ++ blocks) + (left.length - 1) := by
  have hnesting := h.nesting
  rw [Token.opened_append, Token.closed_append]
  obtain ⟨-, ⟨rfl, hne, hlength⟩ | ⟨n, rfl, hlength⟩⟩ := of_enterLine h.pairwise_columns henter
  · have hlast : ts.getLast? = some .newline :=
      (h.behindLine hempty).resolve_left fun hnone => hne hnone.2
    refine ⟨h.inOrder.concat hlast, ?_⟩
    have := List.length_pos_iff.mpr hne
    change _ + 1 = _ + 0 + _
    omega
  · refine ⟨?_, by rw [Token.opened_dedents, Token.closed_dedents]; omega⟩
    rcases h.behindLine hempty with ⟨rfl, hnone⟩ | hlast
    · obtain rfl : n = 0 := by
        rw [hnone] at hlength
        simp at hlength
        omega
      exact .nil
    · obtain ⟨front, rfl⟩ := List.getLast?_eq_some_iff.mp hlast
      rw [List.append_assoc]
      refine h.inOrder.dedents ?_
      rw [h.pending]
      omega

/-- What is known behind a line feed that leaves no token. -/
theorem skip (h : Laid before ts s) (hfeed : l.token = .newline) {lineStart : Nat}
    (hline : s.lineIsEmpty = (s.depth == 0)) (hstart : s.lineIsEmpty = true → lineStart = l.stop) :
    Laid (before ++ [l]) ts { s with lineStart := lineStart } := by
  obtain ⟨hdepth, hcolumns, hcontent⟩ := of_feed hfeed before
  exact {
    depth := h.depth.trans hdepth.symm
    columns := by rw [hcolumns]; exact h.columns
    based := by rw [hcolumns]; exact h.based
    lineIsEmpty := by rw [lineIsOver_feed hfeed, ← h.depth]; exact hline
    lineStart := fun hempty => by rw [stopOf_concat]; exact hstart hempty
    content := h.content.trans hcontent.symm
    nesting := h.nesting
    inOrder := h.inOrder
    outside := h.outside
    behindToken := h.behindToken
    behindLine := h.behindLine }

/-- What is known behind a newline. -/
theorem endLine (h : Laid before ts s) (hfeed : l.token = .newline) (hdepth : s.depth = 0)
    (hline : s.lineIsEmpty = false) :
    Laid (before ++ [l]) (ts ++ [.newline])
      { s with lineStart := l.stop, lineIsEmpty := true, lastStop := l.stop } := by
  obtain ⟨hbehind, hcolumns, hcontent⟩ := of_feed hfeed before
  have hnewline : Token.content (ts ++ [.newline]) = Token.content ts := by
    rw [Token.content_append, Token.content_cons_of_isLayout rfl]
    exact List.append_nil _
  exact {
    depth := h.depth.trans hbehind.symm
    columns := by rw [hcolumns]; exact h.columns
    based := by rw [hcolumns]; exact h.based
    lineIsEmpty := by rw [lineIsOver_feed hfeed, ← h.depth, hdepth]; rfl
    lineStart := fun _ => (stopOf_concat ..).symm
    content := by rw [hnewline, h.content, hcontent]
    nesting := by rw [Token.opened_append, Token.closed_append]; exact h.nesting
    inOrder := h.inOrder.concat (h.behindToken hline)
    outside := h.outside.concat fun _ => h.depthBehind_eq.trans hdepth
    behindToken := nofun
    behindLine := fun _ => .inr (List.getLast?_concat ..) }

/-- What is known behind a lexeme that is no line feed and the blocks opened and closed before it.
-/
theorem token (h : Laid before ts s) (hfeed : l.token ≠ .newline) (hl : l.token.isLayout = false)
    (blocks : List Token) (left : List Nat) (lineStart : Nat)
    (hblocks : ∀ t ∈ blocks, t.isLayout = true) (houtside : OutsideBrackets (ts ++ blocks))
    (horder : InOrder (ts ++ blocks))
    (hnesting : Token.opened (ts ++ blocks) = Token.closed (ts ++ blocks) + (left.length - 1))
    (hcolumns : left = openBlocks (lineColumns (before ++ [l])))
    (hbased : ∀ base, (lineColumns (before ++ [l])).head? = some base → Spaced.Based base left) :
    Laid (before ++ [l]) (ts ++ (blocks ++ [l.token]))
      ⟨left, depthAfter s.depth l.token, lineStart, false, l.stop⟩ := by
  have hsame : Token.content (ts ++ blocks) = Token.content (before.map Lexeme.token) := by
    rw [Token.content_append, Token.content_eq_nil hblocks, List.append_nil, h.content]
  have hno : l.token ≠ .indent ∧ l.token ≠ .dedent := by
    constructor <;> intro heq <;> rw [heq] at hl <;> cases hl
  rw [← List.append_assoc]
  exact {
    depth := by
      rw [h.depth, List.map_append, depthBehind_append]
      rfl
    columns := hcolumns
    based := hbased
    lineIsEmpty := (lineIsOver_token hfeed before).symm
    lineStart := nofun
    content := by rw [Token.content_append, hsame, List.map_append, Token.content_append]; rfl
    nesting := by
      rw [Token.opened_append, Token.closed_append, Token.opened_cons_of_ne hno.1,
        Token.closed_cons_of_ne hno.2]
      exact hnesting
    inOrder := horder.concat (mayFollow_of_isLayout_eq_false hl _)
    outside := houtside.concat fun hlayout => absurd hlayout (by rw [hl]; nofun)
    behindToken := fun _ => ⟨l.token, List.getLast?_concat .., hl⟩
    behindLine := nofun }

/-- The base of the blocks that are open on a line is the column of the first line. -/
theorem based_enter (h : Laid before ts s) {width : Nat} {blocks : List Token} {left : List Nat}
    (henter : enterLine width s.columns = some (blocks, left)) (base : Nat)
    (hbase : (lineColumns before ++ [width]).head? = some base) : Spaced.Based base left := by
  cases hlines : lineColumns before with
  | nil =>
    rw [hlines] at hbase
    cases hbase
    rw [h.columns, hlines] at henter
    cases henter
    exact .single width
  | cons first others =>
    rw [hlines] at hbase
    exact (h.based base (by rw [hlines]; exact hbase)).of_enterLine henter

/-- The layout keeps what is known. -/
theorem step (h : Laid before ts s) (hstep : Step s l tokens s')
    (hl : l.token ≠ .newline → l.token.isLayout = false) :
    Laid (before ++ [l]) (ts ++ tokens.map PlacedToken.token) s' := by
  cases hstep with
  | inBrackets hfeed hinside =>
    have hline : s.lineIsEmpty = false := by
      cases hempty : s.lineIsEmpty with
      | false => rfl
      | true => exact absurd (h.depth_eq_zero hempty) hinside
    rw [List.map_nil, List.append_nil]
    exact h.skip hfeed (by simp [hline, hinside]) (by simp [hline])
  | emptyLine hfeed houtside hempty =>
    rw [List.map_nil, List.append_nil]
    exact h.skip hfeed (by simp [hempty, houtside]) fun _ => rfl
  | lineEnd hfeed houtside hline => exact h.endLine hfeed houtside hline
  | @first hfeed hempty blocks columns henter =>
    have hlayout := isLayout_of_mem_enterLine henter
    have hlines : lineColumns (before ++ [l]) = lineColumns before ++ [column before l] := by
      rw [lineColumns_concat, beginsLine_token hfeed, ← h.lineIsEmpty, if_pos hempty]
    obtain ⟨horder, hnesting⟩ := h.enter hempty henter
    rw [h.column_eq hempty] at henter
    have hleft := (of_enterLine h.pairwise_columns henter).1
    have houtside := h.outside.append (h.depthBehind_eq.trans (h.depth_eq_zero hempty)) hlayout
    have hnext := h.token hfeed (hl hfeed) blocks columns s.lineStart hlayout houtside horder
      hnesting (by rw [hlines, openBlocks_concat, ← h.columns, hleft])
      (by rw [hlines]; exact h.based_enter henter)
    simpa [Function.comp_def] using hnext
  | onLine hfeed hline =>
    have hlines : lineColumns (before ++ [l]) = lineColumns before := by
      rw [lineColumns_concat, beginsLine_token hfeed, ← h.lineIsEmpty, hline, if_neg nofun,
        List.append_nil]
    have hnext := h.token hfeed (hl hfeed) [] s.columns s.lineStart nofun
      (by rw [List.append_nil]; exact h.outside) (by rw [List.append_nil]; exact h.inOrder)
      (by rw [List.append_nil]; exact h.nesting) (by rw [hlines]; exact h.columns)
      (by rw [hlines]; exact h.based)
    simpa [hline] using hnext

/-- What is known is known wherever the layout has got to. -/
theorem steps {ls : List Lexeme} (h : Laid before ts s) (hsteps : Steps s ls tokens s')
    (hls : ∀ l ∈ ls, l.token ≠ .newline → l.token.isLayout = false) :
    Laid (before ++ ls) (ts ++ tokens.map PlacedToken.token) s' := by
  induction hsteps generalizing before ts with
  | nil =>
    rw [List.map_nil, List.append_nil, List.append_nil]
    exact h
  | @cons s s' s'' l ls front back hstep _ ih =>
    obtain ⟨hl, hls⟩ := List.forall_mem_cons.mp hls
    have hnext := ih (h.step hstep hl) hls
    rw [List.append_assoc, List.append_assoc] at hnext
    rw [List.map_append]
    exact hnext

end Laid

/-! ### Whole sources -/

/-- Behind a token at the end of a source or behind it only blocks end. -/
theorem isLayout_of_split_ending {front us vs : List Token} {t : Token} {n : Nat}
    (h : front ++ .newline :: List.replicate n .dedent = us ++ t :: vs)
    (hfront : ∀ others, front ≠ us ++ t :: others) : ∀ u ∈ vs, u.isLayout = true := by
  have hdedent : ∀ u ∈ vs, u ∈ List.replicate n Token.dedent := by
    rcases List.append_eq_append_iff.mp h with ⟨others, rfl, hrest⟩ | ⟨others, rfl, hrest⟩
    · cases others with
      | nil =>
        cases hrest
        exact fun _ hu => hu
      | cons u others =>
        intro v hv
        rw [(List.cons.inj hrest).2]
        exact List.mem_append_right _ (List.mem_cons_of_mem _ hv)
    · cases others with
      | nil =>
        cases hrest
        exact fun _ hu => hu
      | cons u others =>
        cases hrest
        exact absurd rfl (hfront others)
  intro u hu
  rw [List.eq_of_mem_replicate (hdedent u hu)]
  rfl

/-- Tokens in order that end with a newline are well formed once the blocks that they leave open are
closed. -/
theorem wellLaid_of_ending {front : List Token} (horder : InOrder (front ++ [.newline]))
    (houtside : OutsideBrackets front) :
    WellLaid (front ++
      .newline :: List.replicate (Token.opened front - Token.closed front) .dedent) := by
  have hnested := horder.nested (List.prefix_append ..)
  have hall := horder.dedents (Nat.le_refl _)
  have hclosed := Token.closed_ending front (Token.opened front - Token.closed front)
  have hopened := Token.opened_ending front (Token.opened front - Token.closed front)
  refine {
    nested := fun us hus => hall.nested hus
    balanced := by omega
    ending := .inr ⟨front, rfl⟩
    newlineOnce := fun us vs heq => InOrder.not_newline_newline (heq ▸ hall)
    indentBetween := fun us vs heq => ⟨hall us _ vs heq, ?_⟩
    dedentBehind := fun us vs heq => (hall us _ vs heq).2
    outsideBrackets := fun us t vs heq ht hopen => isLayout_of_split_ending heq fun others hfront =>
      Nat.ne_of_gt hopen (houtside us t others hfront ht) }
  cases vs with
  | nil =>
    -- a block that opens at the very end would stay open
    have hbefore := hall.nested ⟨[.indent], heq.symm⟩
    rw [heq, Token.closed_append] at hclosed
    rw [heq, Token.opened_append] at hopened
    change _ + 0 = _ at hclosed
    change _ + 1 = _ at hopened
    omega
  | cons t vs => exact ⟨t, rfl, InOrder.isLayout_behind_indent (heq ▸ hall)⟩

/-- An empty source is laid out well. -/
theorem wellLaid_nil : WellLaid [] where
  nested front h := by
    rw [List.prefix_nil.mp h]
    exact Nat.le_refl 0
  balanced := rfl
  ending := .inl rfl
  newlineOnce front back h := by simp at h
  indentBetween front back h := by simp at h
  dedentBehind front back h := by simp at h
  outsideBrackets front t back h := by simp at h

/-- Behind what is laid out the end of the source leaves well-formed tokens. -/
theorem Laid.wellLaid {before : List Lexeme} {ts : List Token} {s : State}
    (h : Laid before ts s) : WellLaid (ts ++ (closing s).map PlacedToken.token) := by
  have hnesting := h.nesting
  rw [closing_tokens]
  cases hline : s.lineIsEmpty with
  | true =>
    rcases h.behindLine hline with ⟨rfl, hnone⟩ | hlast
    · rw [hnone]
      exact wellLaid_nil
    · obtain ⟨front, rfl⟩ := List.getLast?_eq_some_iff.mp hlast
      have houtside : OutsideBrackets front := h.outside.of_prefix (List.prefix_append ..)
      rw [if_pos rfl, List.nil_append, ← h.pending, List.append_assoc]
      exact wellLaid_of_ending h.inOrder houtside
  | false =>
    have hopen : Token.opened ts - Token.closed ts = s.columns.length - 1 := by omega
    rw [if_neg nofun, ← hopen]
    exact wellLaid_of_ending (h.inOrder.concat (h.behindToken hline)) h.outside

/-- The tokens of a source before the line that begins with lexeme `l` behind `before`: among them
as many blocks stand open as there are columns above that of the first line among those of the
blocks that are open on the line. The innermost of these is at the column of the line. -/
def EntersLine (before : List Lexeme) (l : Lexeme) (placed : List PlacedToken) : Prop :=
  ∃ front back above base, placed = front ++ ⟨l.token, l.start, l.stop⟩ :: back ∧
    Token.content (front.map PlacedToken.token) = Token.content (before.map Lexeme.token) ∧
    openBlocks (lineColumns before ++ [column before l]) = above ++ [base] ∧
    (above ++ [base]).Pairwise (· > ·) ∧
    (above ++ [base]).head? = some (column before l) ∧
    (lineColumns before ++ [column before l]).head? = some base ∧
    Token.opened (front.map PlacedToken.token) =
      Token.closed (front.map PlacedToken.token) + above.length

/-- Some logical line is out of line. -/
def HasLineOutOfLine (ls : List Lexeme) : Prop :=
  ∃ before l after, ls = before ++ l :: after ∧ beginsLine before l = true ∧
    OutOfLine (openBlocks (lineColumns before)) (column before l)

section Run

variable {us vs : List Lexeme} {l : Lexeme} {placed : List PlacedToken}

/-- The first lexeme of a line is laid out behind what stands before it. -/
theorem exists_first_of_run
    (hls : ∀ m ∈ us ++ l :: vs, m.token ≠ .newline → m.token.isLayout = false)
    (h : run .initial (us ++ l :: vs) = .ok placed) (hbegins : beginsLine us l = true) :
    ∃ tokens s blocks left back, Laid us (tokens.map PlacedToken.token) s ∧
      s.lineIsEmpty = true ∧ enterLine (column us l) s.columns = some (blocks, left) ∧
      placed = tokens ++ blocks.map (⟨·, l.start, l.start⟩) ++
        ⟨l.token, l.start, l.stop⟩ :: back := by
  obtain ⟨tokens, s', hsteps, rfl⟩ := steps_of_run_eq_ok h
  obtain ⟨front, back, s, rfl, hfront, hback⟩ := hsteps.split
  have hlaid := Laid.initial.steps hfront fun m hm => hls m (List.mem_append_left _ hm)
  have hfeed : l.token ≠ .newline := by
    intro hfeed
    rw [beginsLine_feed hfeed] at hbegins
    cases hbegins
  have hempty : s.lineIsEmpty = true := by
    rw [hlaid.lineIsEmpty, List.nil_append, ← beginsLine_token hfeed, hbegins]
  cases hback with
  | @cons _ _ _ _ _ _ others hstep _ =>
    cases hstep with
    | inBrackets hl | emptyLine hl | lineEnd hl => exact absurd hl hfeed
    | onLine _ hline =>
      rw [hempty] at hline
      cases hline
    | first _ _ henter =>
      rw [hlaid.column_eq hempty] at henter
      exact ⟨front, s, _, _, others ++ closing s', hlaid, hempty, henter, by simp⟩

/-- The first token of a line is entered as the columns before it say. -/
theorem entersLine_of_run
    (hls : ∀ m ∈ us ++ l :: vs, m.token ≠ .newline → m.token.isLayout = false)
    (h : run .initial (us ++ l :: vs) = .ok placed) (hbegins : beginsLine us l = true) :
    EntersLine us l placed := by
  obtain ⟨tokens, s, blocks, left, back, hlaid, hempty, henter, rfl⟩ :=
    exists_first_of_run hls h hbegins
  have hblocks := Token.content_eq_nil (isLayout_of_mem_enterLine henter)
  have hleft : left = openBlocks (lineColumns us ++ [column us l]) := by
    rw [(of_enterLine hlaid.pairwise_columns henter).1, hlaid.columns, openBlocks_concat]
  have hne : lineColumns us ++ [column us l] ≠ [] := by simp
  obtain ⟨base, hbase⟩ : ∃ base, (lineColumns us ++ [column us l]).head? = some base :=
    ⟨_, List.head?_eq_some_head hne⟩
  obtain ⟨above, rfl, -⟩ := hlaid.based_enter henter base hbase
  have hfront : (tokens ++ blocks.map fun t => (⟨t, l.start, l.start⟩ : PlacedToken)).map
      PlacedToken.token = tokens.map PlacedToken.token ++ blocks := by
    simp [Function.comp_def]
  refine ⟨tokens ++ blocks.map (⟨·, l.start, l.start⟩), back, above, base, rfl, ?_, hleft.symm, ?_,
    ?_, hbase, ?_⟩
  · rw [hfront, Token.content_append, hblocks, List.append_nil, hlaid.content]
  · rw [hleft]
    exact pairwise_openBlocks _
  · rw [hleft, openBlocks_concat]
    rfl
  · rw [hfront, (hlaid.enter hempty henter).2]
    simp

/-- A layout fails when a line is out of line. -/
theorem run_eq_error_iff {ls : List Lexeme}
    (hls : ∀ m ∈ ls, m.token ≠ .newline → m.token.isLayout = false) :
    (∃ e, run .initial ls = .error e ∧ e.fault = .unindent) ↔ HasLineOutOfLine ls := by
  constructor
  · rintro ⟨e, h, -⟩
    obtain ⟨us, l, vs, tokens, s, rfl, hsteps, hstuck, -⟩ := stuck_of_run_eq_error h
    have hlaid := Laid.initial.steps hsteps fun m hm => hls m (List.mem_append_left _ hm)
    refine ⟨us, l, vs, rfl, ?_, ?_⟩
    · rw [beginsLine_token hstuck.noFeed]
      exact hlaid.lineIsEmpty.symm.trans hstuck.isEmpty
    · have hcolumns : s.columns = openBlocks (lineColumns us) := hlaid.columns
      rw [← hcolumns, ← enterLine_eq_none_iff hlaid.pairwise_columns]
      have hmisplaced := hstuck.misplaced
      rw [hlaid.column_eq hstuck.isEmpty] at hmisplaced
      exact hmisplaced
  · rintro ⟨us, l, vs, rfl, hbegins, hout⟩
    cases h : run .initial (us ++ l :: vs) with
    | error e =>
      obtain ⟨_, m, _, _, _, _, _, _, rfl⟩ := stuck_of_run_eq_error h
      exact ⟨_, rfl, rfl⟩
    | ok placed =>
      obtain ⟨tokens, s, blocks, left, back, hlaid, _, henter, -⟩ :=
        exists_first_of_run hls h hbegins
      rw [← hlaid.columns, ← enterLine_eq_none_iff hlaid.pairwise_columns, henter] at hout
      cases hout

end Run

end Layout

/-! ### Sources -/

/-- A text that cannot be cut into lexemes has another fault than its line structure. -/
theorem Lexeme.fault_of_scanFrom_eq_error {previous : Option Char} {start : Nat} {cs : List Char}
    {e : SyntaxError} (h : scanFrom previous start cs = .error e) :
    ∃ text, e.fault = .unexpectedText text := by
  fun_induction scanFrom previous start cs with
  | case1 => cases h
  | case2 =>
    cases h
    exact ⟨_, rfl⟩
  | case3 previous start c cs next stop hread ih => exact ih h
  | case4 previous start c cs next stop token hread ih =>
    cases hrest : scanFrom next.taken.getLast? stop next.rest with
    | error e' =>
      rw [hrest] at h
      cases h
      exact ih hrest
    | ok ls =>
      rw [hrest] at h
      cases h

/-- Of the tokens that stand for line structure only newlines are lexemes of a source. -/
theorem isLayout_of_mem_fold {source : List Char} {ls : List Lexeme}
    (h : Lexeme.scan source = .ok ls) :
    ∀ l ∈ Flag.fold ls, l.token ≠ .newline → l.token.isLayout = false := by
  have hscan := Spaced.scanFrom_eq none 0 0 source
  rw [Nat.add_zero, show Lexeme.scanFrom none 0 source = .ok ls from h] at hscan
  obtain ⟨us, -, rfl⟩ := Option.map_eq_some_iff.mp hscan.symm
  have htokens := Lexeme.lexed_of_scanFrom h
  rw [Spaced.map_token_placed] at htokens
  have hus : ∀ m ∈ us, m.token ≠ .newline → m.token.isLayout = false := fun m hm hfeed =>
    Bool.eq_false_iff.mpr fun hlayout =>
      hfeed (Lexeme.eq_newline_of_mem_lexed htokens (List.mem_map_of_mem hm) hlayout)
  intro l hl
  rw [Flag.fold, Spaced.foldFrom_placed] at hl
  have hmem := List.mem_map_of_mem (f := Lexeme.token) hl
  rw [Spaced.map_token_placed] at hmem
  obtain ⟨m, hm, hml⟩ := List.mem_map.mp hmem
  rw [← hml]
  exact Spaced.forall_token_fold (P := fun t => t ≠ .newline → t.isLayout = false)
    (fun _ _ => rfl) hus m hm

/-- The tokens of a source have well-formed line structure and tell the blocks around every logical
line. A source whose lexemes can be read has no tokens for one reason only: one of its lines is out
of line. -/
theorem tokenize_wellLaid (source : String) :
    (∀ placed, tokenize source = .ok placed →
      Layout.WellLaid (placed.map PlacedToken.token) ∧
        ∃ ls, Lexeme.scan source.toList = .ok ls ∧
          ∀ before l after, Flag.fold ls = before ++ l :: after →
            Layout.beginsLine before l = true → Layout.EntersLine before l placed) ∧
    ((∃ e, tokenize source = .error e ∧ e.fault = .unindent) ↔
      ∃ ls, Lexeme.scan source.toList = .ok ls ∧ Layout.HasLineOutOfLine (Flag.fold ls)) := by
  unfold tokenize
  cases hscan : Lexeme.scan source.toList with
  | error e =>
    refine ⟨nofun, iff_of_false ?_ nofun⟩
    rintro ⟨_, heq, hfault⟩
    cases heq
    obtain ⟨text, htext⟩ := Lexeme.fault_of_scanFrom_eq_error hscan
    rw [htext] at hfault
    cases hfault
  | ok ls =>
    have hls := isLayout_of_mem_fold hscan
    constructor
    · intro placed h
      obtain ⟨tokens, s, hsteps, rfl⟩ := Layout.steps_of_run_eq_ok h
      have hlaid := Layout.Laid.initial.steps hsteps hls
      refine ⟨?_, ls, rfl, fun before l after heq hbegins => ?_⟩
      · rw [List.map_append]
        exact hlaid.wellLaid
      · change Layout.run .initial (Flag.fold ls) = _ at h
        rw [heq] at h hls
        exact Layout.entersLine_of_run hls h hbegins
    · refine (Layout.run_eq_error_iff hls).trans ⟨fun h => ⟨ls, rfl, h⟩, ?_⟩
      rintro ⟨_, heq, h⟩
      cases heq
      exact h

/-- A line further to the right than the one before it. -/
theorem tokenize_wellLaid_block :
    let placed : List PlacedToken := [⟨.identifier "x", 0, 1⟩, ⟨.newline, 1, 2⟩, ⟨.indent, 4, 4⟩,
      ⟨.identifier "y", 4, 5⟩, ⟨.newline, 5, 5⟩, ⟨.dedent, 5, 5⟩]
    tokenize "x\n  y" = .ok placed ∧ Layout.WellLaid (placed.map PlacedToken.token) ∧
      ∃ ls, Lexeme.scan "x\n  y".toList = .ok ls ∧
        ∀ before l after, Flag.fold ls = before ++ l :: after →
          Layout.beginsLine before l = true → Layout.EntersLine before l placed := by
  intro placed
  have htokens : tokenize "x\n  y" = .ok placed := by with_unfolding_all rfl
  exact ⟨htokens, (tokenize_wellLaid "x\n  y").1 placed htokens⟩

end ScriptShell
