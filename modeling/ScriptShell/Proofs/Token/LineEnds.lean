import ScriptShell.Proofs.Script.FirstTokens
import ScriptShell.Token.Layout

/-!
# Line ends

What the layout of a source lets follow what. A newline token ends a line that holds a token, so
two newlines never meet, and a source that is an expression with newlines after it has exactly one.
-/

namespace ScriptShell

/-- Two steps in a row both succeed when the whole does. -/
theorem exists_of_bind_eq_ok {ε α β : Type} {r : Except ε α} {next : α → Except ε β} {b : β}
    (h : r >>= next = .ok b) : ∃ a, r = .ok a ∧ next a = .ok b := by
  cases r with
  | error e => cases h
  | ok a => exact ⟨a, rfl, h⟩

/-- Whether a token stands for line structure. -/
def Token.isLayout : Token → Bool
  | .newline | .indent | .dedent => true
  | _ => false

namespace Layout

/-- What one lexeme does: a line feed inside brackets or on an empty line leaves no token, any other
line feed leaves a newline on a line that holds a token, and a lexeme that is no line feed leaves
its token, at the front of a line after the tokens that open and close blocks. -/
inductive LexemeLaid (s : State) (l : Lexeme) (ls : List Lexeme) (ts : List Token) : Prop where
  | skipped (s' : State) (ts' : List PlacedToken) (isFeed : l.token = .newline)
      (sameLine : s'.lineIsEmpty = s.lineIsEmpty) (next : run s' ls = .ok ts')
      (tokens : ts = ts'.map PlacedToken.token) (endsNoLine : s.depth ≠ 0 ∨ s.lineIsEmpty = true)
  | lineEnd (s' : State) (ts' : List PlacedToken) (isFeed : l.token = .newline)
      (holdsToken : s.lineIsEmpty = false) (newLine : s'.lineIsEmpty = true)
      (next : run s' ls = .ok ts') (tokens : ts = .newline :: ts'.map PlacedToken.token)
  | token (s' : State) (ts' : List PlacedToken) (blocks : List Token) (noFeed : l.token ≠ .newline)
      (onlyFirst : s.lineIsEmpty = false → blocks = [])
      (areBlocks : ∀ t ∈ blocks, t = .indent ∨ t = .dedent) (onLine : s'.lineIsEmpty = false)
      (next : run s' ls = .ok ts')
      (tokens : ts = blocks ++ l.token :: ts'.map PlacedToken.token)
      (brackets : s'.depth = depthAfter s.depth l.token)

/-- The tokens that open and close blocks before a line. -/
theorem mem_enterLine {width : Nat} {columns columns' : List Nat} {blocks : List Token}
    (h : enterLine width columns = some (blocks, columns')) :
    ∀ t ∈ blocks, t = .indent ∨ t = .dedent := by
  unfold enterLine at h
  split at h
  · cases h
    exact nofun
  · split at h
    · cases h
      intro t ht
      exact .inl (List.mem_singleton.mp ht)
    · obtain ⟨⟨n, open_⟩, _, he⟩ := Option.map_eq_some_iff.mp h
      cases he
      intro t ht
      exact .inr (List.eq_of_mem_replicate ht)

/-- A layout that succeeds lays out its first lexeme and then the others. -/
theorem lexemeLaid_of_run {s : State} {l : Lexeme} {ls : List Lexeme} {ts : List PlacedToken}
    (h : run s (l :: ls) = .ok ts) : LexemeLaid s l ls (ts.map PlacedToken.token) := by
  rw [run] at h
  split at h
  · next hfeed =>
    split at h
    · split at h
      · next hempty => exact .skipped _ ts hfeed hempty.symm h rfl (.inr hempty)
      · next hempty =>
        obtain ⟨ts', hnext, he⟩ := exists_of_bind_eq_ok h
        cases he
        exact .lineEnd _ ts' hfeed (by simpa using hempty) rfl hnext rfl
    · next hdepth => exact .skipped s ts hfeed rfl h rfl (.inl hdepth)
  · next hfeed =>
    split at h
    · next hempty =>
      split at h
      · cases h
      · next blocks columns henter =>
        obtain ⟨ts', hnext, he⟩ := exists_of_bind_eq_ok h
        cases he
        refine .token _ ts' blocks hfeed (fun hs => ?_) (mem_enterLine henter) rfl hnext ?_ rfl
        · rw [hempty] at hs
          cases hs
        · simp [Function.comp_def]
    · next hempty =>
      obtain ⟨ts', hnext, he⟩ := exists_of_bind_eq_ok h
      cases he
      exact .token _ ts' [] hfeed (fun _ => rfl) nofun (by simpa using hempty) hnext rfl rfl

/-- What a source closes with is a newline if its last line holds a token, and no other. -/
theorem closing_tokens (s : State) :
    (closing s).map PlacedToken.token =
      (if s.lineIsEmpty then [] else [.newline]) ++
        List.replicate (s.columns.length - 1) .dedent := by
  simp [closing, Function.comp_def]

/-- Closed blocks are no part of an expression and no newlines. -/
theorem eq_nil_of_replicate_dedent {k n : Nat} {us : List Token}
    (hus : ∀ u ∈ us, u.standsInExpr = true)
    (h : List.replicate k Token.dedent = us ++ List.replicate n .newline) : us = [] ∧ n = 0 := by
  have hall : ∀ t ∈ us ++ List.replicate n .newline, t = Token.dedent := by
    rw [← h]
    exact fun t => List.eq_of_mem_replicate
  constructor
  · refine List.eq_nil_iff_forall_not_mem.mpr fun u hu => ?_
    have hdedent := hus u hu
    rw [hall u (List.mem_append_left _ hu)] at hdedent
    cases hdedent
  · refine Nat.eq_zero_of_not_pos fun hn => ?_
    have hmem : Token.newline ∈ List.replicate n .newline := List.mem_replicate.mpr ⟨by omega, rfl⟩
    have hnewline := hall .newline (List.mem_append_right _ hmem)
    cases hnewline

/-- The token of a lexeme in front of an expression's tokens and newlines is the first of them, and
no block is opened or closed before it. -/
theorem exists_of_token_front {blocks ts us : List Token} {t : Token} {n : Nat}
    (hblocks : ∀ b ∈ blocks, b = .indent ∨ b = .dedent) (ht : t ≠ .newline)
    (hus : ∀ u ∈ us, u.standsInExpr = true)
    (h : us ++ List.replicate n .newline = blocks ++ t :: ts) :
    ∃ us', us = t :: us' ∧ ts = us' ++ List.replicate n .newline := by
  cases us with
  | nil =>
    have hall : ∀ b ∈ blocks ++ t :: ts, b = Token.newline := by
      rw [← h]
      exact fun b => List.eq_of_mem_replicate
    exact absurd (hall t (by simp)) ht
  | cons u us =>
    cases blocks with
    | nil =>
      obtain ⟨rfl, htail⟩ := List.cons.inj h
      exact ⟨us, rfl, htail.symm⟩
    | cons b blocks =>
      have hu := hus u (List.mem_cons_self ..)
      rw [(List.cons.inj h).1] at hu
      rcases hblocks b (List.mem_cons_self ..) with rfl | rfl
      · cases hu
      · cases hu

/-- Where the tokens laid out are tokens of an expression and newlines after them, there is one
newline, or none if there is no token before it either. -/
theorem newlines_of_run {s : State} {ls : List Lexeme} {ts : List PlacedToken}
    (h : run s ls = .ok ts) {us : List Token} {n : Nat} (hus : ∀ u ∈ us, u.standsInExpr = true)
    (heq : ts.map PlacedToken.token = us ++ List.replicate n .newline) :
    n = if s.lineIsEmpty && us.isEmpty then 0 else 1 := by
  induction ls generalizing s ts us n with
  | nil =>
    cases h
    rw [closing_tokens] at heq
    cases hline : s.lineIsEmpty with
    | true =>
      rw [hline] at heq
      obtain ⟨rfl, rfl⟩ := eq_nil_of_replicate_dedent hus heq
      rfl
    | false =>
      rw [hline] at heq
      cases us with
      | nil =>
        cases n with
        | zero => cases heq
        | succ n =>
          have hrest := (List.cons.inj heq).2
          obtain ⟨_, rfl⟩ := eq_nil_of_replicate_dedent hus hrest
          rfl
      | cons u us =>
        have hu := hus u (List.mem_cons_self ..)
        rw [← (List.cons.inj heq).1] at hu
        cases hu
  | cons l ls ih =>
    cases lexemeLaid_of_run h with
    | skipped s' ts' _ hline hnext htokens =>
      rw [heq] at htokens
      rw [ih hnext hus htokens.symm, hline]
    | lineEnd s' ts' _ hline hnew hnext htokens =>
      rw [heq] at htokens
      cases us with
      | nil =>
        cases n with
        | zero => cases htokens
        | succ n =>
          have hn := ih hnext hus (List.cons.inj htokens).2.symm
          rw [hnew] at hn
          rw [hline, hn]
          rfl
      | cons u us =>
        have hu := hus u (List.mem_cons_self ..)
        rw [(List.cons.inj htokens).1] at hu
        cases hu
    | token s' ts' blocks hfeed _ hblocks hline hnext htokens =>
      rw [heq] at htokens
      obtain ⟨us', rfl, hrest⟩ := exists_of_token_front hblocks hfeed hus htokens
      have hn := ih hnext (fun u hu => hus u (List.mem_cons_of_mem _ hu)) hrest
      rw [hline] at hn
      simpa using hn

end Layout

/-- An expression with newlines after it that is the whole of a source has one newline after it. -/
theorem newlines_of_tokenize {source : String} {ts : List PlacedToken}
    (h : tokenize source = .ok ts)
    {us : List Token} {n : Nat} (hus : ∀ u ∈ us, u.standsInExpr = true) (hne : us ≠ [])
    (heq : ts.map PlacedToken.token = us ++ List.replicate n .newline) : n = 1 := by
  obtain ⟨ls, _, hrun⟩ := exists_of_bind_eq_ok h
  have hn := Layout.newlines_of_run hrun hus heq
  rw [List.isEmpty_eq_false_iff.mpr hne] at hn
  simpa using hn

end ScriptShell
