import ScriptShell.Proofs.Token.Lexed

/-!
# What later passes leave of the tokens of a text

Making flags whole joins minus signs, words and integers, and the layout adds and drops tokens for
line structure. Where no flag is made, all other tokens are left as they are.
-/

namespace ScriptShell

namespace Token

/-- The tokens that do not stand for line structure. -/
def content (ts : List Token) : List Token := ts.filter fun t => !t.isLayout

theorem content_append (us vs : List Token) : content (us ++ vs) = content us ++ content vs :=
  List.filter_append ..

theorem content_cons {t : Token} (h : t.isLayout = false) (ts : List Token) :
    content (t :: ts) = t :: content ts := by
  unfold content
  rw [List.filter_cons_of_pos (by simp [h])]

theorem content_cons_of_isLayout {t : Token} (h : t.isLayout = true) (ts : List Token) :
    content (t :: ts) = content ts := by
  unfold content
  rw [List.filter_cons_of_neg (by simp [h])]

/-- Where nothing stands for line structure all is content. -/
theorem content_eq_self {ts : List Token} (h : ∀ t ∈ ts, t.isLayout = false) : content ts = ts := by
  refine List.filter_eq_self.mpr fun t ht => ?_
  rw [h t ht]
  rfl

/-- Where all stands for line structure nothing is content. -/
theorem content_eq_nil {ts : List Token} (h : ∀ t ∈ ts, t.isLayout = true) : content ts = [] := by
  refine List.filter_eq_nil_iff.mpr fun t ht => ?_
  rw [h t ht]
  exact nofun

@[simp] theorem content_replicate_newline (n : Nat) : content (List.replicate n .newline) = [] :=
  content_eq_nil fun t ht => by rw [List.eq_of_mem_replicate ht]; rfl

/-- Where one token is all the content, newlines stand around it, if no other tokens for line
structure do. -/
theorem exists_of_content_eq_singleton {t : Token} {ts : List Token} (h : content ts = [t])
    (hfeed : ∀ u ∈ ts, u.isLayout = true → u = .newline) :
    ∃ n m, ts = List.replicate n .newline ++ t :: List.replicate m .newline := by
  induction ts with
  | nil => cases h
  | cons u ts ih =>
    obtain ⟨hu, hts⟩ := List.forall_mem_cons.mp hfeed
    cases hlayout : u.isLayout with
    | true =>
      rw [content_cons_of_isLayout hlayout] at h
      obtain ⟨n, m, rfl⟩ := ih h hts
      rw [hu hlayout]
      exact ⟨n + 1, m, rfl⟩
    | false =>
      rw [content_cons hlayout] at h
      obtain ⟨rfl, hnone⟩ := List.cons.inj h
      refine ⟨0, ts.length, ?_⟩
      have hall : ∀ v ∈ ts, v = .newline := by
        intro v hv
        refine hts v hv ?_
        simpa using List.filter_eq_nil_iff.mp hnone v hv
      rw [List.replicate_zero, List.nil_append, ← List.eq_replicate_of_mem hall]

theorem isLayout_of_standsInExpr {t : Token} (h : t.standsInExpr = true) : t.isLayout = false := by
  unfold isLayout
  split
  all_goals first
    | rfl
    | cases h

theorem isNoFlag_of_isLayout {t : Token} (h : t.isLayout = true) : t.isNoFlag = true := by
  unfold isLayout at h
  split at h
  · rfl
  · rfl
  · rfl
  · cases h

end Token

/-! ### Layout -/

/-- The layout keeps the content. -/
theorem Layout.content_of_run {s : State} {ls : List Lexeme} {ts : List PlacedToken}
    (h : run s ls = .ok ts) :
    Token.content (ts.map PlacedToken.token) = Token.content (ls.map Lexeme.token) := by
  induction ls generalizing s ts with
  | nil =>
    cases h
    rw [closing_tokens, Token.content_append, List.map_nil, Token.content_eq_nil,
      Token.content_eq_nil]
    · rfl
    · intro t ht
      rw [List.eq_of_mem_replicate ht]
      rfl
    · intro t ht
      split at ht
      · cases ht
      · rw [List.mem_singleton.mp ht]
        rfl
  | cons l ls ih =>
    rw [List.map_cons]
    cases lexemeLaid_of_run h with
    | skipped s' ts' hfeed _ hnext htokens =>
      rw [htokens, ih hnext, hfeed]
      rfl
    | lineEnd s' ts' hfeed _ _ hnext htokens =>
      rw [htokens, hfeed]
      exact ih hnext
    | token s' ts' blocks hfeed _ hblocks _ hnext htokens =>
      have hnone : Token.content blocks = [] := by
        refine Token.content_eq_nil fun t ht => ?_
        rcases hblocks t ht with rfl | rfl <;> rfl
      rw [htokens, Token.content_append, hnone, List.nil_append]
      unfold Token.content at ih ⊢
      rw [List.filter_cons, List.filter_cons, ih hnext]

/-! ### Flags -/

namespace Flag

/-- A flag starts with a minus sign. -/
theorem minus_of_startsWith {l next : Lexeme} (h : startsWith l next = true) :
    l.token = .symbol .minus := by
  unfold startsWith at h
  split at h
  · assumption
  · cases h

/-- No minus sign stands right behind an operand, where it could start a flag; `afterOperand` says
whether an operand ends right before the tokens. -/
def Unflagged : Bool → List Token → Prop
  | _, [] => True
  | afterOperand, t :: ts =>
    (afterOperand = true → t ≠ .symbol .minus) ∧ Unflagged t.endsOperand ts

/-- A text without flags can go on with any token but a minus sign. -/
theorem Unflagged.append {afterOperand : Bool} {us vs : List Token} {t : Token}
    (hu : Unflagged afterOperand us) (ht : t ≠ .symbol .minus) (hv : Unflagged t.endsOperand vs) :
    Unflagged afterOperand (us ++ t :: vs) := by
  induction us generalizing afterOperand with
  | nil => exact ⟨fun _ => ht, hv⟩
  | cons u us ih => exact ⟨hu.1, ih hu.2⟩

theorem Unflagged.of_behindOperand {afterOperand : Bool} {ts : List Token}
    (h : Unflagged true ts) : Unflagged afterOperand ts := by
  cases ts with
  | nil => trivial
  | cons t ts => exact ⟨fun _ => h.1 rfl, h.2⟩

/-- A text without flags can go on with whatever has none behind an operand. -/
theorem Unflagged.append_behindOperand {afterOperand : Bool} {us vs : List Token}
    (hu : Unflagged afterOperand us) (hv : Unflagged true vs) :
    Unflagged afterOperand (us ++ vs) := by
  induction us generalizing afterOperand with
  | nil => exact hv.of_behindOperand
  | cons u us ih => exact ⟨hu.1, ih hu.2⟩

theorem Unflagged.behind {afterOperand : Bool} {ts : List Token} (h : Unflagged afterOperand ts) :
    Unflagged false ts := by
  cases ts with
  | nil => trivial
  | cons t ts => exact ⟨nofun, h.2⟩

/-- Where no flag can start in the content none can start. -/
theorem Unflagged.of_content {afterOperand : Bool} {ts : List Token}
    (h : Unflagged afterOperand (Token.content ts)) : Unflagged afterOperand ts := by
  induction ts generalizing afterOperand with
  | nil => trivial
  | cons t ts ih =>
    cases ht : t.isLayout with
    | true =>
      rw [Token.content_cons_of_isLayout ht] at h
      cases t with
      | newline | indent | dedent => exact ⟨nofun, ih h.behind⟩
      | _ => cases ht
    | false =>
      rw [Token.content_cons ht] at h
      exact ⟨h.1, ih h.2⟩

/-- Line feeds at the front start no flag. -/
theorem unflagged_newlines (n : Nat) {ts : List Token} (h : Unflagged false ts) :
    Unflagged false (List.replicate n .newline ++ ts) := by
  induction n with
  | zero => exact h
  | succ n ih => exact ⟨nofun, ih⟩

/-- Where no flag can start none is made. -/
theorem foldFrom_of_unflagged {afterOperand : Bool} {ls : List Lexeme}
    (h : Unflagged afterOperand (ls.map Lexeme.token)) : foldFrom afterOperand ls = ls := by
  fun_induction foldFrom afterOperand ls with
  | case1 afterOperand l next ls hstarts ih =>
    obtain ⟨hoperand, hnext⟩ := Bool.and_eq_true_iff.mp hstarts
    exact absurd (minus_of_startsWith hnext) (h.1 hoperand)
  | case2 afterOperand l next ls _ ih => rw [ih h.2]
  | case3 => rfl

/-- Where there is no flag in the end none was made. -/
theorem foldFrom_eq_self {afterOperand : Bool} {ls : List Lexeme}
    (h : ∀ t ∈ (foldFrom afterOperand ls).map Lexeme.token, t.isNoFlag = true) :
    foldFrom afterOperand ls = ls := by
  fun_induction foldFrom afterOperand ls with
  | case1 afterOperand l next ls _ ih =>
    have hflag := h _ (List.mem_cons_self ..)
    cases hflag
  | case2 afterOperand l next ls _ ih =>
    rw [ih fun t ht => h t (List.mem_cons_of_mem _ ht)]
  | case3 => rfl

end Flag

/-! ### Sources -/

/-- Where no flag is among the tokens of a source its lexemes are laid out as they are cut. -/
theorem exists_run_of_tokenize {source : String} {ts : List PlacedToken}
    (h : tokenize source = .ok ts) (hflag : ∀ t ∈ ts, t.token.isNoFlag = true) :
    ∃ ls, Lexeme.lexed source.toList = some (ls.map Lexeme.token) ∧
      Layout.run .initial ls = .ok ts := by
  obtain ⟨ls, hls, hrun⟩ := exists_of_bind_eq_ok h
  have hfold : Flag.fold ls = ls := by
    refine Flag.foldFrom_eq_self fun t ht => ?_
    cases hlayout : t.isLayout with
    | true => exact Token.isNoFlag_of_isLayout hlayout
    | false =>
      have hmem : t ∈ Token.content ((Flag.fold ls).map Lexeme.token) :=
        List.mem_filter.mpr ⟨ht, by simp [hlayout]⟩
      rw [← Layout.content_of_run hrun] at hmem
      obtain ⟨p, hp, rfl⟩ := List.mem_map.mp (List.mem_filter.mp hmem).1
      exact hflag p hp
  rw [hfold] at hrun
  exact ⟨ls, Lexeme.lexed_of_scanFrom hls, hrun⟩

end ScriptShell
