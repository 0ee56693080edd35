import ScriptShell.Proofs.Script.Acceptance

/-!
# One token of lookahead

What a reader answers is settled by the tokens that it takes and the first one that it leaves: with
other tokens behind that one it answers the same, whether it has read something or got stuck. The
proofs are mutual like the readers and recur on the same measures. The one reader that looks
further, for the sign of an item assignment, is no exception: a name with an index reads on to the
token behind the index in any case.
-/

namespace ScriptShell.Reader

section Answers

variable {α β : Type}

/-- The same answer with other tokens left, be it after what was read or where reading got stuck. -/
def leaving (rest : List Token) :
    Except (List Token) (α × List Token) → Except (List Token) (α × List Token)
  | .ok (a, _) => .ok (a, rest)
  | .error _ => .error rest

/-- The answer to `ts` is the answer to any tokens that start with those taken from `ts` and go on
with the same token as those left. -/
def LooksOneAhead (read : List Token → Except (List Token) (α × List Token))
    (ts : List Token) : Prop :=
  ∃ us stop answer, ts = us ++ stop ∧
    ∀ rest, rest.head? = stop.head? → read (us ++ rest) = leaving rest answer

/-- Lists that go on with the same token start with the same token. -/
theorem head?_append_congr {us rest rest' : List Token} (h : rest.head? = rest'.head?) :
    (us ++ rest).head? = (us ++ rest').head? := by
  cases us with
  | nil => exact h
  | cons u us => rfl

/-- A reader that only looks at the first token and takes none. -/
theorem LooksOneAhead.here {read : List Token → Except (List Token) (α × List Token)}
    {ts : List Token} (answer : Except (List Token) (α × List Token))
    (h : ∀ rest, rest.head? = ts.head? → read rest = leaving rest answer) :
    LooksOneAhead read ts := ⟨[], ts, answer, rfl, h⟩

/-- A reader that gives something back and takes no token. -/
theorem LooksOneAhead.ok (a : α) (ts : List Token) :
    LooksOneAhead (fun rest => .ok (a, rest)) ts := .here (.ok (a, [])) fun _ _ => rfl

/-- A reader that is stuck where it starts. -/
theorem LooksOneAhead.error (ts : List Token) :
    LooksOneAhead (fun rest => (.error rest : Except (List Token) (α × List Token))) ts :=
  .here (.error []) fun _ _ => rfl

/-- Readers that answer the same to lists with this first token. -/
theorem LooksOneAhead.congr {read read' : List Token → Except (List Token) (α × List Token)}
    {ts : List Token} (heq : ∀ ts', ts'.head? = ts.head? → read ts' = read' ts')
    (h : LooksOneAhead read' ts) : LooksOneAhead read ts := by
  obtain ⟨us, stop, answer, rfl, hread⟩ := h
  refine ⟨us, stop, answer, rfl, fun rest hrest => ?_⟩
  rw [heq _ (head?_append_congr hrest), hread rest hrest]

/-- Tokens that are taken in any case stay before what is taken after them. -/
theorem LooksOneAhead.append {read : List Token → Except (List Token) (α × List Token)}
    (vs : List Token) {ts : List Token} (h : LooksOneAhead (fun ts => read (vs ++ ts)) ts) :
    LooksOneAhead read (vs ++ ts) := by
  obtain ⟨us, stop, answer, rfl, hread⟩ := h
  refine ⟨vs ++ us, stop, answer, (List.append_assoc ..).symm, fun rest hrest => ?_⟩
  rw [List.append_assoc]
  exact hread rest hrest

/-- A token that is taken in any case stays before what is taken after it. -/
theorem LooksOneAhead.cons {read : List Token → Except (List Token) (α × List Token)}
    {t : Token} {ts : List Token} (h : LooksOneAhead (fun ts => read (t :: ts)) ts) :
    LooksOneAhead read (t :: ts) := .append [t] h

/-- One reader after another: the first token that the first one leaves is taken by the second or
left by it in turn. -/
theorem LooksOneAhead.bind {read : List Token → Except (List Token) (α × List Token)}
    {next : α × List Token → Except (List Token) (β × List Token)} {ts : List Token}
    (h : LooksOneAhead read ts)
    (hnext : ∀ a rest, read ts = .ok (a, rest) → LooksOneAhead (fun rest => next (a, rest)) rest) :
    LooksOneAhead (fun ts => read ts >>= next) ts := by
  obtain ⟨us, middle, answer, rfl, hread⟩ := h
  rcases answer with stuck | ⟨a, rest⟩
  · refine ⟨us, middle, .error stuck, rfl, fun rest hrest => ?_⟩
    dsimp only
    rw [hread rest hrest]
    rfl
  · obtain ⟨vs, stop, answer, rfl, hgo⟩ := hnext a middle (hread middle rfl)
    refine ⟨us ++ vs, stop, answer, (List.append_assoc ..).symm, fun rest hrest => ?_⟩
    dsimp only
    rw [List.append_assoc, hread _ (head?_append_congr hrest)]
    exact hgo rest hrest

/-- A reader after which only what was read is changed. -/
theorem LooksOneAhead.map {read : List Token → Except (List Token) (α × List Token)}
    (f : α → β) {ts : List Token} (h : LooksOneAhead read ts) :
    LooksOneAhead (fun ts => read ts >>= fun (a, rest) => .ok (f a, rest)) ts :=
  h.bind fun a rest _ => .ok (f a) rest

/-- A reader that goes on behind one token and does otherwise before all others. -/
theorem LooksOneAhead.behind {read go other : List Token → Except (List Token) (α × List Token)}
    (t : Token) {ts : List Token} (htoken : ∀ ts, read (t :: ts) = go ts)
    (hother : ∀ ts, ts.head? ≠ some t → read ts = other ts)
    (hgo : ∀ ts', ts = t :: ts' → LooksOneAhead go ts')
    (hotherwise : ts.head? ≠ some t → LooksOneAhead other ts) : LooksOneAhead read ts := by
  by_cases ht : ts.head? = some t
  · obtain ⟨ts', rfl⟩ := List.head?_eq_some_iff.mp ht
    exact .cons ((hgo ts' rfl).congr fun rest _ => htoken rest)
  · exact (hotherwise ht).congr fun rest hrest => hother rest (hrest ▸ ht)

end Answers

mutual

/-- How an expression is read shows in its tokens and the one behind them. -/
theorem looksOneAhead_expr (ts : List Token) : LooksOneAhead (fun ts => plain (expr ts)) ts := by
  simp only [plain_expr]
  exact looksOneAhead_chain .or ts
termination_by 20 * ts.length + 14
decreasing_by simp [Level.rank]

theorem looksOneAhead_chain (level : Level) (ts : List Token) :
    LooksOneAhead (fun ts => plain (chain level ts)) ts := by
  simp only [plain_chain]
  refine (looksOneAhead_operand level ts).bind fun e rest h => ?_
  have hlt := bound_of_plain h
  exact looksOneAhead_chainTail level e rest
termination_by 20 * ts.length + level.rank
decreasing_by
  · cases level <;> simp [Level.rank]
  · have := level.rank_lt
    omega

/-- A chain looks at the token behind it to see whether it is an operator. -/
theorem looksOneAhead_chainTail (level : Level) (e : Expr) (ts : List Token) :
    LooksOneAhead (fun ts => plain (chainTail level e ts)) ts := by
  rcases hts : ts with _ | ⟨t, ts'⟩
  · refine .here (.ok (e, [])) fun rest hrest => ?_
    rw [List.head?_eq_none_iff.mp hrest, plain_chainTail_nil]
    rfl
  rcases hop : level.operator? t with _ | build
  · refine .here (.ok (e, [])) fun rest hrest => ?_
    obtain ⟨rest', rfl⟩ := List.head?_eq_some_iff.mp hrest
    rw [plain_chainTail_of_none hop]
    rfl
  · apply LooksOneAhead.cons
    simp only [plain_chainTail_of_some hop]
    refine (looksOneAhead_operand level ts').bind fun r rest h => ?_
    have hlt := bound_of_plain h
    exact looksOneAhead_chainTail level (build e r) rest
termination_by 20 * ts.length
decreasing_by
  all_goals have := level.rank_lt
  all_goals simp only [List.length_cons]
  all_goals omega

theorem looksOneAhead_operand (level : Level) (ts : List Token) :
    LooksOneAhead (fun ts => plain (operand level ts)) ts := by
  match level with
  | .or =>
    simp only [plain_operand_or]
    exact looksOneAhead_chain .and ts
  | .and =>
    simp only [plain_operand_and]
    exact looksOneAhead_negation ts
  | .sum =>
    simp only [plain_operand_sum]
    exact looksOneAhead_chain .term ts
  | .term =>
    simp only [plain_operand_term]
    exact looksOneAhead_unary ts
termination_by 20 * ts.length + (level.rank - 1)
decreasing_by all_goals simp [Level.rank]

theorem looksOneAhead_negation (ts : List Token) :
    LooksOneAhead (fun ts => plain (negation ts)) ts := by
  refine .behind (.keyword .negation) plain_negation_not (fun _ => plain_negation_of_ne)
    (fun ts' hts => ?_) (fun _ => looksOneAhead_comparison ts)
  exact (looksOneAhead_negation ts').map _
termination_by 20 * ts.length + 9
decreasing_by
  · simp only [hts, List.length_cons]
    omega
  · omega

/-- A comparison looks at the token behind its first sum to see whether it is a comparison. -/
theorem looksOneAhead_comparison (ts : List Token) :
    LooksOneAhead (fun ts => plain (comparison ts)) ts := by
  simp only [plain_comparison]
  refine (looksOneAhead_chain .sum ts).bind fun l rest h => ?_
  have hlt := bound_of_plain h
  rcases hm : rest with _ | ⟨t, rest'⟩
  · refine .here (.ok (l, [])) fun rest hrest => ?_
    rw [List.head?_eq_none_iff.mp hrest]
    rfl
  rcases hop : comparison? t with _ | op
  · refine .here (.ok (l, [])) fun rest hrest => ?_
    obtain ⟨rest'', rfl⟩ := List.head?_eq_some_iff.mp hrest
    dsimp only
    rw [hop]
    rfl
  · apply LooksOneAhead.cons
    simp only [hop]
    exact (looksOneAhead_chain .sum rest').map _
termination_by 20 * ts.length + 8
decreasing_by
  · simp [Level.rank]
  · simp only [hm, List.length_cons, Level.rank] at hlt ⊢
    omega

theorem looksOneAhead_unary (ts : List Token) : LooksOneAhead (fun ts => plain (unary ts)) ts := by
  refine .behind (.symbol .minus) plain_unary_minus (fun _ => plain_unary_of_ne)
    (fun ts' hts => ?_) (fun _ => looksOneAhead_power ts)
  exact (looksOneAhead_unary ts').map _
termination_by 20 * ts.length + 3
decreasing_by
  · simp only [hts, List.length_cons]
    omega
  · omega

/-- A power looks at the token behind its base to see whether an exponent follows. -/
theorem looksOneAhead_power (ts : List Token) : LooksOneAhead (fun ts => plain (power ts)) ts := by
  simp only [plain_power]
  refine (looksOneAhead_postfixed ts).bind fun e rest h => ?_
  have hlt := bound_of_plain h
  refine .behind (.symbol .power) (fun _ => rfl) (fun ts' hne => ?_) (fun rest' hrest => ?_)
    (fun _ => .ok e rest)
  · dsimp only
    split
    · exact absurd rfl hne
    · rfl
  · dsimp only
    exact (looksOneAhead_unary rest').map _
termination_by 20 * ts.length + 2
decreasing_by
  · omega
  · simp only [hrest, List.length_cons] at hlt
    omega

theorem looksOneAhead_postfixed (ts : List Token) :
    LooksOneAhead (fun ts => plain (postfixed ts)) ts := by
  simp only [plain_postfixed]
  refine (looksOneAhead_atom ts).bind fun e rest h => ?_
  have hlt := bound_of_plain h
  exact looksOneAhead_postfixTail e rest
termination_by 20 * ts.length + 1
decreasing_by all_goals omega

/-- A postfix expression looks at the token behind it to see whether a bracket opens. -/
theorem looksOneAhead_postfixTail (e : Expr) (ts : List Token) :
    LooksOneAhead (fun ts => plain (postfixTail e ts)) ts := by
  by_cases hp : ts.head? = some (.symbol .openParen)
  · obtain ⟨ts', hts⟩ := List.head?_eq_some_iff.mp hp
    rw [hts]
    apply LooksOneAhead.cons
    simp only [plain_postfixTail_call]
    refine (looksOneAhead_items .closeParen ts').bind fun args rest h => ?_
    have hlt := bound_of_plain h
    exact looksOneAhead_postfixTail (.call e args) rest
  by_cases hb : ts.head? = some (.symbol .openBracket)
  · obtain ⟨ts', hts⟩ := List.head?_eq_some_iff.mp hb
    rw [hts]
    apply LooksOneAhead.cons
    simp only [plain_postfixTail_index]
    refine (looksOneAhead_expr ts').bind fun i rest h => ?_
    have hlt := bound_of_plain h
    refine .behind (.symbol .closeBracket) (fun _ => rfl) (fun ts'' hne => ?_)
      (fun rest' hrest => looksOneAhead_postfixTail (.index e i) rest') (fun _ => .error rest)
    dsimp only
    split
    · exact absurd rfl hne
    · rfl
  · refine .here (.ok (e, [])) fun rest hrest => ?_
    exact plain_postfixTail_of_ne e (hrest ▸ hp) (hrest ▸ hb)
termination_by 20 * ts.length
decreasing_by
  · simp only [hts, List.length_cons]
    omega
  · simp only [hts, List.length_cons]
    omega
  · simp only [hts, List.length_cons]
    omega
  · simp only [hrest, hts, List.length_cons] at hlt ⊢
    omega

theorem looksOneAhead_atom (ts : List Token) : LooksOneAhead (fun ts => plain (atom ts)) ts := by
  rcases hts : ts with _ | ⟨t, ts'⟩
  · refine .here (.error []) fun rest hrest => ?_
    rw [List.head?_eq_none_iff.mp hrest]
    exact plain_atom_nil
  by_cases hp : t = .symbol .openParen
  · subst hp
    apply LooksOneAhead.cons
    simp only [plain_atom_paren]
    refine (looksOneAhead_expr ts').bind fun e rest h => ?_
    refine .behind (.symbol .closeParen) (fun _ => rfl) (fun ts'' hne => ?_)
      (fun rest' _ => .ok e rest') (fun _ => .error rest)
    dsimp only
    split
    · exact absurd rfl hne
    · rfl
  by_cases hl : t = .symbol .openBracket
  · subst hl
    apply LooksOneAhead.cons
    simp only [plain_atom_list]
    exact (looksOneAhead_items .closeBracket ts').map _
  by_cases hb : t = .symbol .openBrace
  · subst hb
    apply LooksOneAhead.cons
    simp only [plain_atom_dict]
    exact (looksOneAhead_pairs ts').map _
  rcases hleaf : leaf? t with _ | e
  · refine .here (.error []) fun rest hrest => ?_
    obtain ⟨rest', rfl⟩ := List.head?_eq_some_iff.mp hrest
    exact plain_atom_of_none hleaf hp hl hb rest'
  · apply LooksOneAhead.cons
    simp only [plain_atom_leaf hleaf]
    exact .ok e ts'
termination_by 20 * ts.length
decreasing_by
  all_goals simp only [List.length_cons]
  all_goals omega

/-- Items take their closing bracket, and look at nothing behind it. -/
theorem looksOneAhead_items (close : Symbol) (ts : List Token) :
    LooksOneAhead (fun ts => plain (items close ts)) ts := by
  rcases hts : ts with _ | ⟨t, ts'⟩
  · refine .here (.error []) fun rest hrest => ?_
    rw [List.head?_eq_none_iff.mp hrest]
    exact plain_items_nil close
  by_cases hc : t = .symbol close
  · subst hc
    apply LooksOneAhead.cons
    simp only [plain_items_close]
    exact .ok [] ts'
  · rw [← hts]
    refine (looksOneAhead_itemsFrom close ts).congr fun rest hrest => ?_
    rw [hts] at hrest
    obtain ⟨rest', rfl⟩ := List.head?_eq_some_iff.mp hrest
    exact plain_items_of_ne hc rest'
termination_by 20 * ts.length + 16
decreasing_by
  simp only [hts, List.length_cons]
  omega

/-- Behind an item there is one token to look at: a comma, the closing bracket or neither. -/
theorem looksOneAhead_itemsFrom (close : Symbol) (ts : List Token) :
    LooksOneAhead (fun ts => plain (itemsFrom close ts)) ts := by
  simp only [plain_itemsFrom]
  refine (looksOneAhead_expr ts).bind fun e rest h => ?_
  have hlt := bound_of_plain h
  dsimp only
  by_cases hclose : rest.head? = some (.symbol close)
  · obtain ⟨rest', hrest⟩ := List.head?_eq_some_iff.mp hclose
    rw [hrest]
    apply LooksOneAhead.cons
    simp only [if_true]
    exact .ok [e] rest'
  by_cases hcomma : rest.head? = some (.symbol .comma)
  · obtain ⟨rest', hrest⟩ := List.head?_eq_some_iff.mp hcomma
    have hne : Symbol.comma ≠ close := fun he => hclose (he ▸ hcomma)
    rw [hrest]
    apply LooksOneAhead.cons
    simp only [if_neg hne, if_true]
    exact (looksOneAhead_items close rest').map _
  · refine .here (.error []) fun rest' hrest => ?_
    rw [← hrest] at hclose hcomma
    split
    · next sign rest'' =>
      have hsign : sign ≠ close := fun he => hclose (he ▸ rfl)
      have hsign' : sign ≠ .comma := fun he => hcomma (he ▸ rfl)
      rw [if_neg hsign, if_neg hsign']
      rfl
    · rfl
termination_by 20 * ts.length + 15
decreasing_by
  · omega
  · simp only [hrest, List.length_cons] at hlt
    omega

theorem looksOneAhead_pairs (ts : List Token) : LooksOneAhead (fun ts => plain (pairs ts)) ts := by
  refine .behind (.symbol .closeBrace) plain_pairs_close (fun _ => plain_pairs_of_ne)
    (fun ts' _ => .ok [] ts') (fun _ => looksOneAhead_pairsFrom ts)
termination_by 20 * ts.length + 16
decreasing_by omega

/-- Behind a key there is one token to look at, and behind its value another. -/
theorem looksOneAhead_pairsFrom (ts : List Token) :
    LooksOneAhead (fun ts => plain (pairsFrom ts)) ts := by
  simp only [plain_pairsFrom]
  refine (looksOneAhead_expr ts).bind fun k rest h => ?_
  have hlt := bound_of_plain h
  refine .behind (.symbol .colon) (fun _ => rfl) (fun ts' hne => ?_) (fun rest' hrest => ?_)
    (fun _ => .error rest)
  · dsimp only
    split
    · exact absurd rfl hne
    · rfl
  dsimp only
  refine (looksOneAhead_expr rest').bind fun e rest'' h' => ?_
  have hlt' := bound_of_plain h'
  refine .behind (.symbol .closeBrace) (fun _ => rfl) (fun _ _ => rfl)
    (fun final _ => .ok [(k, e)] final) fun hclose => ?_
  refine .behind (.symbol .comma) (fun _ => rfl) (fun _ _ => rfl) (fun final hfinal => ?_)
    fun hcomma => ?_
  · dsimp only
    exact (looksOneAhead_pairs final).map _
  refine .here (.error []) fun final hfinal => ?_
  rw [← hfinal] at hclose hcomma
  dsimp only
  split
  · exact absurd rfl hclose
  · exact absurd rfl hcomma
  · rfl
termination_by 20 * ts.length + 15
decreasing_by
  · omega
  · simp only [hrest, List.length_cons] at hlt
    omega
  · simp only [hrest, hfinal, List.length_cons] at hlt hlt'
    omega

end

/-! ### Statements -/

/-- One token is taken, or is the one that is looked at. -/
theorem looksOneAhead_exactly (p : Token → Bool) (ts : List Token) :
    LooksOneAhead (fun ts => plain (exactly p ts)) ts := by
  rcases ts with _ | ⟨t, ts⟩
  · refine .here (.error []) fun rest hrest => ?_
    rw [List.head?_eq_none_iff.mp hrest]
    rfl
  by_cases hp : p t = true
  · apply LooksOneAhead.cons
    simp only [plain_exactly hp]
    exact .ok () ts
  · refine .here (.error []) fun rest hrest => ?_
    obtain ⟨rest', rfl⟩ := List.head?_eq_some_iff.mp hrest
    rw [exactly, if_neg hp]
    rfl

theorem looksOneAhead_identifier (ts : List Token) :
    LooksOneAhead (fun ts => plain (identifier ts)) ts := by
  rcases ts with _ | ⟨t, ts⟩
  · refine .here (.error []) fun rest hrest => ?_
    rw [List.head?_eq_none_iff.mp hrest]
    rfl
  cases t with
  | identifier name => exact .cons (.ok name ts)
  | _ =>
    refine .here (.error []) fun rest hrest => ?_
    obtain ⟨rest', rfl⟩ := List.head?_eq_some_iff.mp hrest
    rfl

theorem looksOneAhead_bareExpr (ts : List Token) :
    LooksOneAhead (fun ts => plain (bareExpr ts)) ts := by
  simp only [plain_bareExpr]
  exact (looksOneAhead_expr ts).map _

/-- A name before anything else is taken as an expression or as the start of one. -/
theorem plain_expr_name (name : String) :
    plain (expr [.identifier name]) = .ok (.name name, []) := by
  have hnothing : Parted 7 [] := nofun
  exact (ExprRule.Derives.of_postfixed (.ofAtom .name)).plain_expr hnothing

/-- The tokens of an index in brackets and the sign that assigns to it. -/
def assignedItem (us rest : List Token) : List Token :=
  .symbol .openBracket :: us ++ .symbol .closeBracket :: .symbol .assign :: rest

/-- What an item is assigned in starts with an expression in brackets and an equals sign. -/
theorem exists_assignedItem {ts : List Token} {index : Expr} {rest : Shorter ts}
    (h : itemTarget? ts = some (index, rest)) :
    ∃ us, ts = assignedItem us rest.1 ∧ ExprRule.or.Derives us index := by
  obtain ⟨ts', hts, hx⟩ := exists_of_itemTarget? h
  obtain ⟨us, rfl, hd⟩ := takes_expr hx
  exact ⟨us, hts, hd⟩

/-- An expression in brackets and an equals sign are the target of an assignment. -/
theorem itemTarget?_assignedItem {us : List Token} {index : Expr}
    (h : ExprRule.or.Derives us index) (rest : List Token) :
    ∃ hr, itemTarget? (assignedItem us rest) = some (index, ⟨rest, hr⟩) :=
  itemTarget?_bracket _ (h.plain_expr (parted_close (.inr rfl) (.symbol .assign :: rest)))

/-- A name with an index is an expression, which ends before the sign that assigns to it. -/
theorem plain_expr_assignedItem (name : String) {us : List Token} {index : Expr}
    (h : ExprRule.or.Derives us index) (rest : List Token) :
    plain (expr (.identifier name :: assignedItem us rest)) =
      .ok (.index (.name name) index, .symbol .assign :: rest) := by
  have hd := ExprRule.Derives.of_postfixed (.index (.ofAtom (.name (x := name))) h)
  have hparted : Parted 7 (.symbol .assign :: rest) := .cons (by decide) _
  have hread := hd.plain_expr hparted
  rwa [List.append_assoc, List.append_assoc] at hread

/-- Whether an item is assigned shows in the tokens that an expression takes and the one behind
them. -/
theorem itemTarget?_eq_none_of_head? {name : String} {us stop rest : List Token}
    {answer : Except (List Token) (Expr × List Token)}
    (hread : ∀ rest, rest.head? = stop.head? →
      plain (expr (.identifier name :: us ++ rest)) = leaving rest answer)
    (hrest : rest.head? = stop.head?) (h : itemTarget? (us ++ stop) = none) :
    itemTarget? (us ++ rest) = none := by
  rcases hi : itemTarget? (us ++ rest) with _ | ⟨index, rest'⟩
  · rfl
  exfalso
  obtain ⟨vs, hvs, hd⟩ := exists_assignedItem hi
  generalize rest'.1 = behind at hvs
  have hanswer := hread rest hrest
  rw [List.cons_append, hvs, plain_expr_assignedItem name hd] at hanswer
  rcases answer with stuck | ⟨e, _⟩
  · cases hanswer
  obtain ⟨-, rfl⟩ := Prod.mk.inj (Except.ok.inj hanswer)
  obtain ⟨stop', rfl⟩ := List.head?_eq_some_iff.mp hrest.symm
  have hus : us = .symbol .openBracket :: vs ++ [.symbol .closeBracket] :=
    List.append_cancel_right (hvs.trans (by simp [assignedItem]))
  have hstop : us ++ .symbol .assign :: stop' = assignedItem vs stop' := by
    simp [hus, assignedItem]
  obtain ⟨_, htarget⟩ := itemTarget?_assignedItem hd stop'
  rw [hstop, htarget] at h
  cases h

/-- A statement that starts with a name and is an expression looks at one token behind it. -/
theorem looksOneAhead_namedExpr (name : String) {ts : List Token}
    (ha : ts.head?.bind assignment? = none) (hi : itemTarget? ts = none) :
    LooksOneAhead (fun ts => plain (simpleStatement ts)) (.identifier name :: ts) := by
  obtain ⟨us, stop, answer, hts, hread⟩ := looksOneAhead_expr (.identifier name :: ts)
  dsimp only at hread
  cases us with
  | nil =>
    -- the name is an expression on its own, so it cannot be left
    have hname := hread [.identifier name] (by rw [← List.nil_append stop, ← hts]; rfl)
    rw [List.nil_append, plain_expr_name] at hname
    rcases answer with stuck | ⟨e, rest⟩ <;> cases hname
  | cons u us =>
    rw [List.cons_append] at hts
    obtain ⟨rfl, rfl⟩ := List.cons.inj hts
    refine ⟨.identifier name :: us, stop, answer.map (Prod.map .expr id), rfl,
      fun rest hrest => ?_⟩
    have ha' : (us ++ rest).head?.bind assignment? = none := by
      rw [head?_append_congr hrest, ha]
    have hi' := itemTarget?_eq_none_of_head? hread hrest hi
    have hexpr := hread rest hrest
    dsimp only
    rw [List.cons_append] at hexpr ⊢
    rw [plain_simpleStatement_name, plain_namedStatement_expr ha' hi', plain_bareExpr, hexpr]
    cases answer <;> rfl

/-- A statement that starts with a name looks at one token behind it, although the whole index is
looked at to tell an assignment from an expression. -/
theorem looksOneAhead_named (name : String) (ts : List Token) :
    LooksOneAhead (fun ts => plain (simpleStatement ts)) (.identifier name :: ts) := by
  rcases ha : ts.head?.bind assignment? with _ | op
  · rcases hi : itemTarget? ts with _ | ⟨index, rest⟩
    · exact looksOneAhead_namedExpr name ha hi
    · obtain ⟨us, hus, hd⟩ := exists_assignedItem hi
      have hsplit (rest : List Token) : .identifier name :: assignedItem us rest =
          (.identifier name :: assignedItem us []) ++ rest := by simp [assignedItem]
      generalize rest.1 = behind at hus
      rw [hus, hsplit]
      refine .append _ (.congr (fun rest' _ => ?_)
        ((looksOneAhead_expr behind).map fun e => .setItem name index e))
      obtain ⟨_, htarget⟩ := itemTarget?_assignedItem hd rest'
      rw [← hsplit, plain_simpleStatement_name, plain_namedStatement_setItem rfl htarget]
  · obtain ⟨t, ht, hop⟩ := Option.bind_eq_some_iff.mp ha
    obtain ⟨ts', rfl⟩ := List.head?_eq_some_iff.mp ht
    refine .cons (.cons ?_)
    simp only [plain_simpleStatement_name, plain_namedStatement_assign hop]
    exact (looksOneAhead_expr ts').map _

/-- The word that leaves a function looks at the token behind it to see whether a value follows. -/
theorem looksOneAhead_giveBack (ts : List Token) :
    LooksOneAhead (fun ts => plain (giveBack ts)) ts := by
  by_cases hs : ts.head? = some (.symbol .semicolon)
  · refine .here (.ok (.giveBack none, [])) fun rest hrest => ?_
    rw [plain_giveBack_nothing (.inl (hrest.trans hs))]
    rfl
  by_cases hn : ts.head? = some .newline
  · refine .here (.ok (.giveBack none, [])) fun rest hrest => ?_
    rw [plain_giveBack_nothing (.inr (hrest.trans hn))]
    rfl
  · refine .congr (fun rest hrest => ?_) ((looksOneAhead_expr ts).map fun e => .giveBack (some e))
    exact plain_giveBack_value (hrest ▸ hs) (hrest ▸ hn)

/-- How a simple statement is read shows in its tokens and the one behind them. -/
theorem looksOneAhead_simpleStatement (ts : List Token) :
    LooksOneAhead (fun ts => plain (simpleStatement ts)) ts := by
  rcases hany : ts.head?.any leadsStatement
  · refine .congr (fun rest hrest => ?_) (looksOneAhead_bareExpr ts)
    exact plain_simpleStatement_expr (hrest ▸ hany)
  obtain ⟨t, ht, hl⟩ := (Option.any_eq_true _ _).mp hany
  obtain ⟨ts', rfl⟩ := List.head?_eq_some_iff.mp ht
  unfold leadsStatement at hl
  split at hl
  · exact .cons (.ok Stmt.pass ts')
  · exact .cons (.ok Stmt.leave ts')
  · exact .cons (.ok Stmt.next ts')
  · apply LooksOneAhead.cons
    simp only [plain_simpleStatement_giveBack]
    exact looksOneAhead_giveBack ts'
  · exact looksOneAhead_named _ ts'
  · cases hl

/-- A line of simple statements looks at the token behind each of them, and at the one behind a
semicolon. -/
theorem looksOneAhead_simpleLine (ts : List Token) :
    LooksOneAhead (fun ts => plain (simpleLine ts)) ts := by
  refine .congr (fun rest _ => plain_simpleLine rest) ?_
  refine (looksOneAhead_simpleStatement ts).bind fun first rest h => ?_
  have hlt := bound_of_plain h
  by_cases hn : rest.head? = some .newline
  · obtain ⟨rest', rfl⟩ := List.head?_eq_some_iff.mp hn
    exact .cons (.ok [first] rest')
  by_cases hs : rest.head? = some (.symbol .semicolon)
  · obtain ⟨rest', hrest⟩ := List.head?_eq_some_iff.mp hs
    rw [hrest]
    apply LooksOneAhead.cons
    refine .behind .newline (fun _ => rfl) (fun ts' hne => ?_) (fun rest'' _ => .ok [first] rest'')
      (fun _ => (looksOneAhead_simpleLine rest').map fun others => first :: others)
    dsimp only
    split
    · next heq => cases heq
    · next heq =>
      cases heq
      exact absurd rfl hne
    · next heq =>
      cases heq
      rfl
    · next hne' => exact absurd rfl (hne' _)
  · refine .here (.error []) fun rest' hrest => ?_
    rw [← hrest] at hn hs
    dsimp only
    split
    · exact absurd rfl hn
    · exact absurd rfl hs
    · exact absurd rfl hs
    · rfl
termination_by ts.length
decreasing_by
  simp only [hrest, List.length_cons] at hlt
  omega

/-- Behind a parameter there is one token to look at. -/
theorem looksOneAhead_parameters (ts : List Token) :
    LooksOneAhead (fun ts => plain (parameters ts)) ts := by
  by_cases hc : ts.head? = some (.symbol .closeParen)
  · obtain ⟨ts', rfl⟩ := List.head?_eq_some_iff.mp hc
    apply LooksOneAhead.cons
    simp only [plain_parameters_close]
    exact .ok [] ts'
  by_cases hx : ∃ name, ts.head? = some (.identifier name)
  · obtain ⟨name, hname⟩ := hx
    obtain ⟨ts', hts⟩ := List.head?_eq_some_iff.mp hname
    rw [hts]
    apply LooksOneAhead.cons
    refine .behind (.symbol .closeParen) (plain_parameters_last name) (fun _ _ => rfl)
      (fun rest _ => .ok [name] rest) fun hclose => ?_
    refine .behind (.symbol .comma) (plain_parameters_more name) (fun _ _ => rfl)
      (fun rest hrest => (looksOneAhead_parameters rest).map _) fun hcomma => ?_
    refine .here (.error []) fun rest hrest => ?_
    exact plain_parameters_behind name (hrest ▸ hclose) (hrest ▸ hcomma)
  · refine .here (.error []) fun rest hrest => ?_
    exact plain_parameters_stuck (hrest ▸ hc) (hrest ▸ hx)
termination_by ts.length
decreasing_by
  simp only [hts, hrest, List.length_cons]
  omega

theorem looksOneAhead_condition (ts : List Token) :
    LooksOneAhead (fun ts => plain (condition ts)) ts := by
  simp only [plain_condition]
  refine (looksOneAhead_expr ts).bind fun test rest _ => ?_
  dsimp only
  exact (looksOneAhead_exactly _ rest).bind fun _ rest _ => .ok test rest

theorem looksOneAhead_signature (ts : List Token) :
    LooksOneAhead (fun ts => plain (signature ts)) ts := by
  simp only [plain_signature]
  refine (looksOneAhead_identifier ts).bind fun name rest _ => ?_
  dsimp only
  refine (looksOneAhead_exactly _ rest).bind fun _ rest _ => ?_
  refine (looksOneAhead_parameters rest).bind fun params rest _ => ?_
  dsimp only
  exact (looksOneAhead_exactly _ rest).bind fun _ rest _ => .ok (name, params) rest

theorem looksOneAhead_loopHead (ts : List Token) :
    LooksOneAhead (fun ts => plain (loopHead ts)) ts := by
  simp only [plain_loopHead]
  refine (looksOneAhead_identifier ts).bind fun name rest _ => ?_
  dsimp only
  refine (looksOneAhead_exactly _ rest).bind fun _ rest _ => ?_
  exact (looksOneAhead_condition rest).bind fun iterable rest _ => .ok (name, iterable) rest

mutual

/-- How a line is read shows in its tokens and the one behind them, which is looked at for a further
branch. -/
theorem looksOneAhead_line (ts : List Token) : LooksOneAhead (fun ts => plain (line ts)) ts := by
  rcases hany : ts.head?.any leadsCompound
  · refine .congr (fun rest hrest => ?_) (looksOneAhead_simpleLine ts)
    exact plain_line_simple (hrest ▸ hany)
  obtain ⟨t, ht, hl⟩ := (Option.any_eq_true _ _).mp hany
  obtain ⟨ts', hts⟩ := List.head?_eq_some_iff.mp ht
  rw [hts]
  apply LooksOneAhead.cons
  unfold leadsCompound at hl
  split at hl
  · simp only [plain_line_define]
    refine (looksOneAhead_signature ts').bind fun head rest h => ?_
    have hlt := bound_of_plain h
    dsimp only
    exact (looksOneAhead_suite rest).map fun body => [Stmt.define head.1 head.2 body]
  · simp only [plain_line_choose]
    refine (looksOneAhead_condition ts').bind fun test rest h => ?_
    have hlt := bound_of_plain h
    dsimp only
    refine (looksOneAhead_suite rest).bind fun body rest' h' => ?_
    have hlt' := bound_of_plain h'
    dsimp only
    exact (looksOneAhead_alternatives rest').map fun others =>
      [Stmt.choose ((test, body) :: others.1) others.2]
  · simp only [plain_line_loopWhile]
    refine (looksOneAhead_condition ts').bind fun test rest h => ?_
    have hlt := bound_of_plain h
    dsimp only
    exact (looksOneAhead_suite rest).map fun body => [Stmt.loopWhile test body]
  · simp only [plain_line_loopFor]
    refine (looksOneAhead_loopHead ts').bind fun head rest h => ?_
    have hlt := bound_of_plain h
    dsimp only
    exact (looksOneAhead_suite rest).map fun body => [Stmt.loopFor head.1 head.2 body]
  · cases hl
termination_by 4 * ts.length
decreasing_by all_goals simp only [hts, List.length_cons]; omega

/-- Further branches look at the token behind them to see whether another follows. -/
theorem looksOneAhead_alternatives (ts : List Token) :
    LooksOneAhead (fun ts => plain (alternatives ts)) ts := by
  by_cases he : ts.head? = some (.keyword .elseIf)
  · obtain ⟨ts', hts⟩ := List.head?_eq_some_iff.mp he
    rw [hts]
    apply LooksOneAhead.cons
    simp only [plain_alternatives_elseIf]
    refine (looksOneAhead_condition ts').bind fun test rest h => ?_
    have hlt := bound_of_plain h
    dsimp only
    refine (looksOneAhead_suite rest).bind fun body rest' h' => ?_
    have hlt' := bound_of_plain h'
    dsimp only
    exact (looksOneAhead_alternatives rest').map fun others =>
      ((test, body) :: others.1, others.2)
  by_cases ho : ts.head? = some (.keyword .otherwise)
  · obtain ⟨ts', hts⟩ := List.head?_eq_some_iff.mp ho
    rw [hts]
    apply LooksOneAhead.cons
    simp only [plain_alternatives_otherwise]
    refine (looksOneAhead_exactly _ ts').bind fun _ rest h => ?_
    have hlt := bound_of_plain h
    dsimp only
    exact (looksOneAhead_suite rest).map fun body => ([], some body)
  · refine .here (.ok (([], none), [])) fun rest hrest => ?_
    exact plain_alternatives_of_ne (hrest ▸ he) (hrest ▸ ho)
termination_by 4 * ts.length
decreasing_by all_goals simp only [hts, List.length_cons]; omega

/-- A body takes its newline or its dedent, and looks at nothing behind it. -/
theorem looksOneAhead_suite (ts : List Token) :
    LooksOneAhead (fun ts => plain (suite ts)) ts := by
  by_cases hn : ts.head? = some .newline
  · obtain ⟨ts₁, hts₁⟩ := List.head?_eq_some_iff.mp hn
    rw [hts₁]
    apply LooksOneAhead.cons
    refine .behind .indent plain_suite_block (fun _ => plain_suite_newline) (fun ts₂ hts₂ => ?_)
      (fun _ => .error ts₁)
    refine (looksOneAhead_line ts₂).bind fun first rest h => ?_
    have hlt := bound_of_plain h
    dsimp only
    exact (looksOneAhead_linesToDedent rest).map _
  · refine .congr (fun rest hrest => ?_) (looksOneAhead_simpleLine ts)
    exact plain_suite_inline (hrest ▸ hn)
termination_by 4 * ts.length
decreasing_by all_goals simp only [hts₁, hts₂, List.length_cons]; omega

/-- The lines of a block look at the token behind each of them to see whether it is the dedent. -/
theorem looksOneAhead_linesToDedent (ts : List Token) :
    LooksOneAhead (fun ts => plain (linesToDedent ts)) ts := by
  refine .behind .dedent plain_linesToDedent_dedent (fun _ => plain_linesToDedent_of_ne)
    (fun ts' _ => .ok [] ts') fun _ => ?_
  refine (looksOneAhead_line ts).bind fun first rest h => ?_
  have hlt := bound_of_plain h
  dsimp only
  exact (looksOneAhead_linesToDedent rest).map _
termination_by 4 * ts.length + 1
decreasing_by all_goals omega

end

/-- Where reading a script gets stuck, it gets stuck whatever follows that token. -/
theorem script_eq_error {ts stuck : List Token} (h : script ts = .error stuck) :
    ∃ us, ts = us ++ stuck ∧
      ∀ rest, rest.head? = stuck.head? → script (us ++ rest) = .error rest := by
  rcases hts : ts with _ | ⟨t, ts'⟩
  · rw [hts, script] at h
    cases h
  rw [hts, script_cons] at h
  obtain ⟨us, middle, answer, hus, hline⟩ := looksOneAhead_line (t :: ts')
  have hread := hline middle rfl
  dsimp only at hread hline
  rw [← hus] at hread
  rw [hread] at h
  have hscript {rest : List Token} (hrest : rest.head? = middle.head?) :
      script (us ++ rest) = leaving rest answer >>= fun line =>
        script line.2 >>= fun others => .ok (line.1 ++ others) := by
    have hhead := (head?_append_congr hrest).trans (congrArg List.head? hus.symm)
    obtain ⟨ts'', hts''⟩ := List.head?_eq_some_iff.mp hhead
    rw [← hline rest hrest, hts'', script_cons]
  rcases answer with _ | ⟨first, _⟩
  · cases h
    exact ⟨us, hus, fun rest hrest => hscript hrest⟩
  · have hlt := bound_of_plain hread
    rcases hs : script middle with stuck' | others
    · have hstuck : stuck' = stuck := by
        simp only [leaving, ok_bind, hs] at h
        exact Except.error.inj h
      obtain ⟨vs, hvs, hrest⟩ := script_eq_error hs
      subst hstuck
      refine ⟨us ++ vs, by rw [hus, hvs, List.append_assoc], fun rest hhead => ?_⟩
      have hmiddle : (vs ++ rest).head? = middle.head? := by
        rw [hvs]
        exact head?_append_congr hhead
      rw [List.append_assoc, hscript hmiddle]
      simp only [leaving, ok_bind, hrest rest hhead]
      rfl
    · simp only [leaving, ok_bind, hs] at h
      cases h
termination_by ts.length
decreasing_by
  rw [hts]
  exact hlt

end ScriptShell.Reader
