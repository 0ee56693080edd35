import ScriptShell.Proofs.Script.Grammar
import ScriptShell.Proofs.Script.PlainReading

/-!
# What is read is derived

Whatever a reader takes off the front of a token list is derived from the nonterminal that the
reader is for, with the tree that the reader gives. The proofs are mutual like the readers and
recur on the same measures.
-/

namespace ScriptShell

open Reader

/-- The tokens before `rest` are derived from a nonterminal, with a tree. -/
def ExprRule.Takes (rule : ExprRule) (ts : List Token) (tree : rule.Tree) (rest : List Token) :
    Prop :=
  ∃ us, ts = us ++ rest ∧ rule.Derives us tree

/-- The tokens before `rest` are derived from a nonterminal of scripts, with a tree. -/
def ScriptRule.Takes (rule : ScriptRule) (ts : List Token) (tree : rule.Tree)
    (rest : List Token) : Prop :=
  ∃ us, ts = us ++ rest ∧ rule.Derives us tree

namespace Reader

/-- The derivations of the chains of a level. -/
def Level.Chain : Level → List Token → Expr → Prop
  | .or => ExprRule.Derives .or
  | .and => ExprRule.Derives .and
  | .sum => ExprRule.Derives .sum
  | .term => ExprRule.Derives .term

/-- The derivations of the operands of a level. -/
def Level.Part : Level → List Token → Expr → Prop
  | .or => ExprRule.Derives .and
  | .and => ExprRule.Derives .not
  | .sum => ExprRule.Derives .term
  | .term => ExprRule.Derives .unary

/-- An operand is a chain of one. -/
theorem Level.chain_of_part (level : Level) {us : List Token} {e : Expr} (h : level.Part us e) :
    level.Chain us e := by
  cases level with
  | or => exact .ofAnd h
  | and => exact .ofNot h
  | sum => exact .ofTerm h
  | term => exact .ofUnary h

/-- An operator of a level and an operand prolong a chain. -/
theorem Level.chain_more {level : Level} {t : Token} {build : Expr → Expr → Expr}
    (h : level.operator? t = some build) {us vs : List Token} {l r : Expr}
    (hl : level.Chain us l) (hr : level.Part vs r) : level.Chain (us ++ t :: vs) (build l r) := by
  unfold Level.operator? at h
  split at h
  all_goals cases h
  · exact .disj hl hr
  · exact .conj hl hr
  · exact .add (by simp [sumSigns]) hl hr
  · exact .add (by simp [sumSigns]) hl hr
  · exact .multiply (by simp [termSigns]) hl hr
  · exact .multiply (by simp [termSigns]) hl hr
  · exact .multiply (by simp [termSigns]) hl hr
  · exact .multiply (by simp [termSigns]) hl hr

/-- What is taken for a comparison is the sign of one. -/
theorem mem_comparisonSigns {t : Token} {op : Operator} (h : comparison? t = some op) :
    (t, op) ∈ comparisonSigns := by
  unfold comparison? at h
  split at h
  all_goals cases h
  all_goals simp [comparisonSigns]

/-- A token that is an expression is a constant or a name. -/
theorem derives_leaf {t : Token} {e : Expr} (h : leaf? t = some e) :
    ExprRule.Derives .atom [t] e := by
  unfold leaf? at h
  split at h
  all_goals cases h
  · exact .literal .integer
  · exact .literal .float
  · exact .literal .string
  · exact .literal .yes
  · exact .literal .no
  · exact .literal .nothing
  · exact .name

mutual

/-- What an expression is read from derives it. -/
theorem takes_expr {ts rest : List Token} {e : Expr} (h : plain (expr ts) = .ok (e, rest)) :
    ExprRule.or.Takes ts e rest := by
  rw [plain_expr] at h
  exact takes_chain .or h
termination_by 20 * ts.length + 14
decreasing_by simp [Level.rank]

/-- What a chain is read from is a chain of its level. -/
theorem takes_chain (level : Level) {ts rest : List Token} {e : Expr}
    (h : plain (chain level ts) = .ok (e, rest)) : ∃ us, ts = us ++ rest ∧ level.Chain us e := by
  rw [plain_chain] at h
  obtain ⟨left, middle, ho, ht⟩ := exists_of_bind h
  have hlt := bound_of_plain ho
  obtain ⟨us, hus, hl⟩ := takes_operand level ho
  obtain ⟨vs, hvs, hw⟩ := takes_chainTail level (level.chain_of_part hl) ht
  exact ⟨us ++ vs, by simp [hus, hvs], hw⟩
termination_by 20 * ts.length + level.rank
decreasing_by
  · cases level <;> simp [Level.rank]
  · have := level.rank_lt
    omega

/-- With the operands before it, what a chain goes on with is a chain of its level. -/
theorem takes_chainTail (level : Level) {us ts rest : List Token} {left e : Expr}
    (hl : level.Chain us left) (h : plain (chainTail level left ts) = .ok (e, rest)) :
    ∃ vs, ts = vs ++ rest ∧ level.Chain (us ++ vs) e := by
  rcases hts : ts with _ | ⟨t, ts'⟩
  · rw [hts, plain_chainTail_nil] at h
    cases h
    exact ⟨[], rfl, by rwa [List.append_nil]⟩
  rcases hop : level.operator? t with _ | build
  · rw [hts, plain_chainTail_of_none hop] at h
    cases h
    exact ⟨[], rfl, by rwa [List.append_nil]⟩
  · rw [hts, plain_chainTail_of_some hop] at h
    obtain ⟨right, middle, ho, ht⟩ := exists_of_bind h
    have hlt := bound_of_plain ho
    obtain ⟨vs, hvs, hr⟩ := takes_operand level ho
    obtain ⟨ws, hws, hw⟩ := takes_chainTail level (level.chain_more hop hl hr) ht
    refine ⟨t :: vs ++ ws, by simp [hvs, hws], ?_⟩
    rwa [List.append_assoc] at hw
termination_by 20 * ts.length
decreasing_by
  all_goals have := level.rank_lt
  all_goals simp only [hts, List.length_cons]
  all_goals omega

/-- What an operand is read from is an operand of its level. -/
theorem takes_operand (level : Level) {ts rest : List Token} {e : Expr}
    (h : plain (operand level ts) = .ok (e, rest)) : ∃ us, ts = us ++ rest ∧ level.Part us e := by
  match level with
  | .or =>
    rw [plain_operand_or] at h
    exact takes_chain .and h
  | .and =>
    rw [plain_operand_and] at h
    exact takes_negation h
  | .sum =>
    rw [plain_operand_sum] at h
    exact takes_chain .term h
  | .term =>
    rw [plain_operand_term] at h
    exact takes_unary h
termination_by 20 * ts.length + (level.rank - 1)
decreasing_by all_goals simp [Level.rank]

/-- What a negation or comparison is read from derives it. -/
theorem takes_negation {ts rest : List Token} {e : Expr}
    (h : plain (negation ts) = .ok (e, rest)) : ExprRule.not.Takes ts e rest := by
  by_cases hn : ts.head? = some (.keyword .negation)
  · obtain ⟨ts', hts⟩ := List.head?_eq_some_iff.mp hn
    rw [hts, plain_negation_not] at h
    obtain ⟨operand, rest', ho, he⟩ := exists_of_bind h
    cases he
    obtain ⟨us, hus, hd⟩ := takes_negation ho
    exact ⟨_ :: us, by rw [hts, hus]; rfl, .negation hd⟩
  · rw [plain_negation_of_ne hn] at h
    obtain ⟨us, hus, hd⟩ := takes_comparison h
    exact ⟨us, hus, .ofComparison hd⟩
termination_by 20 * ts.length + 9
decreasing_by
  · simp only [hts, List.length_cons]
    omega
  · omega

/-- What a comparison is read from derives it. -/
theorem takes_comparison {ts rest : List Token} {e : Expr}
    (h : plain (comparison ts) = .ok (e, rest)) : ExprRule.comparison.Takes ts e rest := by
  rw [plain_comparison] at h
  obtain ⟨left, middle, hl, h⟩ := exists_of_bind h
  have hlt := bound_of_plain hl
  obtain ⟨us, hus, hd⟩ := takes_chain .sum hl
  rcases hm : middle with _ | ⟨t, middle'⟩
  · rw [hm] at h hus
    cases h
    exact ⟨us, hus, .ofSum hd⟩
  rw [hm] at h hus
  dsimp only at h
  rcases hop : comparison? t with _ | op
  · rw [hop] at h
    cases h
    exact ⟨us, hus, .ofSum hd⟩
  · rw [hop] at h
    obtain ⟨right, rest', hr, he⟩ := exists_of_bind h
    cases he
    obtain ⟨vs, hvs, hd'⟩ := takes_chain .sum hr
    refine ⟨us ++ t :: vs, by simp [hus, hvs], ?_⟩
    exact .compare (mem_comparisonSigns hop) hd hd'
termination_by 20 * ts.length + 8
decreasing_by
  · simp [Level.rank]
  · simp only [hm, List.length_cons, Level.rank] at hlt ⊢
    omega

/-- What an operand with a sign is read from derives it. -/
theorem takes_unary {ts rest : List Token} {e : Expr} (h : plain (unary ts) = .ok (e, rest)) :
    ExprRule.unary.Takes ts e rest := by
  by_cases hm : ts.head? = some (.symbol .minus)
  · obtain ⟨ts', hts⟩ := List.head?_eq_some_iff.mp hm
    rw [hts, plain_unary_minus] at h
    obtain ⟨operand, rest', ho, he⟩ := exists_of_bind h
    cases he
    obtain ⟨us, hus, hd⟩ := takes_unary ho
    exact ⟨_ :: us, by rw [hts, hus]; rfl, .minus hd⟩
  · rw [plain_unary_of_ne hm] at h
    obtain ⟨us, hus, hd⟩ := takes_power h
    exact ⟨us, hus, .ofPower hd⟩
termination_by 20 * ts.length + 3
decreasing_by
  · simp only [hts, List.length_cons]
    omega
  · omega

/-- What a power is read from derives it. -/
theorem takes_power {ts rest : List Token} {e : Expr} (h : plain (power ts) = .ok (e, rest)) :
    ExprRule.power.Takes ts e rest := by
  rw [plain_power] at h
  obtain ⟨base, middle, hb, h⟩ := exists_of_bind h
  have hlt := bound_of_plain hb
  obtain ⟨us, hus, hd⟩ := takes_postfixed hb
  dsimp only at h
  split at h
  · obtain ⟨exponent, rest', hx, he⟩ := exists_of_bind h
    cases he
    obtain ⟨vs, hvs, hd'⟩ := takes_unary hx
    exact ⟨us ++ _ :: vs, by simp [hus, hvs], .exponent hd hd'⟩
  · cases h
    exact ⟨us, hus, .ofPostfixed hd⟩
termination_by 20 * ts.length + 2
decreasing_by
  · omega
  · rw [List.length_cons] at hlt
    omega

/-- What a postfix expression is read from derives it. -/
theorem takes_postfixed {ts rest : List Token} {e : Expr}
    (h : plain (postfixed ts) = .ok (e, rest)) : ExprRule.postfixed.Takes ts e rest := by
  rw [plain_postfixed] at h
  obtain ⟨target, middle, ha, ht⟩ := exists_of_bind h
  have hlt := bound_of_plain ha
  obtain ⟨us, hus, hd⟩ := takes_atom ha
  obtain ⟨vs, hvs, hw⟩ := takes_postfixTail (.ofAtom hd) ht
  exact ⟨us ++ vs, by simp [hus, hvs], hw⟩
termination_by 20 * ts.length + 1
decreasing_by all_goals omega

/-- With the expression before them, the calls and indexes that are read derive a postfix
expression. -/
theorem takes_postfixTail {us ts rest : List Token} {target e : Expr}
    (hd : ExprRule.postfixed.Derives us target)
    (h : plain (postfixTail target ts) = .ok (e, rest)) :
    ∃ vs, ts = vs ++ rest ∧ ExprRule.postfixed.Derives (us ++ vs) e := by
  by_cases hp : ts.head? = some (.symbol .openParen)
  · obtain ⟨ts', hts⟩ := List.head?_eq_some_iff.mp hp
    rw [hts, plain_postfixTail_call] at h
    obtain ⟨args, middle, hi, ht⟩ := exists_of_bind h
    have hlt := bound_of_plain hi
    obtain ⟨vs, hvs, ha⟩ := takes_items .closeParen hi
    obtain ⟨ws, hws, hw⟩ := takes_postfixTail (.call hd ha) ht
    refine ⟨.symbol .openParen :: vs ++ .symbol .closeParen :: ws, by simp [hts, hvs, hws], ?_⟩
    simpa using hw
  by_cases hb : ts.head? = some (.symbol .openBracket)
  · obtain ⟨ts', hts⟩ := List.head?_eq_some_iff.mp hb
    rw [hts, plain_postfixTail_index] at h
    obtain ⟨index, middle, hi, ht⟩ := exists_of_bind h
    have hlt := bound_of_plain hi
    obtain ⟨vs, hvs, hx⟩ := takes_expr hi
    dsimp only at ht
    split at ht
    · obtain ⟨ws, hws, hw⟩ := takes_postfixTail (.index hd hx) ht
      refine ⟨.symbol .openBracket :: vs ++ .symbol .closeBracket :: ws,
        by simp [hts, hvs, hws], ?_⟩
      simpa using hw
    · cases ht
  · rw [plain_postfixTail_of_ne target hp hb] at h
    cases h
    exact ⟨[], rfl, by rwa [List.append_nil]⟩
termination_by 20 * ts.length
decreasing_by
  · rw [hts, List.length_cons]
    omega
  · rw [hts, List.length_cons]
    omega
  · rw [hts, List.length_cons]
    omega
  · rw [List.length_cons] at hlt
    rw [hts, List.length_cons]
    omega

/-- What an atom is read from derives it. -/
theorem takes_atom {ts rest : List Token} {e : Expr} (h : plain (atom ts) = .ok (e, rest)) :
    ExprRule.atom.Takes ts e rest := by
  rcases hts : ts with _ | ⟨t, ts'⟩
  · rw [hts, plain_atom_nil] at h
    cases h
  rw [hts] at h
  by_cases hp : t = .symbol .openParen
  · rw [hp, plain_atom_paren] at h
    obtain ⟨inner, middle, hi, h⟩ := exists_of_bind h
    obtain ⟨us, hus, hd⟩ := takes_expr hi
    dsimp only at h
    split at h
    · cases h
      exact ⟨.symbol .openParen :: us ++ [.symbol .closeParen], by simp [hp, hus], .paren hd⟩
    · cases h
  by_cases hl : t = .symbol .openBracket
  · rw [hl, plain_atom_list] at h
    obtain ⟨values, rest', hi, he⟩ := exists_of_bind h
    cases he
    obtain ⟨us, hus, hd⟩ := takes_items .closeBracket hi
    exact ⟨.symbol .openBracket :: us ++ [.symbol .closeBracket], by simp [hl, hus], .list hd⟩
  by_cases hb : t = .symbol .openBrace
  · rw [hb, plain_atom_dict] at h
    obtain ⟨entries, rest', hi, he⟩ := exists_of_bind h
    cases he
    obtain ⟨us, hus, hd⟩ := takes_pairs hi
    exact ⟨.symbol .openBrace :: us ++ [.symbol .closeBrace], by simp [hb, hus], .dict hd⟩
  rcases hleaf : leaf? t with _ | e'
  · rw [plain_atom_of_none hleaf hp hl hb] at h
    cases h
  · rw [plain_atom_leaf hleaf] at h
    cases h
    exact ⟨[t], rfl, derives_leaf hleaf⟩
termination_by 20 * ts.length
decreasing_by
  all_goals simp only [hts, List.length_cons]
  all_goals omega

/-- What items are read from derives them, up to the closing bracket. -/
theorem takes_items (close : Symbol) {ts rest : List Token} {es : List Expr}
    (h : plain (items close ts) = .ok (es, rest)) :
    ExprRule.items.Takes ts es (.symbol close :: rest) := by
  rcases hts : ts with _ | ⟨t, ts'⟩
  · rw [hts, plain_items_nil] at h
    cases h
  by_cases hc : t = .symbol close
  · rw [hts, hc, plain_items_close] at h
    cases h
    exact ⟨[], by rw [hc]; rfl, .noItems⟩
  · rw [hts, plain_items_of_ne hc, ← hts] at h
    rw [← hts]
    exact takes_itemsFrom close h
termination_by 20 * ts.length + 16
decreasing_by omega

/-- What items that are there are read from derives them, up to the closing bracket. -/
theorem takes_itemsFrom (close : Symbol) {ts rest : List Token} {es : List Expr}
    (h : plain (itemsFrom close ts) = .ok (es, rest)) :
    ExprRule.items.Takes ts es (.symbol close :: rest) := by
  rw [plain_itemsFrom] at h
  obtain ⟨first, middle, hf, h⟩ := exists_of_bind h
  have hlt := bound_of_plain hf
  obtain ⟨us, hus, hd⟩ := takes_expr hf
  dsimp only at h
  split at h
  · next sign middle =>
    by_cases hc : sign = close
    · rw [if_pos hc] at h
      cases h
      exact ⟨us, hc ▸ hus, .lastItem hd⟩
    rw [if_neg hc] at h
    by_cases hm : sign = .comma
    · subst hm
      rw [if_pos rfl] at h
      obtain ⟨others, rest', ho, he⟩ := exists_of_bind h
      cases he
      obtain ⟨vs, hvs, hd'⟩ := takes_items close ho
      exact ⟨us ++ _ :: vs, by simp [hus, hvs], .moreItems hd hd'⟩
    · rw [if_neg hm] at h
      cases h
  · cases h
termination_by 20 * ts.length + 15
decreasing_by
  · omega
  · rw [List.length_cons] at hlt
    omega

/-- What pairs are read from derives them, up to the closing brace. -/
theorem takes_pairs {ts rest : List Token} {es : List (Expr × Expr)}
    (h : plain (pairs ts) = .ok (es, rest)) :
    ExprRule.pairs.Takes ts es (.symbol .closeBrace :: rest) := by
  by_cases hc : ts.head? = some (.symbol .closeBrace)
  · obtain ⟨ts, rfl⟩ := List.head?_eq_some_iff.mp hc
    rw [plain_pairs_close] at h
    cases h
    exact ⟨[], rfl, .noPairs⟩
  · rw [plain_pairs_of_ne hc] at h
    exact takes_pairsFrom h
termination_by 20 * ts.length + 16
decreasing_by all_goals omega

/-- What pairs that are there are read from derives them, up to the closing brace. -/
theorem takes_pairsFrom {ts rest : List Token} {es : List (Expr × Expr)}
    (h : plain (pairsFrom ts) = .ok (es, rest)) :
    ExprRule.pairs.Takes ts es (.symbol .closeBrace :: rest) := by
  rw [plain_pairsFrom] at h
  obtain ⟨key, middle, hk, h⟩ := exists_of_bind h
  have hlt := bound_of_plain hk
  obtain ⟨us, hus, hdk⟩ := takes_expr hk
  dsimp only at h
  split at h
  · obtain ⟨value, middle', hv, h⟩ := exists_of_bind h
    have hlt' := bound_of_plain hv
    obtain ⟨vs, hvs, hdv⟩ := takes_expr hv
    dsimp only at h
    split at h
    · cases h
      exact ⟨us ++ _ :: vs, by simp [hus, hvs], .lastPair hdk hdv⟩
    · obtain ⟨others, rest', ho, he⟩ := exists_of_bind h
      cases he
      obtain ⟨ws, hws, hdo⟩ := takes_pairs ho
      refine ⟨us ++ .symbol .colon :: vs ++ .symbol .comma :: ws, by simp [hus, hvs, hws], ?_⟩
      exact .morePairs hdk hdv hdo
    · cases h
  · cases h
termination_by 20 * ts.length + 15
decreasing_by
  · omega
  · rw [List.length_cons] at hlt
    omega
  · rw [List.length_cons] at hlt hlt'
    omega

end

/-! ### Statements -/

/-- What is taken for a sign of assignment is one. -/
theorem mem_assignmentSigns {t : Token} {op : Option Operator} (h : assignment? t = some op) :
    ∃ sign, t = .symbol sign ∧ (sign, op) ∈ assignmentSigns := by
  unfold assignment? at h
  split at h
  all_goals cases h
  all_goals exact ⟨_, rfl, by simp [assignmentSigns]⟩

/-- What an expression is read from as a statement derives a simple statement. -/
theorem takes_bareExpr {ts rest : List Token} {s : Stmt}
    (h : plain (bareExpr ts) = .ok (s, rest)) : ScriptRule.simple.Takes ts s rest := by
  rw [plain_bareExpr] at h
  obtain ⟨value, rest', hv, he⟩ := exists_of_bind h
  cases he
  obtain ⟨us, hus, hd⟩ := takes_expr hv
  exact ⟨us, hus, .expr hd⟩

/-- With the name before it, what an assignment or an expression is read from derives a simple
statement. -/
theorem takes_namedStatement {name : String} {ts rest : List Token} {s : Stmt}
    (h : plain (namedStatement name ts) = .ok (s, rest)) :
    ScriptRule.simple.Takes (.identifier name :: ts) s rest := by
  rcases ha : ts.head?.bind assignment? with _ | op
  · rcases hi : itemTarget? ts with _ | ⟨index, rest'⟩
    · rw [plain_namedStatement_expr ha hi] at h
      exact takes_bareExpr h
    · rw [plain_namedStatement_setItem ha hi] at h
      obtain ⟨value, rest'', hv, he⟩ := exists_of_bind h
      cases he
      obtain ⟨ts', rfl, hx⟩ := exists_of_itemTarget? hi
      obtain ⟨us, hus, hdi⟩ := takes_expr hx
      obtain ⟨vs, hvs, hdv⟩ := takes_expr hv
      refine ⟨_, ?_, .setItem hdi hdv⟩
      simp [hus, hvs]
  · obtain ⟨t, ht, hop⟩ := Option.bind_eq_some_iff.mp ha
    obtain ⟨ts', rfl⟩ := List.head?_eq_some_iff.mp ht
    rw [plain_namedStatement_assign hop] at h
    obtain ⟨value, rest', hv, he⟩ := exists_of_bind h
    cases he
    obtain ⟨sign, rfl, hs⟩ := mem_assignmentSigns hop
    obtain ⟨us, hus, hd⟩ := takes_expr hv
    exact ⟨_, by simp [hus], .assign hs hd⟩

/-- With the word before it, what a value that is given back is read from derives a simple
statement. -/
theorem takes_giveBack {ts rest : List Token} {s : Stmt} (h : plain (giveBack ts) = .ok (s, rest)) :
    ScriptRule.simple.Takes (.keyword .giveBack :: ts) s rest := by
  by_cases hs : ts.head? = some (.symbol .semicolon)
  · rw [plain_giveBack_nothing (.inl hs)] at h
    cases h
    exact ⟨[_], rfl, .giveBackNothing⟩
  by_cases hn : ts.head? = some .newline
  · rw [plain_giveBack_nothing (.inr hn)] at h
    cases h
    exact ⟨[_], rfl, .giveBackNothing⟩
  · rw [plain_giveBack_value hs hn] at h
    obtain ⟨value, rest', hv, he⟩ := exists_of_bind h
    cases he
    obtain ⟨us, hus, hd⟩ := takes_expr hv
    exact ⟨_ :: us, by rw [hus]; rfl, .giveBack hd⟩

/-- What a simple statement is read from derives it. -/
theorem takes_simpleStatement {ts rest : List Token} {s : Stmt}
    (h : plain (simpleStatement ts) = .ok (s, rest)) : ScriptRule.simple.Takes ts s rest := by
  rcases hany : ts.head?.any leadsStatement
  · rw [plain_simpleStatement_expr hany] at h
    exact takes_bareExpr h
  · obtain ⟨t, ht, hl⟩ := (Option.any_eq_true _ _).mp hany
    obtain ⟨ts', rfl⟩ := List.head?_eq_some_iff.mp ht
    unfold leadsStatement at hl
    split at hl
    · cases h
      exact ⟨[_], rfl, .pass⟩
    · cases h
      exact ⟨[_], rfl, .leave⟩
    · cases h
      exact ⟨[_], rfl, .next⟩
    · rw [plain_simpleStatement_giveBack] at h
      exact takes_giveBack h
    · rw [plain_simpleStatement_name] at h
      exact takes_namedStatement h
    · cases hl

/-- What a line of simple statements is read from derives it. -/
theorem takes_simpleLine {ts rest : List Token} {p : List Stmt}
    (h : plain (simpleLine ts) = .ok (p, rest)) : ScriptRule.simpleLine.Takes ts p rest := by
  rw [plain_simpleLine] at h
  obtain ⟨first, middle, hf, h⟩ := exists_of_bind h
  have hlt := bound_of_plain hf
  obtain ⟨us, hus, hd⟩ := takes_simpleStatement hf
  dsimp only at h
  split at h
  · cases h
    exact ⟨us ++ [.newline], by simp [hus], .lastSimple hd⟩
  · cases h
    exact ⟨us ++ [.symbol .semicolon, .newline], by simp [hus], .lastSimpleWithSign hd⟩
  · obtain ⟨others, rest', ho, he⟩ := exists_of_bind h
    cases he
    obtain ⟨vs, hvs, hd'⟩ := takes_simpleLine ho
    exact ⟨us ++ _ :: vs, by simp [hus, hvs], .moreSimple hd hd'⟩
  · cases h
termination_by ts.length
decreasing_by
  simp only [List.length_cons] at hlt
  omega

/-- What parameters are read from derives them, up to the closing parenthesis. -/
theorem takes_parameters {ts rest : List Token} {params : List String}
    (h : plain (parameters ts) = .ok (params, rest)) :
    ScriptRule.parameters.Takes ts params (.symbol .closeParen :: rest) := by
  obtain ⟨rfl, rfl⟩ | ⟨name, rfl, rfl⟩ | ⟨name, ts', others, hts, rfl, ho⟩ :=
    plain_parameters_cases h
  · exact ⟨[], rfl, .noParameter⟩
  · exact ⟨[_], rfl, .lastParameter⟩
  · obtain ⟨us, hus, hd⟩ := takes_parameters ho
    exact ⟨.identifier name :: .symbol .comma :: us, by rw [hts, hus]; rfl, .moreParameters hd⟩
termination_by ts.length
decreasing_by
  simp only [hts, List.length_cons]
  omega

/-- What a condition is read from derives it, up to the colon. -/
theorem takes_condition {ts rest : List Token} {c : Expr}
    (h : plain (condition ts) = .ok (c, rest)) :
    ExprRule.or.Takes ts c (.symbol .colon :: rest) := by
  rw [plain_condition] at h
  obtain ⟨test, middle, ht, h⟩ := exists_of_bind h
  obtain ⟨_, rest', hc, he⟩ := exists_of_bind h
  cases he
  rw [eq_of_plain_symbol hc] at ht
  exact takes_expr ht

/-- What a signature is read from is a name, parameters in parentheses and a colon. -/
theorem takes_signature {ts rest : List Token} {head : String × List String}
    (h : plain (signature ts) = .ok (head, rest)) :
    ∃ us, ts = .identifier head.1 :: .symbol .openParen :: us ++
        .symbol .closeParen :: .symbol .colon :: rest ∧
      ScriptRule.parameters.Derives us head.2 := by
  rw [plain_signature] at h
  obtain ⟨name, rest₁, hn, h⟩ := exists_of_bind h
  obtain ⟨_, rest₂, hp, h⟩ := exists_of_bind h
  obtain ⟨params, rest₃, hps, h⟩ := exists_of_bind h
  obtain ⟨_, rest₄, hc, he⟩ := exists_of_bind h
  cases he
  obtain ⟨us, hus, hd⟩ := takes_parameters hps
  refine ⟨us, ?_, hd⟩
  rw [eq_of_plain_identifier hn, eq_of_plain_symbol hp, hus, eq_of_plain_symbol hc]
  rfl

/-- What the head of a loop is read from is a variable, an iterable and a colon. -/
theorem takes_loopHead {ts rest : List Token} {head : String × Expr}
    (h : plain (loopHead ts) = .ok (head, rest)) :
    ∃ us, ts = .identifier head.1 :: .keyword .within :: us ++ .symbol .colon :: rest ∧
      ExprRule.or.Derives us head.2 := by
  rw [plain_loopHead] at h
  obtain ⟨name, rest₁, hn, h⟩ := exists_of_bind h
  obtain ⟨_, rest₂, hw, h⟩ := exists_of_bind h
  obtain ⟨iterable, rest₃, hi, he⟩ := exists_of_bind h
  cases he
  obtain ⟨us, hus, hd⟩ := takes_condition hi
  obtain ⟨t, ht, hrest⟩ := exists_of_plain_exactly hw
  have htw : t = .keyword .within := by
    split at ht
    · rfl
    · cases ht
  refine ⟨us, ?_, hd⟩
  rw [eq_of_plain_identifier hn, hrest, htw, hus]
  rfl

mutual

/-- What a line is read from derives it: simple statements, or a compound statement with all of its
branches. -/
theorem takes_line {ts rest : List Token} {p : List Stmt} (h : plain (line ts) = .ok (p, rest)) :
    ScriptRule.line.Takes ts p rest := by
  rcases hany : ts.head?.any leadsCompound
  · rw [plain_line_simple hany] at h
    obtain ⟨us, hus, hd⟩ := takes_simpleLine h
    exact ⟨us, hus, .ofSimpleLine hd⟩
  obtain ⟨t, ht, hl⟩ := (Option.any_eq_true _ _).mp hany
  obtain ⟨ts', hts⟩ := List.head?_eq_some_iff.mp ht
  unfold leadsCompound at hl
  split at hl
  · rw [hts, plain_line_define] at h
    obtain ⟨⟨name, params⟩, middle, hs, h⟩ := exists_of_bind h
    obtain ⟨body, rest', hb, he⟩ := exists_of_bind h
    cases he
    have hlt := bound_of_plain hs
    obtain ⟨us, hus, hp⟩ := takes_signature hs
    obtain ⟨vs, hvs, hd⟩ := takes_suite hb
    exact ⟨_, by simp [hts, hus, hvs], .ofCompound (.define hp hd)⟩
  · rw [hts, plain_line_choose] at h
    obtain ⟨test, rest₁, hc, h⟩ := exists_of_bind h
    obtain ⟨body, rest₂, hb, h⟩ := exists_of_bind h
    obtain ⟨⟨branches, otherwise⟩, rest₃, ha, he⟩ := exists_of_bind h
    cases he
    have hlt := bound_of_plain hc
    have hlt' := bound_of_plain hb
    obtain ⟨us, hus, hdc⟩ := takes_condition hc
    obtain ⟨vs, hvs, hdb⟩ := takes_suite hb
    obtain ⟨ws, hws, hda⟩ := takes_alternatives ha
    exact ⟨_, by simp [hts, hus, hvs, hws], .ofCompound (.choose hdc hdb hda)⟩
  · rw [hts, plain_line_loopWhile] at h
    obtain ⟨test, middle, hc, h⟩ := exists_of_bind h
    obtain ⟨body, rest', hb, he⟩ := exists_of_bind h
    cases he
    have hlt := bound_of_plain hc
    obtain ⟨us, hus, hdc⟩ := takes_condition hc
    obtain ⟨vs, hvs, hdb⟩ := takes_suite hb
    exact ⟨_, by simp [hts, hus, hvs], .ofCompound (.loopWhile hdc hdb)⟩
  · rw [hts, plain_line_loopFor] at h
    obtain ⟨⟨name, iterable⟩, middle, hh, h⟩ := exists_of_bind h
    obtain ⟨body, rest', hb, he⟩ := exists_of_bind h
    cases he
    have hlt := bound_of_plain hh
    obtain ⟨us, hus, hdi⟩ := takes_loopHead hh
    obtain ⟨vs, hvs, hdb⟩ := takes_suite hb
    exact ⟨_, by simp [hts, hus, hvs], .ofCompound (.loopFor hdi hdb)⟩
  · cases hl
termination_by 4 * ts.length
decreasing_by all_goals simp only [hts, List.length_cons] at *; omega

/-- What further branches are read from derives them. -/
theorem takes_alternatives {ts rest : List Token}
    {others : List (Expr × List Stmt) × Option (List Stmt)}
    (h : plain (alternatives ts) = .ok (others, rest)) :
    ScriptRule.alternatives.Takes ts others rest := by
  by_cases he : ts.head? = some (.keyword .elseIf)
  · obtain ⟨ts', hts⟩ := List.head?_eq_some_iff.mp he
    rw [hts, plain_alternatives_elseIf] at h
    obtain ⟨test, rest₁, hc, h⟩ := exists_of_bind h
    obtain ⟨body, rest₂, hb, h⟩ := exists_of_bind h
    obtain ⟨⟨branches, otherwise⟩, rest₃, ha, he⟩ := exists_of_bind h
    cases he
    have hlt := bound_of_plain hc
    have hlt' := bound_of_plain hb
    obtain ⟨us, hus, hdc⟩ := takes_condition hc
    obtain ⟨vs, hvs, hdb⟩ := takes_suite hb
    obtain ⟨ws, hws, hda⟩ := takes_alternatives ha
    exact ⟨_, by simp [hts, hus, hvs, hws], .elseIf hdc hdb hda⟩
  by_cases ho : ts.head? = some (.keyword .otherwise)
  · obtain ⟨ts', hts⟩ := List.head?_eq_some_iff.mp ho
    rw [hts, plain_alternatives_otherwise] at h
    obtain ⟨_, middle, hc, h⟩ := exists_of_bind h
    obtain ⟨body, rest', hb, he⟩ := exists_of_bind h
    cases he
    have hlt := bound_of_plain hc
    obtain ⟨us, hus, hdb⟩ := takes_suite hb
    exact ⟨_, by simp [hts, eq_of_plain_symbol hc, hus], .otherwise hdb⟩
  · rw [plain_alternatives_of_ne he ho] at h
    cases h
    exact ⟨[], rfl, .noAlternative⟩
termination_by 4 * ts.length
decreasing_by all_goals simp only [hts, List.length_cons] at *; omega

/-- What a body is read from derives it, whether it is a line or a block. -/
theorem takes_suite {ts rest : List Token} {p : List Stmt} (h : plain (suite ts) = .ok (p, rest)) :
    ScriptRule.suite.Takes ts p rest := by
  by_cases hn : ts.head? = some .newline
  · obtain ⟨ts₁, hts₁⟩ := List.head?_eq_some_iff.mp hn
    by_cases hi : ts₁.head? = some .indent
    · obtain ⟨ts₂, hts₂⟩ := List.head?_eq_some_iff.mp hi
      have hts : ts = .newline :: .indent :: ts₂ := by rw [hts₁, hts₂]
      rw [hts, plain_suite_block] at h
      obtain ⟨first, middle, hf, h⟩ := exists_of_bind h
      obtain ⟨others, rest', ho, he⟩ := exists_of_bind h
      cases he
      have hlt := bound_of_plain hf
      obtain ⟨us, hus, hdf⟩ := takes_line hf
      obtain ⟨vs, hvs, hdl⟩ := takes_linesToDedent hdf ho
      exact ⟨_, by simp [hts, hus, hvs], .block hdl⟩
    · rw [hts₁, plain_suite_newline hi] at h
      cases h
  · rw [plain_suite_inline hn] at h
    obtain ⟨us, hus, hd⟩ := takes_simpleLine h
    exact ⟨us, hus, .ofInlineSuite hd⟩
termination_by 4 * ts.length
decreasing_by all_goals simp only [hts, List.length_cons] at *; omega

/-- With a line before them, what the lines of a block are read from derives lines, up to the
dedent. -/
theorem takes_linesToDedent {us ts rest : List Token} {p q : List Stmt}
    (hd : ScriptRule.line.Derives us p) (h : plain (linesToDedent ts) = .ok (q, rest)) :
    ∃ vs, ts = vs ++ .dedent :: rest ∧ ScriptRule.lines.Derives (us ++ vs) (p ++ q) := by
  by_cases he : ts.head? = some .dedent
  · obtain ⟨ts', hts⟩ := List.head?_eq_some_iff.mp he
    rw [hts, plain_linesToDedent_dedent] at h
    cases h
    exact ⟨[], hts, by simpa using .lastLine hd⟩
  · rw [plain_linesToDedent_of_ne he] at h
    obtain ⟨first, middle, hf, h⟩ := exists_of_bind h
    obtain ⟨others, rest', ho, he⟩ := exists_of_bind h
    cases he
    have hlt := bound_of_plain hf
    obtain ⟨vs, hvs, hdf⟩ := takes_line hf
    obtain ⟨ws, hws, hdl⟩ := takes_linesToDedent hdf ho
    exact ⟨vs ++ ws, by simp [hvs, hws], .moreLines hd hdl⟩
termination_by 4 * ts.length + 1
decreasing_by all_goals omega

end

/-- What is read as lines of a script to the end is derived. -/
theorem derives_of_script {t : Token} {ts : List Token} {p : List Stmt}
    (h : script (t :: ts) = .ok p) : ScriptRule.lines.Derives (t :: ts) p := by
  rw [script_cons] at h
  obtain ⟨first, middle, hf, h⟩ := exists_of_bind h
  have hlt := bound_of_plain hf
  obtain ⟨us, hus, hd⟩ := takes_line hf
  dsimp only at h
  rcases hs : script middle with stuck | others
  · rw [hs] at h
    cases h
  rw [hs] at h
  cases h
  rw [hus]
  rcases hm : middle with _ | ⟨t', ts'⟩
  · rw [hm, script] at hs
    cases hs
    simpa using .lastLine hd
  · rw [hm] at hs
    exact .moreLines hd (derives_of_script hs)
termination_by ts.length
decreasing_by
  simp only [hm, List.length_cons] at hlt
  omega

end Reader

end ScriptShell
