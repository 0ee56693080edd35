import ScriptShell.Proofs.Script.FirstTokens
import ScriptShell.Proofs.Script.PlainReading
import ScriptShell.Proofs.Script.Soundness

/-!
# What is derived is read

A reader takes a derived list off the front of any tokens, provided that the tokens after it do not
carry on what was read. Tokens are ranked by how loosely they join what stands before them, so this
proviso is a bound on the rank of one token. Where a tree grows to the left, the statement is that
reading a derived list comes to the same as reading on from its tree.
-/

namespace ScriptShell

/-- How loosely a token joins what stands before it with what follows; eight if it never does. -/
def Token.looseness : Token → Nat
  | .symbol .openParen | .symbol .openBracket => 1
  | .symbol .power => 2
  | .symbol .times | .symbol .divide | .symbol .floorDivide | .symbol .percent => 3
  | .symbol .plus | .symbol .minus => 4
  | .symbol .equal | .symbol .notEqual | .symbol .less | .symbol .greater | .symbol .atMost
  | .symbol .atLeast | .keyword .within => 5
  | .keyword .conj => 6
  | .keyword .disj => 7
  | _ => 8

/-- The first token, if there is one, joins more loosely than `bound`. -/
def Parted (bound : Nat) (ts : List Token) : Prop := ∀ t, ts.head? = some t → bound < t.looseness

/-- What a loose token parts, it parts from tighter ones too. -/
theorem Parted.mono {bound bound' : Nat} (hb : bound' ≤ bound) {ts : List Token}
    (h : Parted bound ts) : Parted bound' ts := fun t ht => Nat.lt_of_le_of_lt hb (h t ht)

/-- A token that joins more loosely than the bound parts what stands before it. -/
theorem Parted.cons {bound : Nat} {t : Token} (h : bound < t.looseness) (ts : List Token) :
    Parted bound (t :: ts) := by
  rintro _ ⟨⟩
  exact h

/-- No token that joins as tightly as the bound is next. -/
theorem Parted.head?_ne {bound : Nat} {ts : List Token} (h : Parted bound ts) {t : Token}
    (ht : t.looseness ≤ bound) : ts.head? ≠ some t := fun he => Nat.not_lt.mpr ht (h t he)

namespace Reader

/-- The looseness of the operators of a level. -/
def Level.looseness : Level → Nat
  | .or => 7
  | .and => 6
  | .sum => 4
  | .term => 3

/-- The operators of a level join as loosely as the level. -/
theorem Level.looseness_of_operator? {level : Level} {t : Token} {build : Expr → Expr → Expr}
    (h : level.operator? t = some build) : t.looseness = level.looseness := by
  unfold Level.operator? at h
  split at h
  all_goals cases h
  all_goals rfl

/-- Comparisons join more loosely than sums and more tightly than conjunctions. -/
theorem looseness_of_comparison? {t : Token} {op : Operator} (h : comparison? t = some op) :
    t.looseness = 5 := by
  unfold comparison? at h
  split at h
  all_goals cases h
  all_goals rfl

/-- A chain ends before a token that is no operator of its level. -/
theorem plain_chainTail_of_parted {level : Level} {ts : List Token}
    (h : Parted level.looseness ts) (e : Expr) : plain (chainTail level e ts) = .ok (e, ts) := by
  cases ts with
  | nil => exact plain_chainTail_nil level e
  | cons t ts =>
    rcases hop : level.operator? t with _ | build
    · exact plain_chainTail_of_none hop e ts
    · have hlt := h t rfl
      rw [Level.looseness_of_operator? hop] at hlt
      exact absurd hlt (Nat.lt_irrefl _)

/-- A postfix expression ends before a token that opens no call and no index. -/
theorem plain_postfixTail_of_parted {ts : List Token} (h : Parted 1 ts) (e : Expr) :
    plain (postfixTail e ts) = .ok (e, ts) :=
  plain_postfixTail_of_ne e (h.head?_ne (by decide)) (h.head?_ne (by decide))

/-- A list is read as an operand of a level. -/
def Level.PartRead (level : Level) (us : List Token) (e : Expr) : Prop :=
  ∀ rest, Parted (level.looseness - 1) rest → plain (operand level (us ++ rest)) = .ok (e, rest)

/-- Reading a list as a chain of a level comes to reading on from a tree. -/
def Level.ChainRead (level : Level) (us : List Token) (e : Expr) : Prop :=
  ∀ rest, Parted (level.looseness - 1) rest →
    plain (chain level (us ++ rest)) = plain (chainTail level e rest)

/-- An operand that is read as a part is read as a chain of one. -/
theorem Level.PartRead.chain {level : Level} {us : List Token} {e : Expr}
    (h : level.PartRead us e) : level.ChainRead us e := by
  intro rest hrest
  rw [plain_chain, h rest hrest, ok_bind]

/-- A chain that is read goes on with an operator and an operand. -/
theorem Level.ChainRead.more {level : Level} {t : Token} {build : Expr → Expr → Expr}
    (hop : level.operator? t = some build) {us vs : List Token} {l r : Expr}
    (hl : level.ChainRead us l) (hr : level.PartRead vs r) :
    level.ChainRead (us ++ t :: vs) (build l r) := by
  intro rest hrest
  have ht : Parted (level.looseness - 1) (t :: (vs ++ rest)) := by
    apply Parted.cons
    rw [Level.looseness_of_operator? hop]
    cases level <;> decide
  rw [List.append_assoc, List.cons_append, hl _ ht, plain_chainTail_of_some hop, hr rest hrest,
    ok_bind]

/-- A chain is read to its end before a token that is no operator of its level. -/
theorem Level.ChainRead.whole {level : Level} {us : List Token} {e : Expr}
    (h : level.ChainRead us e) {rest : List Token} (hrest : Parted level.looseness rest) :
    plain (chain level (us ++ rest)) = .ok (e, rest) := by
  rw [h rest (hrest.mono (Nat.sub_le _ _)), plain_chainTail_of_parted hrest]

/-- A list is read as what it is derived from, before any tokens that do not carry it on. -/
def IsRead : (rule : ExprRule) → List Token → rule.Tree → Prop
  | .or, us, e => Level.or.ChainRead us e
  | .and, us, e => Level.and.ChainRead us e
  | .not, us, e => ∀ rest, Parted 5 rest → plain (negation (us ++ rest)) = .ok (e, rest)
  | .comparison, us, e => ∀ rest, Parted 5 rest → plain (comparison (us ++ rest)) = .ok (e, rest)
  | .sum, us, e => Level.sum.ChainRead us e
  | .term, us, e => Level.term.ChainRead us e
  | .unary, us, e => ∀ rest, Parted 2 rest → plain (unary (us ++ rest)) = .ok (e, rest)
  | .power, us, e => ∀ rest, Parted 2 rest → plain (power (us ++ rest)) = .ok (e, rest)
  | .postfixed, us, e => ∀ rest, plain (postfixed (us ++ rest)) = plain (postfixTail e rest)
  | .atom, us, e => ∀ rest, plain (atom (us ++ rest)) = .ok (e, rest)
  | .items, us, es => ∀ close rest, close = .closeParen ∨ close = .closeBracket →
      plain (items close (us ++ .symbol close :: rest)) = .ok (es, rest)
  | .pairs, us, es => ∀ rest, plain (pairs (us ++ .symbol .closeBrace :: rest)) = .ok (es, rest)

theorem plain_expr_of_isRead {us : List Token} {e : Expr} (h : IsRead .or us e)
    {rest : List Token} (hrest : Parted 7 rest) : plain (expr (us ++ rest)) = .ok (e, rest) := by
  rw [plain_expr, Level.ChainRead.whole h hrest]

/-- A token that is a literal is an atom by itself. -/
theorem leaf?_of_literalToken {t : Token} {e : Expr} (h : LiteralToken t e) : leaf? t = some e := by
  cases h <;> rfl

/-- The sign of a comparison is taken for it. -/
theorem comparison?_of_mem {t : Token} {op : Operator} (h : (t, op) ∈ comparisonSigns) :
    comparison? t = some op := by
  simp only [comparisonSigns, List.mem_cons, Prod.mk.injEq, List.not_mem_nil, or_false] at h
  rcases h with ⟨rfl, rfl⟩ | ⟨rfl, rfl⟩ | ⟨rfl, rfl⟩ | ⟨rfl, rfl⟩ | ⟨rfl, rfl⟩ | ⟨rfl, rfl⟩ |
    ⟨rfl, rfl⟩ <;> rfl

/-- The sign of a sum is taken for it. -/
theorem operator?_sum_of_mem {t : Token} {op : Operator} (h : (t, op) ∈ sumSigns) :
    Level.sum.operator? t = some (.binary op) := by
  simp only [sumSigns, List.mem_cons, Prod.mk.injEq, List.not_mem_nil, or_false] at h
  rcases h with ⟨rfl, rfl⟩ | ⟨rfl, rfl⟩ <;> rfl

/-- The sign of a product is taken for it. -/
theorem operator?_term_of_mem {t : Token} {op : Operator} (h : (t, op) ∈ termSigns) :
    Level.term.operator? t = some (.binary op) := by
  simp only [termSigns, List.mem_cons, Prod.mk.injEq, List.not_mem_nil, or_false] at h
  rcases h with ⟨rfl, rfl⟩ | ⟨rfl, rfl⟩ | ⟨rfl, rfl⟩ | ⟨rfl, rfl⟩ <;> rfl

/-- A sum before a token that is no comparison is the whole comparison. -/
theorem isRead_ofSum {us : List Token} {e : Expr} (h : IsRead .sum us e) :
    IsRead .comparison us e := by
  intro rest hrest
  rw [plain_comparison, Level.ChainRead.whole h (hrest.mono (by decide)), ok_bind]
  cases rest with
  | nil => rfl
  | cons t rest =>
    dsimp only
    rcases hop : comparison? t with _ | op
    · rfl
    · have hlt := hrest t rfl
      rw [looseness_of_comparison? hop] at hlt
      exact absurd hlt (Nat.lt_irrefl _)

/-- Two sums with a comparison between them are read as such. -/
theorem isRead_compare {us vs : List Token} {l r : Expr} {t : Token} {op : Operator}
    (ht : (t, op) ∈ comparisonSigns) (hl : IsRead .sum us l)
    (hr : IsRead .sum vs r) :
    IsRead .comparison (us ++ t :: vs) (.binary op l r) := by
  intro rest hrest
  have hop := comparison?_of_mem ht
  have hparted : Parted 4 (t :: (vs ++ rest)) :=
    .cons (by rw [looseness_of_comparison? hop]; decide) _
  rw [List.append_assoc, List.cons_append, plain_comparison, Level.ChainRead.whole hl hparted,
    ok_bind]
  dsimp only
  rw [hop]
  dsimp only
  rw [Level.ChainRead.whole hr (hrest.mono (by decide)), ok_bind]

/-- A postfix expression is read as a power without an exponent. -/
theorem isRead_ofPostfixed {us : List Token} {e : Expr} (h : IsRead .postfixed us e) :
    IsRead .power us e := by
  intro rest hrest
  rw [plain_power, h rest, plain_postfixTail_of_parted (hrest.mono (by decide)), ok_bind]
  dsimp only
  split
  · exact absurd rfl (hrest.head?_ne (by decide))
  · rfl

/-- A postfix expression with an exponent is read as a power. -/
theorem isRead_exponent {us vs : List Token} {l r : Expr} (hl : IsRead .postfixed us l)
    (hr : IsRead .unary vs r) :
    IsRead .power (us ++ .symbol .power :: vs) (.binary .pow l r) := by
  intro rest hrest
  have hparted : Parted 1 (.symbol .power :: (vs ++ rest)) := .cons (by decide) _
  rw [List.append_assoc, List.cons_append, plain_power, hl, plain_postfixTail_of_parted hparted,
    ok_bind]
  dsimp only
  rw [hr rest hrest, ok_bind]

/-- A closing bracket does not carry an expression on. -/
theorem parted_close {close : Symbol} (hc : close = .closeParen ∨ close = .closeBracket)
    (rest : List Token) : Parted 7 (.symbol close :: rest) := by
  rcases hc with rfl | rfl <;> exact .cons (by decide) _

/-- An expression starts with no closing bracket, so reading items reads it. -/
theorem plain_items_of_startsExpr {close : Symbol}
    (hc : close = .closeParen ∨ close = .closeBracket) {us : List Token}
    (h : StartsWith Token.startsExpr us) (rest : List Token) :
    plain (items close (us ++ rest)) = plain (itemsFrom close (us ++ rest)) := by
  obtain ⟨u, vs, rfl, hu⟩ := h
  apply plain_items_of_ne
  rintro rfl
  rcases hc with rfl | rfl <;> cases hu

/-- An expression before the closing bracket is read as the last item. -/
theorem isRead_lastItem {us : List Token} {e : Expr} (hs : StartsWith Token.startsExpr us)
    (h : IsRead .or us e) : IsRead .items us [e] := by
  intro close rest hc
  rw [plain_items_of_startsExpr hc hs, plain_itemsFrom,
    plain_expr_of_isRead h (parted_close hc rest), ok_bind]
  dsimp only
  rw [if_pos rfl]

/-- An expression before a comma is read as an item, and the others after it. -/
theorem isRead_moreItems {us vs : List Token} {e : Expr} {es : List Expr}
    (hs : StartsWith Token.startsExpr us) (h : IsRead .or us e)
    (ht : IsRead .items vs es) :
    IsRead .items (us ++ .symbol .comma :: vs) (e :: es) := by
  intro close rest hc
  have hparted : Parted 7 (.symbol .comma :: (vs ++ .symbol close :: rest)) := .cons (by decide) _
  have hne : Symbol.comma ≠ close := by rcases hc with rfl | rfl <;> decide
  rw [List.append_assoc, List.cons_append, plain_items_of_startsExpr hc hs, plain_itemsFrom,
    plain_expr_of_isRead h hparted, ok_bind]
  dsimp only
  rw [if_neg hne, if_pos rfl, ht close rest hc, ok_bind]

/-- A key and its value are read up to what follows them. -/
theorem plain_pairs_pair {us vs : List Token} {k e : Expr} (hs : StartsWith Token.startsExpr us)
    (hk : IsRead .or us k) (he : IsRead .or vs e) (rest : List Token) :
    Parted 7 rest → plain (pairs (us ++ .symbol .colon :: vs ++ rest)) =
      match rest with
      | .symbol .closeBrace :: rest => .ok ([(k, e)], rest)
      | .symbol .comma :: rest =>
        plain (pairs rest) >>= fun (others, rest) => .ok ((k, e) :: others, rest)
      | rest => .error rest := by
  intro hrest
  have hparted : Parted 7 (.symbol .colon :: (vs ++ rest)) := .cons (by decide) _
  have hne : (us ++ .symbol .colon :: vs ++ rest).head? ≠ some (.symbol .closeBrace) :=
    ((hs.append _).append _).head?_ne rfl
  rw [plain_pairs_of_ne hne, List.append_assoc, List.cons_append, plain_pairsFrom,
    plain_expr_of_isRead hk hparted, ok_bind]
  dsimp only
  rw [plain_expr_of_isRead he hrest]
  rfl

end Reader

open Reader

/-- What is derived is read. -/
theorem ExprRule.Derives.isRead {rule : ExprRule} {us : List Token} {tree : rule.Tree}
    (h : rule.Derives us tree) : IsRead rule us tree := by
  induction h with
  | ofAnd _ ih =>
    have hpart : Level.or.PartRead _ _ := fun rest hrest => by
      rw [plain_operand_or, Level.ChainRead.whole ih hrest]
    exact hpart.chain
  | disj _ _ ihl ihr =>
    have hpart : Level.or.PartRead _ _ := fun rest hrest => by
      rw [plain_operand_or, Level.ChainRead.whole ihr hrest]
    exact Level.ChainRead.more (rfl : Level.or.operator? (.keyword .disj) = some .or) ihl hpart
  | ofNot _ ih =>
    have hpart : Level.and.PartRead _ _ := fun rest hrest => by
      rw [plain_operand_and, ih rest hrest]
    exact hpart.chain
  | conj _ _ ihl ihr =>
    have hpart : Level.and.PartRead _ _ := fun rest hrest => by
      rw [plain_operand_and, ihr rest hrest]
    exact Level.ChainRead.more (rfl : Level.and.operator? (.keyword .conj) = some .and) ihl hpart
  | ofComparison hd ih =>
    intro rest hrest
    have hs := (hd.startsWith _ rfl).append rest
    rw [plain_negation_of_ne (hs.head?_ne rfl), ih rest hrest]
  | negation _ ih =>
    intro rest hrest
    rw [List.cons_append, plain_negation_not, ih rest hrest, ok_bind]
  | ofSum _ ih => exact isRead_ofSum ih
  | compare ht _ _ ihl ihr => exact isRead_compare ht ihl ihr
  | ofTerm _ ih =>
    have hpart : Level.sum.PartRead _ _ := fun rest hrest => by
      rw [plain_operand_sum, Level.ChainRead.whole ih hrest]
    exact hpart.chain
  | add ht _ _ ihl ihr =>
    have hpart : Level.sum.PartRead _ _ := fun rest hrest => by
      rw [plain_operand_sum, Level.ChainRead.whole ihr hrest]
    exact Level.ChainRead.more (operator?_sum_of_mem ht) ihl hpart
  | ofUnary _ ih =>
    have hpart : Level.term.PartRead _ _ := fun rest hrest => by
      rw [plain_operand_term, ih rest hrest]
    exact hpart.chain
  | multiply ht _ _ ihl ihr =>
    have hpart : Level.term.PartRead _ _ := fun rest hrest => by
      rw [plain_operand_term, ihr rest hrest]
    exact Level.ChainRead.more (operator?_term_of_mem ht) ihl hpart
  | ofPower hd ih =>
    intro rest hrest
    have hs := (hd.startsWith _ rfl).append rest
    rw [plain_unary_of_ne (hs.head?_ne rfl), ih rest hrest]
  | minus _ ih =>
    intro rest hrest
    rw [List.cons_append, plain_unary_minus, ih rest hrest, ok_bind]
  | ofPostfixed _ ih => exact isRead_ofPostfixed ih
  | exponent _ _ ihl ihr => exact isRead_exponent ihl ihr
  | ofAtom _ ih =>
    intro rest
    rw [plain_postfixed, ih rest, ok_bind]
  | call _ _ ihf iha =>
    intro rest
    rw [List.append_assoc, List.append_assoc, ihf, List.cons_append, plain_postfixTail_call,
      List.singleton_append, iha _ _ (.inl rfl), ok_bind]
  | index _ _ ihe ihi =>
    intro rest
    rw [List.append_assoc, List.append_assoc, ihe, List.cons_append, plain_postfixTail_index,
      List.singleton_append,
      plain_expr_of_isRead ihi (parted_close (.inr rfl) rest), ok_bind]
  | literal ht =>
    intro rest
    exact plain_atom_leaf (leaf?_of_literalToken ht) rest
  | name =>
    intro rest
    exact plain_atom_leaf rfl rest
  | paren _ ih =>
    intro rest
    rw [List.append_assoc, List.cons_append, plain_atom_paren, List.singleton_append,
      plain_expr_of_isRead ih (parted_close (.inl rfl) rest), ok_bind]
  | list _ ih =>
    intro rest
    rw [List.append_assoc, List.cons_append, plain_atom_list, List.singleton_append,
      ih _ _ (.inr rfl), ok_bind]
  | dict _ ih =>
    intro rest
    rw [List.append_assoc, List.cons_append, plain_atom_dict, List.singleton_append, ih, ok_bind]
  | noItems =>
    intro close rest _
    exact plain_items_close close rest
  | lastItem hd ih => exact isRead_lastItem hd.startsExpr ih
  | moreItems hd _ ih iht => exact isRead_moreItems hd.startsExpr ih iht
  | noPairs =>
    intro rest
    exact plain_pairs_close rest
  | lastPair hd _ ihk ihe =>
    intro rest
    rw [plain_pairs_pair hd.startsExpr ihk ihe _ (.cons (by decide) _)]
  | morePairs hd _ _ ihk ihe iht =>
    intro rest
    rw [List.append_assoc, List.cons_append,
      plain_pairs_pair hd.startsExpr ihk ihe _ (.cons (by decide) _)]
    dsimp only
    rw [iht rest, ok_bind]

/-- An expression is read whole before a token that does not carry it on. -/
theorem ExprRule.Derives.plain_expr {us : List Token} {e : Expr} (h : ExprRule.or.Derives us e)
    {rest : List Token} (hrest : Parted 7 rest) : plain (expr (us ++ rest)) = .ok (e, rest) :=
  plain_expr_of_isRead h.isRead hrest

namespace Reader

/-! ### Statements -/

/-- The first token, if there is one, does not start a further branch of a choice. -/
def NoBranch (ts : List Token) : Prop :=
  ts.head? ≠ some (.keyword .elseIf) ∧ ts.head? ≠ some (.keyword .otherwise)

/-- The first token ends a simple statement. -/
def EndsSimple (ts : List Token) : Prop :=
  ts.head? = some .newline ∨ ts.head? = some (.symbol .semicolon)

/-- No expression goes on with a token that ends a simple statement. -/
theorem EndsSimple.parted {ts : List Token} (h : EndsSimple ts) : Parted 7 ts := by
  intro t ht
  rcases h with h | h
  all_goals
    rw [h] at ht
    cases ht
    decide

/-- What ends a simple statement stands in no expression. -/
theorem EndsSimple.exists_cons {ts : List Token} (h : EndsSimple ts) :
    ∃ t ts', ts = t :: ts' ∧ t.standsInExpr = false ∧ assignment? t = none := by
  rcases h with h | h
  all_goals
    obtain ⟨ts', rfl⟩ := List.head?_eq_some_iff.mp h
    exact ⟨_, ts', rfl, rfl, rfl⟩

/-- No sign of assignment stands in an expression. -/
theorem assignment?_of_standsInExpr {t : Token} (h : t.standsInExpr = true) :
    assignment? t = none := by
  unfold assignment?
  split
  all_goals first
    | rfl
    | cases h

/-- A sign of assignment is taken for the operator it applies. -/
theorem assignment?_of_mem {sign : Symbol} {op : Option Operator}
    (h : (sign, op) ∈ assignmentSigns) : assignment? (.symbol sign) = some op := by
  simp only [assignmentSigns, List.mem_cons, Prod.mk.injEq, List.not_mem_nil, or_false] at h
  rcases h with ⟨rfl, rfl⟩ | ⟨rfl, rfl⟩ | ⟨rfl, rfl⟩ | ⟨rfl, rfl⟩ | ⟨rfl, rfl⟩ <;> rfl

/-- Inside an expression and right after it there is no sign of assignment. -/
theorem bind_assignment?_eq_none {us rest : List Token}
    (hus : ∀ u ∈ us, u.standsInExpr = true) (hrest : EndsSimple rest) :
    (us ++ rest).head?.bind assignment? = none := by
  cases us with
  | nil =>
    obtain ⟨t, ts, rfl, _, ht⟩ := hrest.exists_cons
    exact ht
  | cons u us => exact assignment?_of_standsInExpr (hus u (List.mem_cons_self ..))

/-- An expression up to the end of its statement is no target of an item assignment: the sign of
assignment stands neither in it nor behind tokens that end it. -/
theorem itemTarget?_eq_none {us rest : List Token} (hus : ∀ u ∈ us, u.standsInExpr = true)
    (hrest : EndsSimple rest) : itemTarget? (us ++ rest) = none := by
  rcases hi : itemTarget? (us ++ rest) with _ | ⟨index, rest'⟩
  · rfl
  exfalso
  obtain ⟨ts, hts, hx⟩ := exists_of_itemTarget? hi
  generalize rest'.1 = left at hx
  obtain ⟨vs, rfl, hd⟩ := takes_expr hx
  obtain ⟨t, ts', rfl, ht, hta⟩ := hrest.exists_cons
  have hsplit : us ++ t :: ts' = (.symbol .openBracket :: vs ++ [.symbol .closeBracket]) ++
      .symbol .assign :: left := by simp [hts]
  have hbracket : ∀ u ∈ Token.symbol .openBracket :: vs ++ [.symbol .closeBracket],
      u.standsInExpr = true := by
    simp only [List.mem_append, List.mem_cons, List.not_mem_nil, or_false]
    rintro u ((rfl | hu) | rfl)
    · rfl
    · exact hd.standsInExpr u hu
    · rfl
  rcases List.append_eq_append_iff.mp hsplit with ⟨as, has, hrest'⟩ | ⟨bs, hbs, hassign⟩
  · cases as with
    | nil =>
      cases hrest'
      cases hta
    | cons =>
      cases hrest'
      rw [hbracket t (by simp [has])] at ht
      cases ht
  · cases bs with
    | nil =>
      cases hassign
      cases hta
    | cons =>
      cases hassign
      have hsign := hus (.symbol .assign) (by simp [hbs])
      cases hsign

/-- An expression is read as a statement where a simple statement ends behind it. -/
theorem plain_bareExpr_of_derives {us : List Token} {e : Expr} (h : ExprRule.or.Derives us e)
    {rest : List Token} (hrest : EndsSimple rest) :
    plain (bareExpr (us ++ rest)) = .ok (.expr e, rest) := by
  rw [plain_bareExpr, h.plain_expr hrest.parted, ok_bind]

/-- An expression is read as a statement, also where it starts with a name. -/
theorem plain_simpleStatement_of_derives {us : List Token} {e : Expr}
    (h : ExprRule.or.Derives us e) {rest : List Token} (hrest : EndsSimple rest) :
    plain (simpleStatement (us ++ rest)) = .ok (.expr e, rest) := by
  obtain ⟨u, vs, rfl, hu⟩ := h.startsExpr
  by_cases hl : leadsStatement u = true
  · unfold leadsStatement at hl
    split at hl
    · cases hu
    · cases hu
    · cases hu
    · cases hu
    · have hvs : ∀ v ∈ vs, v.standsInExpr = true :=
        fun v hv => h.standsInExpr v (List.mem_cons_of_mem _ hv)
      rw [List.cons_append, plain_simpleStatement_name,
        plain_namedStatement_expr (bind_assignment?_eq_none hvs hrest)
          (itemTarget?_eq_none hvs hrest)]
      exact plain_bareExpr_of_derives h hrest
    · cases hl
  · rw [plain_simpleStatement_expr (by simpa using hl), plain_bareExpr_of_derives h hrest]

/-- A list is read as what it is derived from as a script or a part of one. -/
def ScriptIsRead : (rule : ScriptRule) → List Token → rule.Tree → Prop
  | .program, us, p => script us = .ok p
  | .line, us, p => ∀ rest, NoBranch rest → plain (line (us ++ rest)) = .ok (p, rest)
  | .simpleLine, us, p => ∀ rest, plain (simpleLine (us ++ rest)) = .ok (p, rest)
  | .simple, us, s => ∀ rest, EndsSimple rest →
      plain (simpleStatement (us ++ rest)) = .ok (s, rest)
  | .compound, us, s => ∀ rest, NoBranch rest → plain (line (us ++ rest)) = .ok ([s], rest)
  | .alternatives, us, others => ∀ rest, NoBranch rest →
      plain (alternatives (us ++ rest)) = .ok (others, rest)
  | .parameters, us, params => ∀ rest,
      plain (parameters (us ++ .symbol .closeParen :: rest)) = .ok (params, rest)
  | .suite, us, p => ∀ rest, plain (suite (us ++ rest)) = .ok (p, rest)
  | .lines, us, p => script us = .ok p ∧
      ∀ rest, plain (linesToDedent (us ++ .dedent :: rest)) = .ok (p, rest)

/-- A condition is read with its colon. -/
theorem plain_condition_of_derives {us : List Token} {c : Expr} (h : ExprRule.or.Derives us c)
    (rest : List Token) : plain (condition (us ++ .symbol .colon :: rest)) = .ok (c, rest) := by
  have hcolon : Parted 7 (.symbol .colon :: rest) := .cons (by decide) rest
  simp only [plain_condition, h.plain_expr hcolon, ok_bind, plain_symbol_self]

/-- A value behind the word that leaves a function is given back. -/
theorem scriptIsRead_giveBack {us : List Token} {e : Expr} (h : ExprRule.or.Derives us e) :
    ScriptIsRead .simple (.keyword .giveBack :: us) (.giveBack (some e)) := by
  intro rest hrest
  have hs := h.startsExpr.append rest
  rw [List.cons_append, plain_simpleStatement_giveBack,
    plain_giveBack_value (hs.head?_ne rfl) (hs.head?_ne rfl), h.plain_expr hrest.parted, ok_bind]

/-- A name, a sign of assignment and a value are read as an assignment. -/
theorem scriptIsRead_assign {x : String} {sign : Symbol} {op : Option Operator} {us : List Token}
    {e : Expr} (hs : (sign, op) ∈ assignmentSigns) (h : ExprRule.or.Derives us e) :
    ScriptIsRead .simple (.identifier x :: .symbol sign :: us) (.assign x op e) := by
  intro rest hrest
  rw [List.cons_append, List.cons_append, plain_simpleStatement_name,
    plain_namedStatement_assign (assignment?_of_mem hs), h.plain_expr hrest.parted, ok_bind]

/-- A name, an index and a value are read as an assignment to an item. -/
theorem scriptIsRead_setItem {x : String} {us vs : List Token} {i e : Expr}
    (hi : ExprRule.or.Derives us i) (he : ExprRule.or.Derives vs e) :
    ScriptIsRead .simple (.identifier x :: .symbol .openBracket :: us ++
      .symbol .closeBracket :: .symbol .assign :: vs) (.setItem x i e) := by
  intro rest hrest
  have hindex := hi.plain_expr (parted_close (.inr rfl) (.symbol .assign :: (vs ++ rest)))
  obtain ⟨_, htarget⟩ := itemTarget?_bracket _ hindex
  rw [List.append_assoc, List.cons_append, List.cons_append, List.cons_append, List.cons_append,
    plain_simpleStatement_name, plain_namedStatement_setItem rfl htarget,
    he.plain_expr hrest.parted, ok_bind]

/-- A simple statement before a semicolon is read, and the others after it. -/
theorem scriptIsRead_moreSimple {us vs : List Token} {s : Stmt} {p : List Stmt}
    (hs : ScriptIsRead .simple us s) (hv : StartsWith Token.startsSimple vs)
    (hp : ScriptIsRead .simpleLine vs p) :
    ScriptIsRead .simpleLine (us ++ .symbol .semicolon :: vs) (s :: p) := by
  intro rest
  rw [List.append_assoc, List.cons_append, plain_simpleLine, hs _ (.inr rfl), ok_bind]
  obtain ⟨v, vs', rfl, hv⟩ := hv
  dsimp only
  split
  · next heq => cases heq
  · next heq =>
    cases heq
    cases hv
  · next heq =>
    cases heq
    rw [hp rest, ok_bind]
  · next hne => exact (hne _ rfl).elim

/-- A name, parameters and a body are read as a definition. -/
theorem scriptIsRead_define {x : String} {us vs : List Token} {params : List String}
    {body : List Stmt} (hp : ScriptIsRead .parameters us params)
    (hb : ScriptIsRead .suite vs body) :
    ScriptIsRead .compound (.keyword .define :: .identifier x :: .symbol .openParen :: us ++
      .symbol .closeParen :: .symbol .colon :: vs) (.define x params body) := by
  intro rest _
  rw [List.append_assoc, List.cons_append, List.cons_append, List.cons_append, List.cons_append,
    List.cons_append]
  simp only [plain_line_define, plain_signature, plain_identifier, ok_bind, plain_symbol_self,
    hp (.symbol .colon :: (vs ++ rest)), hb rest]

/-- A condition, a body and further branches are read as a choice. -/
theorem scriptIsRead_choose {us vs ws : List Token} {c : Expr} {body : List Stmt}
    {branches : List (Expr × List Stmt)} {otherwise : Option (List Stmt)}
    (hc : ExprRule.or.Derives us c) (hb : ScriptIsRead .suite vs body)
    (ha : ScriptIsRead .alternatives ws (branches, otherwise)) :
    ScriptIsRead .compound (.keyword .onlyIf :: us ++ .symbol .colon :: vs ++ ws)
      (.choose ((c, body) :: branches) otherwise) := by
  intro rest hrest
  rw [List.append_assoc, List.append_assoc, List.cons_append, List.cons_append]
  simp only [plain_line_choose, plain_condition_of_derives hc, ok_bind, hb (ws ++ rest),
    ha rest hrest]

/-- A condition and a body behind the word of a further branch are read as one. -/
theorem scriptIsRead_elseIf {us vs ws : List Token} {c : Expr} {body : List Stmt}
    {branches : List (Expr × List Stmt)} {otherwise : Option (List Stmt)}
    (hc : ExprRule.or.Derives us c) (hb : ScriptIsRead .suite vs body)
    (ha : ScriptIsRead .alternatives ws (branches, otherwise)) :
    ScriptIsRead .alternatives (.keyword .elseIf :: us ++ .symbol .colon :: vs ++ ws)
      ((c, body) :: branches, otherwise) := by
  intro rest hrest
  rw [List.append_assoc, List.append_assoc, List.cons_append, List.cons_append]
  simp only [plain_alternatives_elseIf, plain_condition_of_derives hc, ok_bind, hb (ws ++ rest),
    ha rest hrest]

/-- A condition and a body are read as a loop. -/
theorem scriptIsRead_loopWhile {us vs : List Token} {c : Expr} {body : List Stmt}
    (hc : ExprRule.or.Derives us c) (hb : ScriptIsRead .suite vs body) :
    ScriptIsRead .compound (.keyword .loopWhile :: us ++ .symbol .colon :: vs)
      (.loopWhile c body) := by
  intro rest _
  rw [List.append_assoc, List.cons_append, List.cons_append]
  simp only [plain_line_loopWhile, plain_condition_of_derives hc, ok_bind, hb rest]

/-- A variable, an iterable and a body are read as a loop over items. -/
theorem scriptIsRead_loopFor {x : String} {us vs : List Token} {e : Expr} {body : List Stmt}
    (he : ExprRule.or.Derives us e) (hb : ScriptIsRead .suite vs body) :
    ScriptIsRead .compound (.keyword .loopFor :: .identifier x :: .keyword .within :: us ++
      .symbol .colon :: vs) (.loopFor x e body) := by
  intro rest _
  rw [List.append_assoc, List.cons_append, List.cons_append, List.cons_append, List.cons_append]
  simp only [plain_line_loopFor, plain_loopHead, plain_identifier, ok_bind, plain_exactly,
    plain_condition_of_derives he, hb rest]

/-- A line starts no further branch. -/
theorem noBranch_of_startsLine {ts : List Token} (h : StartsWith Token.startsLine ts) :
    NoBranch ts := ⟨h.head?_ne rfl, h.head?_ne rfl⟩

/-- A script is read line by line. -/
theorem script_of_line {us vs : List Token} {p q : List Stmt}
    (hu : StartsWith Token.startsLine us) (hp : plain (line (us ++ vs)) = .ok (p, vs))
    (hq : script vs = .ok q) : script (us ++ vs) = .ok (p ++ q) := by
  obtain ⟨u, us', rfl, _⟩ := hu
  rw [List.cons_append] at hp ⊢
  simp only [script_cons, hp, ok_bind, hq]
  rfl

/-- A line before the dedent is read as the last one of its block. -/
theorem scriptIsRead_lastLine {us : List Token} {p : List Stmt}
    (hu : StartsWith Token.startsLine us) (h : ScriptIsRead .line us p) :
    ScriptIsRead .lines us p := by
  constructor
  · have hscript := script_of_line hu (h [] ⟨by simp, by simp⟩) (by rw [script])
    simpa only [List.append_nil] using hscript
  · intro rest
    have hp := h (.dedent :: rest) ⟨by simp, by simp⟩
    simp only [plain_linesToDedent_of_ne ((hu.append _).head?_ne rfl), hp, ok_bind,
      plain_linesToDedent_dedent, List.append_nil]

/-- A line before other lines is read, and the others after it. -/
theorem scriptIsRead_moreLines {us vs : List Token} {p q : List Stmt}
    (hu : StartsWith Token.startsLine us) (hv : StartsWith Token.startsLine vs)
    (hp : ScriptIsRead .line us p) (hq : ScriptIsRead .lines vs q) :
    ScriptIsRead .lines (us ++ vs) (p ++ q) := by
  constructor
  · exact script_of_line hu (hp vs (noBranch_of_startsLine hv)) hq.1
  · intro rest
    have hbranch := noBranch_of_startsLine (hv.append (.dedent :: rest))
    rw [List.append_assoc]
    simp only [plain_linesToDedent_of_ne ((hu.append _).head?_ne rfl), hp _ hbranch, ok_bind,
      hq.2 rest]

/-- A block is read like the lines in it. -/
theorem scriptIsRead_block {us : List Token} {p : List Stmt}
    (hu : StartsWith Token.startsLine us) (h : ScriptIsRead .lines us p) :
    ScriptIsRead .suite (.newline :: .indent :: us ++ [.dedent]) p := by
  intro rest
  have hlines := h.2 rest
  rw [plain_linesToDedent_of_ne ((hu.append _).head?_ne rfl)] at hlines
  rw [List.append_assoc, List.cons_append, List.cons_append, List.singleton_append,
    plain_suite_block, hlines]

end Reader

/-- What is derived as a script, or as a part of one, is read. -/
theorem ScriptRule.Derives.isRead {rule : ScriptRule} {us : List Token} {tree : rule.Tree}
    (h : rule.Derives us tree) : ScriptIsRead rule us tree := by
  induction h with
  | emptyProgram => exact script.eq_1
  | ofLines _ ih => exact ih.1
  | ofCompound _ ih => exact ih
  | ofSimpleLine hd ih =>
    intro rest _
    have hs := (hd.startsWith _ rfl).append rest
    rw [plain_line_simple (hs.any_eq_false ?_), ih rest]
    intro t ht
    unfold leadsCompound
    split
    all_goals first
      | rfl
      | cases ht
  | lastSimple _ ih =>
    intro rest
    rw [List.append_assoc, List.singleton_append, plain_simpleLine, ih _ (.inl rfl), ok_bind]
  | lastSimpleWithSign _ ih =>
    intro rest
    rw [List.append_assoc, List.cons_append, List.singleton_append, plain_simpleLine,
      ih _ (.inr rfl), ok_bind]
  | moreSimple _ hd ihs ihp => exact scriptIsRead_moreSimple ihs (hd.startsWith _ rfl) ihp
  | pass => exact fun rest _ => plain_simpleStatement_pass rest
  | leave => exact fun rest _ => plain_simpleStatement_leave rest
  | next => exact fun rest _ => plain_simpleStatement_next rest
  | giveBackNothing =>
    intro rest hrest
    rw [List.singleton_append, plain_simpleStatement_giveBack, plain_giveBack_nothing hrest.symm]
  | giveBack he => exact scriptIsRead_giveBack he
  | assign hs he => exact scriptIsRead_assign hs he
  | setItem hi he => exact scriptIsRead_setItem hi he
  | expr he => exact fun _ hrest => plain_simpleStatement_of_derives he hrest
  | define _ _ ihp ihb => exact scriptIsRead_define ihp ihb
  | choose hc _ _ ihb iha => exact scriptIsRead_choose hc ihb iha
  | loopWhile hc _ ihb => exact scriptIsRead_loopWhile hc ihb
  | loopFor he _ ihb => exact scriptIsRead_loopFor he ihb
  | noAlternative => exact fun _ hrest => plain_alternatives_of_ne hrest.1 hrest.2
  | otherwise _ ih =>
    intro rest _
    rw [List.cons_append, List.cons_append]
    simp only [plain_alternatives_otherwise, plain_symbol_self, ok_bind, ih rest]
  | elseIf hc _ _ ihb iha => exact scriptIsRead_elseIf hc ihb iha
  | noParameter => exact fun rest => plain_parameters_close rest
  | lastParameter => exact fun rest => plain_parameters_last _ rest
  | moreParameters _ ih =>
    intro rest
    rw [List.cons_append, List.cons_append, plain_parameters_more, ih rest, ok_bind]
  | ofInlineSuite hd ih =>
    intro rest
    have hs := (hd.startsWith _ rfl).append rest
    rw [plain_suite_inline (hs.head?_ne rfl), ih rest]
  | block hd ih => exact scriptIsRead_block (hd.startsWith _ rfl) ih
  | lastLine hd ih => exact scriptIsRead_lastLine (hd.startsWith _ rfl) ih
  | moreLines hd hds ihp ihq =>
    exact scriptIsRead_moreLines (hd.startsWith _ rfl) (hds.startsWith _ rfl) ihp ihq

end ScriptShell
