import ScriptShell.Script.Reader

/-!
# Readers without bounds

The readers give back the tokens that are left together with a proof that these are fewer, which is
what makes them terminate. Here that proof is dropped: `plain` keeps what is read and what is left,
and each reader has equations between plain readings. Later statements about reading use these
equations and no definition of a reader.
-/

namespace ScriptShell.Reader

/-- What is read and the tokens after it, without the bound on their number. -/
def plain {α : Type} {P : List Token → Prop}
    (r : Except (List Token) (α × {rest : List Token // P rest})) :
    Except (List Token) (α × List Token) :=
  r.map fun (a, rest) => (a, rest.1)

section Plain

variable {α β : Type} {P Q : List Token → Prop}

/-- One reader after another can be followed without the bounds. -/
theorem plain_bind {r : Except (List Token) (α × {rest : List Token // P rest})}
    {next : α × {rest : List Token // P rest} →
      Except (List Token) (β × {rest : List Token // Q rest})}
    {go : α × List Token → Except (List Token) (β × List Token)}
    (h : ∀ a rest, plain (next (a, rest)) = go (a, rest.1)) :
    plain (r >>= next) = plain r >>= go := by
  rcases r with stuck | ⟨a, rest⟩
  · rfl
  · exact h a rest

/-- A step that only loosens the bound can be left out. -/
theorem plain_bind_self {r : Except (List Token) (α × {rest : List Token // P rest})}
    {next : α × {rest : List Token // P rest} →
      Except (List Token) (α × {rest : List Token // Q rest})}
    (h : ∀ a rest, plain (next (a, rest)) = .ok (a, rest.1)) : plain (r >>= next) = plain r := by
  rcases r with stuck | ⟨a, rest⟩
  · rfl
  · exact h a rest

/-- The bound holds of what a plain reading leaves. -/
theorem bound_of_plain {r : Except (List Token) (α × {rest : List Token // P rest})} {a : α}
    {rest : List Token} (h : plain r = .ok (a, rest)) : P rest := by
  rcases r with stuck | ⟨b, left⟩
  · cases h
  · cases h
    exact left.2

/-- Two readings in a row both succeed when the whole does. -/
theorem exists_of_bind {γ : Type} {r : Except (List Token) (α × List Token)}
    {next : α × List Token → Except (List Token) γ} {c : γ} (h : r >>= next = .ok c) :
    ∃ a rest, r = .ok (a, rest) ∧ next (a, rest) = .ok c := by
  rcases r with stuck | ⟨a, rest⟩
  · cases h
  · exact ⟨a, rest, rfl, h⟩

/-- What is read behind something read starts at the tokens it left. -/
@[simp] theorem ok_bind {γ : Type} (a : α) (rest : List Token)
    (next : α × List Token → Except (List Token) γ) :
    (.ok (a, rest) : Except (List Token) (α × List Token)) >>= next = next (a, rest) := rfl

end Plain

/-! ### Expressions -/

/-- An expression is a chain of the loosest level. -/
theorem plain_expr (ts : List Token) : plain (expr ts) = plain (chain .or ts) := by
  rw [expr]

/-- A chain is an operand and what goes on after it. -/
theorem plain_chain (level : Level) (ts : List Token) :
    plain (chain level ts) =
      plain (operand level ts) >>= fun (left, rest) => plain (chainTail level left rest) := by
  rw [chain]
  apply plain_bind
  rintro left ⟨rest, h⟩
  exact plain_bind_self fun _ _ => rfl

/-- A chain ends where no token is left. -/
theorem plain_chainTail_nil (level : Level) (left : Expr) :
    plain (chainTail level left []) = .ok (left, []) := by
  rw [chainTail]
  rfl

/-- A chain ends before a token that is no operator of its level. -/
theorem plain_chainTail_of_none {level : Level} {t : Token} (h : level.operator? t = none)
    (left : Expr) (ts : List Token) :
    plain (chainTail level left (t :: ts)) = .ok (left, t :: ts) := by
  rw [chainTail, h]
  rfl

/-- Behind an operator a chain goes on with the next operand. -/
theorem plain_chainTail_of_some {level : Level} {t : Token} {build : Expr → Expr → Expr}
    (h : level.operator? t = some build) (left : Expr) (ts : List Token) :
    plain (chainTail level left (t :: ts)) =
      plain (operand level ts) >>= fun (right, rest) =>
        plain (chainTail level (build left right) rest) := by
  rw [chainTail, h]
  apply plain_bind
  rintro right ⟨rest, hr⟩
  exact plain_bind_self fun _ _ => rfl

theorem plain_operand_or (ts : List Token) : plain (operand .or ts) = plain (chain .and ts) := by
  rw [operand]

theorem plain_operand_and (ts : List Token) : plain (operand .and ts) = plain (negation ts) := by
  rw [operand]

theorem plain_operand_sum (ts : List Token) : plain (operand .sum ts) = plain (chain .term ts) := by
  rw [operand]

theorem plain_operand_term (ts : List Token) : plain (operand .term ts) = plain (unary ts) := by
  rw [operand]

/-- A negation applies to a negation or comparison. -/
theorem plain_negation_not (ts : List Token) :
    plain (negation (.keyword .negation :: ts)) =
      plain (negation ts) >>= fun (operand, rest) => .ok (.not operand, rest) := by
  rw [negation]
  exact plain_bind fun _ _ => rfl

/-- What starts with no negation is a comparison. -/
theorem plain_negation_of_ne {ts : List Token} (h : ts.head? ≠ some (.keyword .negation)) :
    plain (negation ts) = plain (comparison ts) := by
  rw [negation]
  rintro rest rfl
  exact h rfl

/-- A comparison has one sign at most, and a sum on either side of it. -/
theorem plain_comparison (ts : List Token) :
    plain (comparison ts) = plain (chain .sum ts) >>= fun (left, rest) =>
      match rest with
      | [] => .ok (left, [])
      | t :: rest =>
        match comparison? t with
        | none => .ok (left, t :: rest)
        | some op => plain (chain .sum rest) >>= fun (right, rest) =>
          .ok (.binary op left right, rest) := by
  rw [comparison]
  apply plain_bind
  rintro left ⟨rest, h⟩
  cases rest with
  | nil => rfl
  | cons t rest =>
    dsimp only
    cases comparison? t with
    | none => rfl
    | some op => exact plain_bind fun _ _ => rfl

/-- A sign applies to an operand, which may have a sign of its own. -/
theorem plain_unary_minus (ts : List Token) :
    plain (unary (.symbol .minus :: ts)) =
      plain (unary ts) >>= fun (operand, rest) => .ok (.neg operand, rest) := by
  rw [unary]
  exact plain_bind fun _ _ => rfl

/-- What starts with no sign is a power. -/
theorem plain_unary_of_ne {ts : List Token} (h : ts.head? ≠ some (.symbol .minus)) :
    plain (unary ts) = plain (power ts) := by
  rw [unary]
  rintro rest rfl
  exact h rfl

/-- The exponent of a power is an operand, so powers group to the right. -/
theorem plain_power (ts : List Token) :
    plain (power ts) = plain (postfixed ts) >>= fun (base, rest) =>
      match rest with
      | .symbol .power :: rest => plain (unary rest) >>= fun (exponent, rest) =>
        .ok (.binary .pow base exponent, rest)
      | rest => .ok (base, rest) := by
  rw [power]
  apply plain_bind
  rintro base ⟨rest, h⟩
  dsimp only
  split
  · exact plain_bind fun _ _ => rfl
  · next hne =>
    split
    · exact (hne _ _ rfl HEq.rfl).elim
    · rfl

/-- A postfix expression is an atom and the calls and indexes after it. -/
theorem plain_postfixed (ts : List Token) :
    plain (postfixed ts) =
      plain (atom ts) >>= fun (target, rest) => plain (postfixTail target rest) := by
  rw [postfixed]
  apply plain_bind
  rintro target ⟨rest, h⟩
  exact plain_bind_self fun _ _ => rfl

/-- Behind a call a postfix expression goes on with the call made of it. -/
theorem plain_postfixTail_call (target : Expr) (ts : List Token) :
    plain (postfixTail target (.symbol .openParen :: ts)) =
      plain (items .closeParen ts) >>= fun (args, rest) =>
        plain (postfixTail (.call target args) rest) := by
  rw [postfixTail]
  apply plain_bind
  rintro args ⟨rest, h⟩
  exact plain_bind_self fun _ _ => rfl

/-- An index needs its closing bracket. -/
theorem plain_postfixTail_index (target : Expr) (ts : List Token) :
    plain (postfixTail target (.symbol .openBracket :: ts)) =
      plain (expr ts) >>= fun (index, rest) =>
        match rest with
        | .symbol .closeBracket :: rest => plain (postfixTail (.index target index) rest)
        | rest => .error rest := by
  rw [postfixTail]
  apply plain_bind
  rintro index ⟨rest, h⟩
  dsimp only
  split
  · exact plain_bind_self fun _ _ => rfl
  · next hne =>
    split
    · exact (hne _ _ rfl HEq.rfl).elim
    · rfl

/-- A postfix expression ends where no bracket opens a call or an index. -/
theorem plain_postfixTail_of_ne (target : Expr) {ts : List Token}
    (hp : ts.head? ≠ some (.symbol .openParen)) (hb : ts.head? ≠ some (.symbol .openBracket)) :
    plain (postfixTail target ts) = .ok (target, ts) := by
  rw [postfixTail]
  · rfl
  · rintro rest rfl
    exact hp rfl
  · rintro rest rfl
    exact hb rfl

theorem plain_atom_nil : plain (atom []) = .error [] := by
  rw [atom]
  rfl

/-- An expression in parentheses needs the closing one. -/
theorem plain_atom_paren (ts : List Token) :
    plain (atom (.symbol .openParen :: ts)) = plain (expr ts) >>= fun (inner, rest) =>
      match rest with
      | .symbol .closeParen :: rest => .ok (inner, rest)
      | rest => .error rest := by
  rw [atom]
  apply plain_bind
  rintro inner ⟨rest, h⟩
  dsimp only
  split
  · rfl
  · next hne =>
    split
    · exact (hne _ _ rfl HEq.rfl).elim
    · rfl

/-- A list is its items up to the closing bracket. -/
theorem plain_atom_list (ts : List Token) :
    plain (atom (.symbol .openBracket :: ts)) =
      plain (items .closeBracket ts) >>= fun (values, rest) => .ok (.list values, rest) := by
  rw [atom]
  exact plain_bind fun _ _ => rfl

/-- A dict is its pairs up to the closing brace. -/
theorem plain_atom_dict (ts : List Token) :
    plain (atom (.symbol .openBrace :: ts)) =
      plain (pairs ts) >>= fun (entries, rest) => .ok (.dict entries, rest) := by
  rw [atom]
  exact plain_bind fun _ _ => rfl

/-- A literal or a name is an atom by itself. -/
theorem plain_atom_leaf {t : Token} {e : Expr} (h : leaf? t = some e) (ts : List Token) :
    plain (atom (t :: ts)) = .ok (e, ts) := by
  rw [atom, h]
  · rfl
  all_goals
    rintro rfl
    cases h

/-- Nothing else starts an atom. -/
theorem plain_atom_of_none {t : Token} (h : leaf? t = none) (hp : t ≠ .symbol .openParen)
    (hl : t ≠ .symbol .openBracket) (hd : t ≠ .symbol .openBrace) (ts : List Token) :
    plain (atom (t :: ts)) = .error (t :: ts) := by
  rw [atom, h]
  · rfl
  · exact hp
  · exact hl
  · exact hd

theorem plain_items_nil (close : Symbol) : plain (items close []) = .error [] := by
  rw [items]
  rfl

/-- There may be no items before the closing bracket. -/
theorem plain_items_close (close : Symbol) (ts : List Token) :
    plain (items close (.symbol close :: ts)) = .ok ([], ts) := by
  rw [items, if_pos rfl]
  rfl

/-- Items start with an expression, where there are any. -/
theorem plain_items_of_ne {close : Symbol} {t : Token} (h : t ≠ .symbol close) (ts : List Token) :
    plain (items close (t :: ts)) = plain (itemsFrom close (t :: ts)) := by
  rw [items.eq_def]
  dsimp only
  split
  · next sign =>
    have hne : sign ≠ close := fun he => h (congrArg Token.symbol he)
    rw [if_neg hne]
  · rfl

/-- Behind an item stands a comma or the closing bracket. -/
theorem plain_itemsFrom (close : Symbol) (ts : List Token) :
    plain (itemsFrom close ts) = plain (expr ts) >>= fun (first, rest) =>
      match rest with
      | .symbol sign :: rest =>
        if sign = close then .ok ([first], rest)
        else if sign = .comma then
          plain (items close rest) >>= fun (others, rest) => .ok (first :: others, rest)
        else .error (.symbol sign :: rest)
      | rest => .error rest := by
  rw [itemsFrom]
  apply plain_bind
  rintro first ⟨rest, h⟩
  dsimp only
  split
  · next sign rest' h' =>
    dsimp only
    by_cases hc : sign = close
    · rw [if_pos hc, if_pos hc]
      rfl
    · rw [if_neg hc, if_neg hc]
      by_cases hm : sign = .comma
      · rw [if_pos hm, if_pos hm]
        exact plain_bind fun _ _ => rfl
      · rw [if_neg hm, if_neg hm]
        rfl
  · next hne =>
    split
    · exact (hne _ _ _ rfl HEq.rfl).elim
    · rfl

/-- No expression is read from nothing. -/
theorem plain_expr_nil : plain (expr []) = .error [] := by
  rw [plain_expr, plain_chain, plain_operand_or, plain_chain, plain_operand_and,
    plain_negation_of_ne (by simp), plain_comparison, plain_chain, plain_operand_sum, plain_chain,
    plain_operand_term, plain_unary_of_ne (by simp), plain_power, plain_postfixed, plain_atom_nil]
  rfl

/-- Before anything but the closing bracket there is at least one item. -/
theorem plain_items_of_head?_ne {close : Symbol} {ts : List Token}
    (h : ts.head? ≠ some (.symbol close)) :
    plain (items close ts) = plain (itemsFrom close ts) := by
  cases ts with
  | nil =>
    rw [plain_items_nil, plain_itemsFrom, plain_expr_nil]
    rfl
  | cons t ts => exact plain_items_of_ne (fun ht => h (congrArg some ht)) ts

/-- There may be no pairs before the closing brace. -/
theorem plain_pairs_close (ts : List Token) :
    plain (pairs (.symbol .closeBrace :: ts)) = .ok ([], ts) := by
  rw [pairs]
  rfl

/-- Pairs start with a pair, where there are any. -/
theorem plain_pairs_of_ne {ts : List Token} (h : ts.head? ≠ some (.symbol .closeBrace)) :
    plain (pairs ts) = plain (pairsFrom ts) := by
  rw [pairs]
  rintro rest rfl
  exact h rfl

/-- A key has a colon and a value, and behind a pair stands a comma or the closing brace. -/
theorem plain_pairsFrom (ts : List Token) :
    plain (pairsFrom ts) = plain (expr ts) >>= fun (key, rest) =>
      match rest with
      | .symbol .colon :: rest => plain (expr rest) >>= fun (value, rest) =>
        match rest with
        | .symbol .closeBrace :: rest => .ok ([(key, value)], rest)
        | .symbol .comma :: rest =>
          plain (pairs rest) >>= fun (others, rest) => .ok ((key, value) :: others, rest)
        | rest => .error rest
      | rest => .error rest := by
  rw [pairsFrom]
  apply plain_bind
  rintro key ⟨rest, h⟩
  dsimp only
  split
  · apply plain_bind
    rintro value ⟨rest', h'⟩
    dsimp only
    split
    · rfl
    · exact plain_bind fun _ _ => rfl
    · next hc hm =>
      split
      · exact (hc _ _ rfl HEq.rfl).elim
      · exact (hm _ _ rfl HEq.rfl).elim
      · rfl
  · next hne =>
    split
    · exact (hne _ _ rfl HEq.rfl).elim
    · rfl

/-! ### Statements -/

theorem plain_exactly {p : Token → Bool} {t : Token} (h : p t = true) (ts : List Token) :
    plain (exactly p (t :: ts)) = .ok ((), ts) := by
  rw [exactly, if_pos h]
  rfl

/-- What is taken is the next token. -/
theorem exists_of_plain_exactly {p : Token → Bool} {ts rest : List Token} {u : Unit}
    (h : plain (exactly p ts) = .ok (u, rest)) : ∃ t, p t = true ∧ ts = t :: rest := by
  cases ts with
  | nil => cases h
  | cons t ts =>
    rw [exactly] at h
    by_cases hp : p t = true
    · rw [if_pos hp] at h
      cases h
      exact ⟨t, hp, rfl⟩
    · rw [if_neg hp] at h
      cases h

theorem plain_symbol_self (sign : Symbol) (ts : List Token) :
    plain (symbol sign (.symbol sign :: ts)) = .ok ((), ts) :=
  plain_exactly (beq_self_eq_true sign) ts

/-- A reader of a symbol is stuck where another token is next. -/
theorem plain_symbol_of_ne {sign : Symbol} {ts : List Token}
    (h : ts.head? ≠ some (.symbol sign)) : plain (symbol sign ts) = .error ts := by
  cases ts with
  | nil => rfl
  | cons t ts =>
    rw [symbol, exactly, if_neg]
    · rfl
    · cases t <;> simp_all

/-- A symbol that was read was next. -/
theorem eq_of_plain_symbol {sign : Symbol} {ts rest : List Token} {u : Unit}
    (h : plain (symbol sign ts) = .ok (u, rest)) : ts = .symbol sign :: rest := by
  obtain ⟨t, ht, rfl⟩ := exists_of_plain_exactly h
  cases t <;> simp_all

theorem plain_identifier (name : String) (ts : List Token) :
    plain (identifier (.identifier name :: ts)) = .ok (name, ts) := rfl

/-- An identifier that was read was next. -/
theorem eq_of_plain_identifier {ts rest : List Token} {name : String}
    (h : plain (identifier ts) = .ok (name, rest)) : ts = .identifier name :: rest := by
  unfold identifier at h
  split at h
  all_goals cases h
  rfl

/-- An expression is a statement. -/
theorem plain_bareExpr (ts : List Token) :
    plain (bareExpr ts) = plain (expr ts) >>= fun (value, rest) => .ok (.expr value, rest) := by
  rw [bareExpr]
  exact plain_bind fun _ _ => rfl

/-- Behind a name and a sign of assignment stands a value. -/
theorem plain_namedStatement_assign {t : Token} {op : Option Operator}
    (h : assignment? t = some op) (name : String) (ts : List Token) :
    plain (namedStatement name (t :: ts)) =
      plain (expr ts) >>= fun (value, rest) => .ok (.assign name op value, rest) := by
  rw [namedStatement, h]
  exact plain_bind fun _ _ => rfl

/-- Behind an index and an equals sign stands the value of an item. -/
theorem plain_namedStatement_setItem {ts : List Token} {index : Expr} {rest : Shorter ts}
    (hne : ts.head?.bind assignment? = none) (h : itemTarget? ts = some (index, rest))
    (name : String) :
    plain (namedStatement name ts) =
      plain (expr rest.1) >>= fun (value, rest) => .ok (.setItem name index value, rest) := by
  cases ts with
  | nil => cases h
  | cons t ts =>
    rw [namedStatement, show assignment? t = none from hne]
    dsimp only
    rw [h]
    exact plain_bind fun _ _ => rfl

/-- What is assigned nothing is an expression. -/
theorem plain_namedStatement_expr {ts : List Token}
    (hne : ts.head?.bind assignment? = none) (h : itemTarget? ts = none)
    (name : String) :
    plain (namedStatement name ts) = plain (bareExpr (.identifier name :: ts)) := by
  cases ts with
  | nil => rw [namedStatement]
  | cons t ts =>
    rw [namedStatement, show assignment? t = none from hne]
    dsimp only
    rw [h]

/-- An index is assigned where the closing bracket and an equals sign stand behind its expression.
-/
theorem itemTarget?_bracket (ts : List Token) {index : Expr} {rest : List Token}
    (h : plain (expr ts) = .ok (index, .symbol .closeBracket :: .symbol .assign :: rest)) :
    ∃ hr, itemTarget? (.symbol .openBracket :: ts) = some (index, ⟨rest, hr⟩) := by
  rw [itemTarget?]
  rcases he : expr ts with stuck | ⟨i, left, hl⟩
  · rw [he] at h
    cases h
  · rw [he] at h
    cases h
    exact ⟨_, rfl⟩

/-- The target of an assignment to an item is an expression in brackets before an equals sign. -/
theorem exists_of_itemTarget? {ts : List Token} {index : Expr} {rest : Shorter ts}
    (h : itemTarget? ts = some (index, rest)) :
    ∃ us, ts = .symbol .openBracket :: us ∧
      plain (expr us) = .ok (index, .symbol .closeBracket :: .symbol .assign :: rest.1) := by
  unfold itemTarget? at h
  split at h
  · next us =>
    split at h
    · next he =>
      cases h
      exact ⟨us, rfl, by rw [he]; rfl⟩
    · cases h
  · cases h

/-- No value is given back where the statement ends behind the word. -/
theorem plain_giveBack_nothing {ts : List Token}
    (h : ts.head? = some (.symbol .semicolon) ∨ ts.head? = some .newline) :
    plain (giveBack ts) = .ok (.giveBack none, ts) := by
  rcases h with h | h <;> rw [giveBack, h] <;> rfl

/-- A value is given back where the statement goes on. -/
theorem plain_giveBack_value {ts : List Token} (hs : ts.head? ≠ some (.symbol .semicolon))
    (hn : ts.head? ≠ some .newline) :
    plain (giveBack ts) =
      plain (expr ts) >>= fun (value, rest) => .ok (.giveBack (some value), rest) := by
  rw [giveBack]
  split
  · contradiction
  · contradiction
  · exact plain_bind fun _ _ => rfl

theorem plain_simpleStatement_pass (ts : List Token) :
    plain (simpleStatement (.keyword .pass :: ts)) = .ok (.pass, ts) := rfl

theorem plain_simpleStatement_leave (ts : List Token) :
    plain (simpleStatement (.keyword .leave :: ts)) = .ok (.leave, ts) := rfl

theorem plain_simpleStatement_next (ts : List Token) :
    plain (simpleStatement (.keyword .next :: ts)) = .ok (.next, ts) := rfl

/-- The word that leaves a function starts a statement of its own. -/
theorem plain_simpleStatement_giveBack (ts : List Token) :
    plain (simpleStatement (.keyword .giveBack :: ts)) = plain (giveBack ts) := by
  rw [simpleStatement]
  exact plain_bind_self fun _ _ => rfl

/-- What starts with a name may be an assignment. -/
theorem plain_simpleStatement_name (name : String) (ts : List Token) :
    plain (simpleStatement (.identifier name :: ts)) = plain (namedStatement name ts) := rfl

/-- Whether a token starts a simple statement that is no expression, or may. -/
def leadsStatement : Token → Bool
  | .keyword .pass | .keyword .leave | .keyword .next | .keyword .giveBack | .identifier _ => true
  | _ => false

/-- What starts with no word of a statement and no name is an expression. -/
theorem plain_simpleStatement_expr {ts : List Token}
    (h : ts.head?.any leadsStatement = false) :
    plain (simpleStatement ts) = plain (bareExpr ts) := by
  unfold simpleStatement
  split
  all_goals first
    | rfl
    | cases h

/-- Behind a simple statement stands a newline, or a semicolon and perhaps another statement. -/
theorem plain_simpleLine (ts : List Token) :
    plain (simpleLine ts) = plain (simpleStatement ts) >>= fun (first, rest) =>
      match rest with
      | .newline :: rest => .ok ([first], rest)
      | .symbol .semicolon :: .newline :: rest => .ok ([first], rest)
      | .symbol .semicolon :: rest =>
        plain (simpleLine rest) >>= fun (others, rest) => .ok (first :: others, rest)
      | rest => .error rest := by
  rw [simpleLine]
  apply plain_bind
  rintro first ⟨rest, h⟩
  dsimp only
  split
  · rfl
  · rfl
  · next hnl =>
    split
    · next heq => cases heq
    · next heq =>
      cases heq
      exact (hnl _ _ HEq.rfl rfl).elim
    · next heq =>
      cases heq
      exact plain_bind fun _ _ => rfl
    · next hs => exact (hs _ rfl).elim
  · next hn hsn hs =>
    split
    · exact (hn _ _ rfl HEq.rfl).elim
    · exact (hsn _ _ rfl HEq.rfl).elim
    · exact (hs _ _ rfl HEq.rfl).elim
    · rfl

/-- There may be no parameters before the closing parenthesis. -/
theorem plain_parameters_close (ts : List Token) :
    plain (parameters (.symbol .closeParen :: ts)) = .ok ([], ts) := by
  rw [parameters]
  rfl

/-- No comma is needed behind the last parameter. -/
theorem plain_parameters_last (name : String) (ts : List Token) :
    plain (parameters (.identifier name :: .symbol .closeParen :: ts)) = .ok ([name], ts) := by
  rw [parameters]
  rfl

/-- Behind a comma stand the other parameters, if there are any. -/
theorem plain_parameters_more (name : String) (ts : List Token) :
    plain (parameters (.identifier name :: .symbol .comma :: ts)) =
      plain (parameters ts) >>= fun (others, rest) => .ok (name :: others, rest) := by
  rw [parameters]
  exact plain_bind fun _ _ => rfl

/-- Behind the name of a parameter there is a comma or the closing parenthesis. -/
theorem plain_parameters_behind (name : String) {ts : List Token}
    (hc : ts.head? ≠ some (.symbol .closeParen)) (hm : ts.head? ≠ some (.symbol .comma)) :
    plain (parameters (.identifier name :: ts)) = .error ts := by
  rw [parameters]
  · rfl
  · rintro rest rfl
    exact hc rfl
  · rintro rest rfl
    exact hm rfl

/-- Parameters start with a name, where there are any. -/
theorem plain_parameters_stuck {ts : List Token} (hc : ts.head? ≠ some (.symbol .closeParen))
    (hx : ¬∃ name, ts.head? = some (.identifier name)) :
    plain (parameters ts) = .error ts := by
  rw [parameters.eq_def]
  split
  · exact absurd rfl hc
  · exact absurd ⟨_, rfl⟩ hx
  · exact absurd ⟨_, rfl⟩ hx
  · exact absurd ⟨_, rfl⟩ hx
  · rfl

/-- What parameters are read from starts in one of three ways. -/
theorem plain_parameters_cases {ts rest : List Token} {params : List String}
    (h : plain (parameters ts) = .ok (params, rest)) :
    (ts = .symbol .closeParen :: rest ∧ params = []) ∨
      (∃ name, ts = .identifier name :: .symbol .closeParen :: rest ∧ params = [name]) ∨
      ∃ name ts' others, ts = .identifier name :: .symbol .comma :: ts' ∧
        params = name :: others ∧ plain (parameters ts') = .ok (others, rest) := by
  have hcases := h
  rw [parameters.eq_def] at hcases
  split at hcases
  · cases hcases
    exact .inl ⟨rfl, rfl⟩
  · cases hcases
    exact .inr (.inl ⟨_, rfl, rfl⟩)
  · next name ts' =>
    rw [plain_parameters_more] at h
    obtain ⟨others, rest', ho, he⟩ := exists_of_bind h
    cases he
    exact .inr (.inr ⟨name, ts', others, rfl, rfl, ho⟩)
  · cases hcases
  · cases hcases

/-- A condition is an expression with a colon behind it. -/
theorem plain_condition (ts : List Token) :
    plain (condition ts) = plain (expr ts) >>= fun (test, rest) =>
      plain (symbol .colon rest) >>= fun (_, rest) => .ok (test, rest) := by
  rw [condition]
  apply plain_bind
  rintro test ⟨rest, h⟩
  exact plain_bind fun _ _ => rfl

/-- A definition has a name, parameters in parentheses and a colon. -/
theorem plain_signature (ts : List Token) :
    plain (signature ts) = plain (identifier ts) >>= fun (name, rest) =>
      plain (symbol .openParen rest) >>= fun (_, rest) =>
        plain (parameters rest) >>= fun (params, rest) =>
          plain (symbol .colon rest) >>= fun (_, rest) => .ok ((name, params), rest) := by
  rw [signature]
  apply plain_bind
  rintro name ⟨rest, h⟩
  apply plain_bind
  rintro _ ⟨rest, h⟩
  apply plain_bind
  rintro params ⟨rest, h⟩
  exact plain_bind fun _ _ => rfl

/-- A loop over items has a variable, an iterable and a colon. -/
theorem plain_loopHead (ts : List Token) :
    plain (loopHead ts) = plain (identifier ts) >>= fun (name, rest) =>
      plain (exactly (fun | .keyword .within => true | _ => false) rest) >>= fun (_, rest) =>
        plain (condition rest) >>= fun (iterable, rest) => .ok ((name, iterable), rest) := by
  rw [loopHead]
  apply plain_bind
  rintro name ⟨rest, h⟩
  apply plain_bind
  rintro _ ⟨rest, h⟩
  exact plain_bind fun _ _ => rfl

/-- A definition is its signature and a body. -/
theorem plain_line_define (ts : List Token) :
    plain (line (.keyword .define :: ts)) = plain (signature ts) >>= fun (head, rest) =>
      plain (suite rest) >>= fun (body, rest) => .ok ([.define head.1 head.2 body], rest) := by
  rw [line]
  apply plain_bind
  rintro ⟨name, params⟩ ⟨rest, h⟩
  exact plain_bind fun _ _ => rfl

/-- A choice is a condition, a body and further branches. -/
theorem plain_line_choose (ts : List Token) :
    plain (line (.keyword .onlyIf :: ts)) = plain (condition ts) >>= fun (test, rest) =>
      plain (suite rest) >>= fun (body, rest) =>
        plain (alternatives rest) >>= fun (others, rest) =>
          .ok ([.choose ((test, body) :: others.1) others.2], rest) := by
  rw [line]
  apply plain_bind
  rintro test ⟨rest, h⟩
  apply plain_bind
  rintro body ⟨rest, h⟩
  exact plain_bind fun _ _ => rfl

/-- A loop is a condition and a body. -/
theorem plain_line_loopWhile (ts : List Token) :
    plain (line (.keyword .loopWhile :: ts)) = plain (condition ts) >>= fun (test, rest) =>
      plain (suite rest) >>= fun (body, rest) => .ok ([.loopWhile test body], rest) := by
  rw [line]
  apply plain_bind
  rintro test ⟨rest, h⟩
  exact plain_bind fun _ _ => rfl

/-- A loop over items is its head and a body. -/
theorem plain_line_loopFor (ts : List Token) :
    plain (line (.keyword .loopFor :: ts)) = plain (loopHead ts) >>= fun (head, rest) =>
      plain (suite rest) >>= fun (body, rest) => .ok ([.loopFor head.1 head.2 body], rest) := by
  rw [line]
  apply plain_bind
  rintro ⟨name, iterable⟩ ⟨rest, h⟩
  exact plain_bind fun _ _ => rfl

/-- Whether a token starts a compound statement. -/
def leadsCompound : Token → Bool
  | .keyword .define | .keyword .onlyIf | .keyword .loopWhile | .keyword .loopFor => true
  | _ => false

/-- What starts no compound statement is a line of simple ones. -/
theorem plain_line_simple {ts : List Token} (h : ts.head?.any leadsCompound = false) :
    plain (line ts) = plain (simpleLine ts) := by
  rw [line.eq_def]
  split
  all_goals first
    | rfl
    | cases h

/-- A further branch has a condition and a body, and others may follow it. -/
theorem plain_alternatives_elseIf (ts : List Token) :
    plain (alternatives (.keyword .elseIf :: ts)) = plain (condition ts) >>= fun (test, rest) =>
      plain (suite rest) >>= fun (body, rest) =>
        plain (alternatives rest) >>= fun (others, rest) =>
          .ok (((test, body) :: others.1, others.2), rest) := by
  rw [alternatives]
  apply plain_bind
  rintro test ⟨rest, h⟩
  apply plain_bind
  rintro body ⟨rest, h⟩
  exact plain_bind fun _ _ => rfl

/-- The last branch has a colon and a body, and none follows it. -/
theorem plain_alternatives_otherwise (ts : List Token) :
    plain (alternatives (.keyword .otherwise :: ts)) =
      plain (symbol .colon ts) >>= fun (_, rest) =>
        plain (suite rest) >>= fun (body, rest) => .ok (([], some body), rest) := by
  rw [alternatives]
  apply plain_bind
  rintro _ ⟨rest, h⟩
  exact plain_bind fun _ _ => rfl

/-- A choice ends where no word of a branch is next. -/
theorem plain_alternatives_of_ne {ts : List Token} (he : ts.head? ≠ some (.keyword .elseIf))
    (ho : ts.head? ≠ some (.keyword .otherwise)) :
    plain (alternatives ts) = .ok (([], none), ts) := by
  rw [alternatives.eq_def]
  split
  · exact absurd rfl he
  · exact absurd rfl ho
  · rfl

/-- A block has a line at least, and ends with its dedent. -/
theorem plain_suite_block (ts : List Token) :
    plain (suite (.newline :: .indent :: ts)) = plain (line ts) >>= fun (first, rest) =>
      plain (linesToDedent rest) >>= fun (others, rest) => .ok (first ++ others, rest) := by
  rw [suite]
  apply plain_bind
  rintro first ⟨rest, h⟩
  exact plain_bind fun _ _ => rfl

/-- Behind the newline of a body its block has to start. -/
theorem plain_suite_newline {ts : List Token} (h : ts.head? ≠ some .indent) :
    plain (suite (.newline :: ts)) = .error ts := by
  rw [suite]
  · rfl
  · rintro rest rfl
    exact h rfl

/-- A body on the line of its colon is a line of simple statements. -/
theorem plain_suite_inline {ts : List Token} (h : ts.head? ≠ some .newline) :
    plain (suite ts) = plain (simpleLine ts) := by
  rw [suite.eq_def]
  split
  · exact absurd rfl h
  · exact absurd rfl h
  · rfl

/-- A block ends with its dedent. -/
theorem plain_linesToDedent_dedent (ts : List Token) :
    plain (linesToDedent (.dedent :: ts)) = .ok ([], ts) := by
  rw [linesToDedent]
  rfl

/-- Before its dedent a block goes on with a line. -/
theorem plain_linesToDedent_of_ne {ts : List Token} (h : ts.head? ≠ some .dedent) :
    plain (linesToDedent ts) = plain (line ts) >>= fun (first, rest) =>
      plain (linesToDedent rest) >>= fun (others, rest) => .ok (first ++ others, rest) := by
  rw [linesToDedent.eq_def]
  split
  · exact absurd rfl h
  · apply plain_bind
    rintro first ⟨rest, h⟩
    exact plain_bind fun _ _ => rfl

/-- A script that is not at its end goes on with a line. -/
theorem script_cons (t : Token) (ts : List Token) :
    script (t :: ts) = plain (line (t :: ts)) >>= fun (first, rest) =>
      script rest >>= fun others => .ok (first ++ others) := by
  rw [script]
  rcases line (t :: ts) with stuck | ⟨first, rest⟩ <;> rfl

/-- Whether a token ends a line. -/
def isNewline : Token → Bool
  | .newline => true
  | _ => false

/-- Behind an expression that is the whole source there are newlines only. -/
theorem onlyExpr_eq (ts : List Token) :
    onlyExpr ts = plain (expr ts) >>= fun (value, rest) =>
      match rest.dropWhile isNewline with
      | [] => .ok value
      | stuck => .error stuck := by
  rw [onlyExpr]
  rcases expr ts with stuck | ⟨value, rest⟩ <;> rfl

end ScriptShell.Reader
