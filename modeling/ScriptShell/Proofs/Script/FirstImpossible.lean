import Mathlib
import ScriptShell.Proofs.Script.Lookahead

/-!
# The first impossible token

A reader that gets stuck has taken tokens with which something that it is a reader for begins: each
rule that is only half read can be finished, a missing operand by a name, a missing body by `pass`,
an open bracket by the one that closes it. A script that is refused is refused at the first token
that no script has after those before it, since whatever followed the token, reading would be stuck
there as well.
-/

namespace ScriptShell

/-- Some list of a kind starts with these tokens. -/
def Begins (P : List Token → Prop) (us : List Token) : Prop := ∃ vs, P (us ++ vs)

/-- A list of a kind begins one. -/
theorem Begins.of {P : List Token → Prop} {us : List Token} (h : P us) : Begins P us :=
  ⟨[], by rwa [List.append_nil]⟩

/-- What begins a list of a kind begins a list of any wider kind. -/
theorem Begins.mono {P Q : List Token → Prop} {us : List Token} (h : Begins P us)
    (hPQ : ∀ vs, P vs → Q vs) : Begins Q us := h.imp fun _ => hPQ _

/-- The token lists that a nonterminal of expressions derives. -/
def ExprRule.Derivable (rule : ExprRule) (us : List Token) : Prop := ∃ tree, rule.Derives us tree

/-- The token lists that a nonterminal of scripts derives. -/
def ScriptRule.Derivable (rule : ScriptRule) (us : List Token) : Prop :=
  ∃ tree, rule.Derives us tree

/-- A name can stand for every expression that is missing. -/
theorem derives_name : ExprRule.or.Derives [.identifier "x"] (.name "x") :=
  .of_postfixed (.ofAtom .name)

/-- A line can stand for every body that is missing. -/
theorem derives_pass : ScriptRule.simpleLine.Derives [.keyword .pass, .newline] [.pass] :=
  .lastSimple .pass

namespace Reader

/-- The tokens before those where reading gets stuck begin a list of a kind. -/
def StuckIn (P : List Token → Prop) (ts stuck : List Token) : Prop :=
  ∃ us, ts = us ++ stuck ∧ Begins P us

/-- Where nothing is taken, the missing list can follow. -/
theorem StuckIn.here {P : List Token → Prop} {us : List Token} (h : P us) (ts : List Token) :
    StuckIn P ts ts := ⟨[], rfl, us, h⟩

/-- A reading that gets stuck in a list of a kind gets stuck in one of any wider kind. -/
theorem StuckIn.mono {P Q : List Token → Prop} {ts stuck : List Token} (h : StuckIn P ts stuck)
    (hPQ : ∀ vs, P vs → Q vs) : StuckIn Q ts stuck := by
  obtain ⟨us, hus, hbegins⟩ := h
  exact ⟨us, hus, hbegins.mono hPQ⟩

/-- Being stuck inside of lists of another kind. -/
theorem StuckIn.within {P Q : List Token → Prop} {ts stuck : List Token}
    (h : StuckIn P ts stuck) (pre post : List Token)
    (hPQ : ∀ vs, P vs → Q (pre ++ vs ++ post)) : StuckIn Q (pre ++ ts) stuck := by
  obtain ⟨us, rfl, vs, hvs⟩ := h
  exact ⟨pre ++ us, (List.append_assoc ..).symm, vs ++ post, by simpa using hPQ _ hvs⟩

/-- Being stuck behind what is whole. -/
theorem StuckIn.append {P Q : List Token → Prop} {ts stuck : List Token}
    (h : StuckIn P ts stuck) (us : List Token) (hPQ : ∀ vs, P vs → Q (us ++ vs)) :
    StuckIn Q (us ++ ts) stuck :=
  h.within us [] fun vs hvs => by simpa using hPQ vs hvs

/-- Being stuck behind a sign with what stands before it. -/
theorem StuckIn.after {P Q : List Token → Prop} {ts stuck : List Token}
    (h : StuckIn P ts stuck) (us : List Token) (t : Token)
    (hPQ : ∀ vs, P vs → Q (us ++ t :: vs)) : StuckIn Q (us ++ t :: ts) stuck := by
  have happend := h.append (Q := Q) (us ++ [t]) fun vs hvs => by simpa using hPQ vs hvs
  rwa [List.append_assoc] at happend

/-- Being stuck between brackets with what stands before them. -/
theorem StuckIn.inside {P Q : List Token → Prop} {ts stuck : List Token}
    (h : StuckIn P ts stuck) (us : List Token) (o c : Token)
    (hPQ : ∀ vs, P vs → Q (us ++ o :: vs ++ [c])) : StuckIn Q (us ++ o :: ts) stuck := by
  have hwithin := h.within (Q := Q) (us ++ [o]) [c] fun vs hvs => by simpa using hPQ vs hvs
  rwa [List.append_assoc] at hwithin

/-- Of two readings in a row one gets stuck when the whole does. -/
theorem error_of_bind {α β : Type} {r : Except (List Token) (α × List Token)}
    {next : α × List Token → Except (List Token) β} {stuck : List Token}
    (h : r >>= next = .error stuck) :
    r = .error stuck ∨ ∃ a rest, r = .ok (a, rest) ∧ next (a, rest) = .error stuck := by
  rcases r with stuck' | ⟨a, rest⟩
  · cases h
    exact .inl rfl
  · exact .inr ⟨a, rest, rfl, h⟩

/-- A reading after which only what was read is changed gets stuck where it does. -/
theorem error_of_map {α β : Type} {r : Except (List Token) (α × List Token)} {f : α → β}
    {stuck : List Token} (h : (r >>= fun (a, rest) => .ok (f a, rest)) = .error stuck) :
    r = .error stuck := by
  rcases r with stuck' | ⟨a, rest⟩ <;> cases h
  rfl

/-- The token lists that are chains of a level. -/
def Level.IsChain (level : Level) (us : List Token) : Prop := ∃ e, level.Chain us e

/-- The token lists that are operands of a level. -/
def Level.IsPart (level : Level) (us : List Token) : Prop := ∃ e, level.Part us e

/-- An operand is a chain. -/
theorem Level.isChain_of_isPart (level : Level) (us : List Token) :
    level.IsPart us → level.IsChain us := fun ⟨e, h⟩ => ⟨e, level.chain_of_part h⟩

mutual

/-- What is taken before an expression gets stuck begins an expression. -/
theorem stuck_expr {ts stuck : List Token} (h : plain (expr ts) = .error stuck) :
    StuckIn ExprRule.or.Derivable ts stuck := by
  rw [plain_expr] at h
  exact stuck_chain .or h
termination_by 20 * ts.length + 14
decreasing_by simp [Level.rank]

/-- What is taken before a chain gets stuck begins a chain of its level. -/
theorem stuck_chain (level : Level) {ts stuck : List Token}
    (h : plain (chain level ts) = .error stuck) : StuckIn level.IsChain ts stuck := by
  rw [plain_chain] at h
  obtain ho | ⟨left, rest, ho, ht⟩ := error_of_bind h
  · exact (stuck_operand level ho).mono level.isChain_of_isPart
  · have hlt := bound_of_plain ho
    obtain ⟨us, rfl, hd⟩ := takes_operand level ho
    exact stuck_chainTail level (level.chain_of_part hd) ht
termination_by 20 * ts.length + level.rank
decreasing_by
  · cases level <;> simp [Level.rank]
  · have := level.rank_lt
    omega

/-- With the operands before it, what is taken before a chain gets stuck begins a chain. -/
theorem stuck_chainTail (level : Level) {us ts stuck : List Token} {left : Expr}
    (hl : level.Chain us left) (h : plain (chainTail level left ts) = .error stuck) :
    StuckIn level.IsChain (us ++ ts) stuck := by
  rcases hts : ts with _ | ⟨t, ts'⟩
  · rw [hts, plain_chainTail_nil] at h
    cases h
  rcases hop : level.operator? t with _ | build
  · rw [hts, plain_chainTail_of_none hop] at h
    cases h
  rw [hts, plain_chainTail_of_some hop] at h
  obtain ho | ⟨right, rest, ho, ht⟩ := error_of_bind h
  · exact (stuck_operand level ho).after us t fun vs ⟨r, hr⟩ => ⟨_, level.chain_more hop hl hr⟩
  · have hlt := bound_of_plain ho
    obtain ⟨vs, hvs, hr⟩ := takes_operand level ho
    have hstuck := stuck_chainTail level (level.chain_more hop hl hr) ht
    simpa [hvs] using hstuck
termination_by 20 * ts.length
decreasing_by
  all_goals have := level.rank_lt
  all_goals simp only [hts, List.length_cons]
  all_goals omega

/-- What is taken before an operand gets stuck begins an operand of its level. -/
theorem stuck_operand (level : Level) {ts stuck : List Token}
    (h : plain (operand level ts) = .error stuck) : StuckIn level.IsPart ts stuck := by
  match level with
  | .or =>
    rw [plain_operand_or] at h
    exact stuck_chain .and h
  | .and =>
    rw [plain_operand_and] at h
    exact stuck_negation h
  | .sum =>
    rw [plain_operand_sum] at h
    exact stuck_chain .term h
  | .term =>
    rw [plain_operand_term] at h
    exact stuck_unary h
termination_by 20 * ts.length + (level.rank - 1)
decreasing_by all_goals simp [Level.rank]

/-- What is taken before a negation gets stuck begins a negation or a comparison. -/
theorem stuck_negation {ts stuck : List Token} (h : plain (negation ts) = .error stuck) :
    StuckIn ExprRule.not.Derivable ts stuck := by
  by_cases hn : ts.head? = some (.keyword .negation)
  · obtain ⟨ts', hts⟩ := List.head?_eq_some_iff.mp hn
    rw [hts, plain_negation_not] at h
    rw [hts]
    exact (stuck_negation (error_of_map h)).after [] _ fun vs ⟨e, he⟩ => ⟨_, .negation he⟩
  · rw [plain_negation_of_ne hn] at h
    exact (stuck_comparison h).mono fun _ ⟨e, he⟩ => ⟨e, .ofComparison he⟩
termination_by 20 * ts.length + 9
decreasing_by
  · simp only [hts, List.length_cons]
    omega
  · omega

/-- What is taken before a comparison gets stuck begins a comparison. -/
theorem stuck_comparison {ts stuck : List Token} (h : plain (comparison ts) = .error stuck) :
    StuckIn ExprRule.comparison.Derivable ts stuck := by
  rw [plain_comparison] at h
  obtain hl | ⟨left, rest, hl, h⟩ := error_of_bind h
  · exact (stuck_chain .sum hl).mono fun _ ⟨e, he⟩ => ⟨e, .ofSum he⟩
  have hlt := bound_of_plain hl
  obtain ⟨us, hus, hd⟩ := takes_chain .sum hl
  rcases hm : rest with _ | ⟨t, rest'⟩
  · rw [hm] at h
    cases h
  rw [hm] at h hus
  dsimp only at h
  rcases hop : comparison? t with _ | op
  · rw [hop] at h
    cases h
  · rw [hop] at h
    rw [hus]
    exact (stuck_chain .sum (error_of_map h)).after us t
      fun vs ⟨r, hr⟩ => ⟨_, .compare (mem_comparisonSigns hop) hd hr⟩
termination_by 20 * ts.length + 8
decreasing_by
  · simp [Level.rank]
  · simp only [hm, List.length_cons, Level.rank] at hlt ⊢
    omega

/-- What is taken before an operand with a sign gets stuck begins one. -/
theorem stuck_unary {ts stuck : List Token} (h : plain (unary ts) = .error stuck) :
    StuckIn ExprRule.unary.Derivable ts stuck := by
  by_cases hm : ts.head? = some (.symbol .minus)
  · obtain ⟨ts', hts⟩ := List.head?_eq_some_iff.mp hm
    rw [hts, plain_unary_minus] at h
    rw [hts]
    exact (stuck_unary (error_of_map h)).after [] _ fun vs ⟨e, he⟩ => ⟨_, .minus he⟩
  · rw [plain_unary_of_ne hm] at h
    exact (stuck_power h).mono fun _ ⟨e, he⟩ => ⟨e, .ofPower he⟩
termination_by 20 * ts.length + 3
decreasing_by
  · simp only [hts, List.length_cons]
    omega
  · omega

/-- What is taken before a power gets stuck begins a power. -/
theorem stuck_power {ts stuck : List Token} (h : plain (power ts) = .error stuck) :
    StuckIn ExprRule.power.Derivable ts stuck := by
  rw [plain_power] at h
  obtain hb | ⟨base, rest, hb, h⟩ := error_of_bind h
  · exact (stuck_postfixed hb).mono fun _ ⟨e, he⟩ => ⟨e, .ofPostfixed he⟩
  have hlt := bound_of_plain hb
  obtain ⟨us, hus, hd⟩ := takes_postfixed hb
  dsimp only at h
  split at h
  · rw [hus]
    exact (stuck_unary (error_of_map h)).after us _ fun vs ⟨r, hr⟩ => ⟨_, .exponent hd hr⟩
  · cases h
termination_by 20 * ts.length + 2
decreasing_by
  · omega
  · rw [List.length_cons] at hlt
    omega

/-- What is taken before a postfix expression gets stuck begins one. -/
theorem stuck_postfixed {ts stuck : List Token} (h : plain (postfixed ts) = .error stuck) :
    StuckIn ExprRule.postfixed.Derivable ts stuck := by
  rw [plain_postfixed] at h
  obtain ha | ⟨target, rest, ha, ht⟩ := error_of_bind h
  · exact (stuck_atom ha).mono fun _ ⟨e, he⟩ => ⟨e, .ofAtom he⟩
  · have hlt := bound_of_plain ha
    obtain ⟨us, rfl, hd⟩ := takes_atom ha
    exact stuck_postfixTail (.ofAtom hd) ht
termination_by 20 * ts.length + 1
decreasing_by all_goals omega

/-- With the expression before it, what is taken of calls and indexes before one gets stuck begins a
postfix expression: within the brackets, or before the closing one. -/
theorem stuck_postfixTail {us ts stuck : List Token} {target : Expr}
    (hd : ExprRule.postfixed.Derives us target)
    (h : plain (postfixTail target ts) = .error stuck) :
    StuckIn ExprRule.postfixed.Derivable (us ++ ts) stuck := by
  by_cases hp : ts.head? = some (.symbol .openParen)
  · obtain ⟨ts', hts⟩ := List.head?_eq_some_iff.mp hp
    rw [hts, plain_postfixTail_call] at h
    obtain hi | ⟨args, rest, hi, ht⟩ := error_of_bind h
    · rw [hts]
      exact (stuck_items .closeParen hi).inside us _ (.symbol .closeParen)
        fun vs ⟨args, ha⟩ => ⟨_, .call hd ha⟩
    · have hlt := bound_of_plain hi
      obtain ⟨vs, hvs, ha⟩ := takes_items .closeParen hi
      have hstuck := stuck_postfixTail (.call hd ha) ht
      simpa [hts, hvs] using hstuck
  by_cases hb : ts.head? = some (.symbol .openBracket)
  · obtain ⟨ts', hts⟩ := List.head?_eq_some_iff.mp hb
    rw [hts, plain_postfixTail_index] at h
    obtain hi | ⟨index, rest, hi, ht⟩ := error_of_bind h
    · rw [hts]
      exact (stuck_expr hi).inside us _ (.symbol .closeBracket)
        fun vs ⟨i, hx⟩ => ⟨_, .index hd hx⟩
    have hlt := bound_of_plain hi
    obtain ⟨vs, hvs, hx⟩ := takes_expr hi
    dsimp only at ht
    split at ht
    · have hstuck := stuck_postfixTail (.index hd hx) ht
      simpa [hts, hvs] using hstuck
    · cases ht
      exact ⟨us ++ .symbol .openBracket :: vs, by simp [hts, hvs],
        [.symbol .closeBracket], _, .index hd hx⟩
  · rw [plain_postfixTail_of_ne target hp hb] at h
    cases h
termination_by 20 * ts.length
decreasing_by
  · rw [hts, List.length_cons]
    omega
  · rw [hts, List.length_cons]
    omega
  · rw [hts, List.length_cons]
    omega
  · rw [List.length_cons] at hlt
    rw [hts, List.length_cons]
    omega

/-- What is taken before an atom gets stuck begins an atom. -/
theorem stuck_atom {ts stuck : List Token} (h : plain (atom ts) = .error stuck) :
    StuckIn ExprRule.atom.Derivable ts stuck := by
  rcases hts : ts with _ | ⟨t, ts'⟩
  · rw [hts, plain_atom_nil] at h
    cases h
    exact .here ⟨_, .name (x := "x")⟩ []
  rw [hts] at h
  by_cases hp : t = .symbol .openParen
  · rw [hp, plain_atom_paren] at h
    rw [hp]
    obtain hi | ⟨inner, rest, hi, h⟩ := error_of_bind h
    · exact (stuck_expr hi).inside [] _ (.symbol .closeParen) fun vs ⟨e, he⟩ => ⟨_, .paren he⟩
    obtain ⟨us, hus, hd⟩ := takes_expr hi
    dsimp only at h
    split at h
    · cases h
    · cases h
      exact ⟨.symbol .openParen :: us, by rw [hus]; rfl, [.symbol .closeParen], _, .paren hd⟩
  by_cases hl : t = .symbol .openBracket
  · rw [hl, plain_atom_list] at h
    rw [hl]
    exact (stuck_items .closeBracket (error_of_map h)).inside [] _ (.symbol .closeBracket)
      fun vs ⟨es, hes⟩ => ⟨_, .list hes⟩
  by_cases hb : t = .symbol .openBrace
  · rw [hb, plain_atom_dict] at h
    rw [hb]
    exact (stuck_pairs (error_of_map h)).inside [] _ (.symbol .closeBrace)
      fun vs ⟨es, hes⟩ => ⟨_, .dict hes⟩
  rcases hleaf : leaf? t with _ | e'
  · rw [plain_atom_of_none hleaf hp hl hb] at h
    cases h
    exact .here ⟨_, .name (x := "x")⟩ _
  · rw [plain_atom_leaf hleaf] at h
    cases h
termination_by 20 * ts.length
decreasing_by
  all_goals simp only [hts, List.length_cons]
  all_goals omega

/-- What is taken before items get stuck begins items, since any may be the last. -/
theorem stuck_items (close : Symbol) {ts stuck : List Token}
    (h : plain (items close ts) = .error stuck) : StuckIn ExprRule.items.Derivable ts stuck := by
  rcases hts : ts with _ | ⟨t, ts'⟩
  · rw [hts, plain_items_nil] at h
    cases h
    exact .here ⟨_, .noItems⟩ []
  by_cases hc : t = .symbol close
  · rw [hts, hc, plain_items_close] at h
    cases h
  · rw [hts, plain_items_of_ne hc, ← hts] at h
    rw [← hts]
    exact stuck_itemsFrom close h
termination_by 20 * ts.length + 16
decreasing_by omega

/-- What is taken before items that are there get stuck begins items. -/
theorem stuck_itemsFrom (close : Symbol) {ts stuck : List Token}
    (h : plain (itemsFrom close ts) = .error stuck) :
    StuckIn ExprRule.items.Derivable ts stuck := by
  rw [plain_itemsFrom] at h
  obtain hf | ⟨first, rest, hf, h⟩ := error_of_bind h
  · exact (stuck_expr hf).mono fun _ ⟨e, he⟩ => ⟨[e], .lastItem he⟩
  have hlt := bound_of_plain hf
  obtain ⟨us, hus, hd⟩ := takes_expr hf
  have hlast : StuckIn ExprRule.items.Derivable ts rest :=
    ⟨us, hus, .of ⟨[first], .lastItem hd⟩⟩
  dsimp only at h
  split at h
  · next sign rest =>
    by_cases hc : sign = close
    · rw [if_pos hc] at h
      cases h
    rw [if_neg hc] at h
    by_cases hm : sign = .comma
    · subst hm
      rw [if_pos rfl] at h
      rw [hus]
      exact (stuck_items close (error_of_map h)).after us _
        fun vs ⟨es, hes⟩ => ⟨_, .moreItems hd hes⟩
    · rw [if_neg hm] at h
      cases h
      exact hlast
  · cases h
    exact hlast
termination_by 20 * ts.length + 15
decreasing_by
  · omega
  · rw [List.length_cons] at hlt
    omega

/-- What is taken before pairs get stuck begins pairs, since any may be the last. -/
theorem stuck_pairs {ts stuck : List Token} (h : plain (pairs ts) = .error stuck) :
    StuckIn ExprRule.pairs.Derivable ts stuck := by
  by_cases hc : ts.head? = some (.symbol .closeBrace)
  · obtain ⟨ts, rfl⟩ := List.head?_eq_some_iff.mp hc
    rw [plain_pairs_close] at h
    cases h
  · rw [plain_pairs_of_ne hc] at h
    exact stuck_pairsFrom h
termination_by 20 * ts.length + 16
decreasing_by all_goals omega

/-- What is taken before pairs that are there get stuck begins pairs. -/
theorem stuck_pairsFrom {ts stuck : List Token} (h : plain (pairsFrom ts) = .error stuck) :
    StuckIn ExprRule.pairs.Derivable ts stuck := by
  rw [plain_pairsFrom] at h
  obtain hk | ⟨key, rest, hk, h⟩ := error_of_bind h
  · exact (stuck_expr hk).within [] [.symbol .colon, .identifier "x"]
      fun vs ⟨k, hk⟩ => ⟨_, .lastPair hk derives_name⟩
  have hlt := bound_of_plain hk
  obtain ⟨us, hus, hdk⟩ := takes_expr hk
  dsimp only at h
  split at h
  · next rest =>
    obtain hv | ⟨value, rest', hv, h⟩ := error_of_bind h
    · rw [hus]
      exact (stuck_expr hv).after us _ fun vs ⟨e, he⟩ => ⟨_, .lastPair hdk he⟩
    have hlt' := bound_of_plain hv
    obtain ⟨vs, hvs, hdv⟩ := takes_expr hv
    dsimp only at h
    split at h
    · cases h
    · have hstuck := (stuck_pairs (error_of_map h)).after
        (Q := ExprRule.pairs.Derivable) (us ++ .symbol .colon :: vs) _
        fun ws ⟨es, hes⟩ => ⟨_, .morePairs hdk hdv hes⟩
      simpa [hus, hvs] using hstuck
    · cases h
      exact ⟨us ++ .symbol .colon :: vs, by simp [hus, hvs], .of ⟨_, .lastPair hdk hdv⟩⟩
  · cases h
    exact ⟨us, hus, [.symbol .colon, .identifier "x"], _, .lastPair hdk derives_name⟩
termination_by 20 * ts.length + 15
decreasing_by
  · omega
  · rw [List.length_cons] at hlt
    omega
  · rw [List.length_cons] at hlt hlt'
    omega

end

/-! ### Statements -/

/-- Where one token is asked for, reading is stuck before any other. -/
theorem eq_of_exactly_error {p : Token → Bool} {ts stuck : List Token}
    (h : plain (exactly p ts) = .error stuck) : stuck = ts := by
  rcases ts with _ | ⟨t, ts⟩
  · cases h
    rfl
  · by_cases hp : p t = true
    · rw [plain_exactly hp] at h
      cases h
    · rw [exactly, if_neg hp] at h
      cases h
      rfl

theorem eq_of_identifier_error {ts stuck : List Token}
    (h : plain (identifier ts) = .error stuck) : stuck = ts := by
  unfold identifier at h
  split at h
  all_goals cases h
  rfl

/-- What is taken before an expression gets stuck as a statement begins a simple statement. -/
theorem stuck_bareExpr {ts stuck : List Token} (h : plain (bareExpr ts) = .error stuck) :
    StuckIn ScriptRule.simple.Derivable ts stuck := by
  rw [plain_bareExpr] at h
  exact (stuck_expr (error_of_map h)).mono fun _ ⟨e, he⟩ => ⟨_, .expr he⟩

/-- With the name before it, what is taken before a statement gets stuck begins one. -/
theorem stuck_namedStatement {name : String} {ts stuck : List Token}
    (h : plain (namedStatement name ts) = .error stuck) :
    StuckIn ScriptRule.simple.Derivable (.identifier name :: ts) stuck := by
  rcases ha : ts.head?.bind assignment? with _ | op
  · rcases hi : itemTarget? ts with _ | ⟨index, rest⟩
    · rw [plain_namedStatement_expr ha hi] at h
      exact stuck_bareExpr h
    · rw [plain_namedStatement_setItem ha hi] at h
      obtain ⟨us, hus, hd⟩ := exists_assignedItem hi
      have hstuck := (stuck_expr (error_of_map h)).after (Q := ScriptRule.simple.Derivable)
        (.identifier name :: .symbol .openBracket :: us ++ [.symbol .closeBracket])
        (.symbol .assign) fun vs ⟨e, he⟩ => ⟨_, by simpa using .setItem hd he⟩
      simpa [hus, assignedItem] using hstuck
  · obtain ⟨t, ht, hop⟩ := Option.bind_eq_some_iff.mp ha
    obtain ⟨ts', rfl⟩ := List.head?_eq_some_iff.mp ht
    rw [plain_namedStatement_assign hop] at h
    obtain ⟨sign, rfl, hs⟩ := mem_assignmentSigns hop
    exact (stuck_expr (error_of_map h)).after [.identifier name] _
      fun vs ⟨e, he⟩ => ⟨_, .assign hs he⟩

/-- With the word before it, what is taken before a value that is given back gets stuck begins a
simple statement. -/
theorem stuck_giveBack {ts stuck : List Token} (h : plain (giveBack ts) = .error stuck) :
    StuckIn ScriptRule.simple.Derivable (.keyword .giveBack :: ts) stuck := by
  by_cases hs : ts.head? = some (.symbol .semicolon)
  · rw [plain_giveBack_nothing (.inl hs)] at h
    cases h
  by_cases hn : ts.head? = some .newline
  · rw [plain_giveBack_nothing (.inr hn)] at h
    cases h
  · rw [plain_giveBack_value hs hn] at h
    exact (stuck_expr (error_of_map (f := fun e => Stmt.giveBack (some e)) h)).after [] _
      fun vs ⟨e, he⟩ => ⟨_, .giveBack he⟩

/-- What is taken before a simple statement gets stuck begins one. -/
theorem stuck_simpleStatement {ts stuck : List Token}
    (h : plain (simpleStatement ts) = .error stuck) :
    StuckIn ScriptRule.simple.Derivable ts stuck := by
  rcases hany : ts.head?.any leadsStatement
  · rw [plain_simpleStatement_expr hany] at h
    exact stuck_bareExpr h
  · obtain ⟨t, ht, hl⟩ := (Option.any_eq_true _ _).mp hany
    obtain ⟨ts', rfl⟩ := List.head?_eq_some_iff.mp ht
    unfold leadsStatement at hl
    split at hl
    · cases h
    · cases h
    · cases h
    · rw [plain_simpleStatement_giveBack] at h
      exact stuck_giveBack h
    · rw [plain_simpleStatement_name] at h
      exact stuck_namedStatement h
    · cases hl

/-- What is taken before a line of simple statements gets stuck begins such a line. -/
theorem stuck_simpleLine {ts stuck : List Token} (h : plain (simpleLine ts) = .error stuck) :
    StuckIn ScriptRule.simpleLine.Derivable ts stuck := by
  rw [plain_simpleLine] at h
  obtain hf | ⟨first, rest, hf, h⟩ := error_of_bind h
  · exact (stuck_simpleStatement hf).within [] [.newline] fun vs ⟨s, hs⟩ => ⟨_, .lastSimple hs⟩
  have hlt := bound_of_plain hf
  obtain ⟨us, hus, hd⟩ := takes_simpleStatement hf
  dsimp only at h
  split at h
  · cases h
  · cases h
  · rw [hus]
    exact (stuck_simpleLine (error_of_map h)).after us _
      fun vs ⟨p, hp⟩ => ⟨_, .moreSimple hd hp⟩
  · cases h
    exact ⟨us, hus, [.newline], _, .lastSimple hd⟩
termination_by ts.length
decreasing_by
  simp only [List.length_cons] at hlt
  omega

/-- What is taken before parameters get stuck begins parameters. -/
theorem stuck_parameters {ts stuck : List Token} (h : plain (parameters ts) = .error stuck) :
    StuckIn ScriptRule.parameters.Derivable ts stuck := by
  by_cases hc : ts.head? = some (.symbol .closeParen)
  · obtain ⟨ts', rfl⟩ := List.head?_eq_some_iff.mp hc
    rw [plain_parameters_close] at h
    cases h
  by_cases hx : ∃ name, ts.head? = some (.identifier name)
  · obtain ⟨name, hname⟩ := hx
    obtain ⟨ts', hts⟩ := List.head?_eq_some_iff.mp hname
    rw [hts] at h ⊢
    by_cases hc' : ts'.head? = some (.symbol .closeParen)
    · obtain ⟨rest, rfl⟩ := List.head?_eq_some_iff.mp hc'
      rw [plain_parameters_last] at h
      cases h
    by_cases hm : ts'.head? = some (.symbol .comma)
    · obtain ⟨rest, hrest⟩ := List.head?_eq_some_iff.mp hm
      rw [hrest, plain_parameters_more] at h
      rw [hrest]
      exact (stuck_parameters (error_of_map h)).after [.identifier name] _
        fun vs ⟨names, hnames⟩ => ⟨_, .moreParameters hnames⟩
    · rw [plain_parameters_behind name hc' hm] at h
      cases h
      exact ⟨[.identifier name], rfl, .of ⟨_, .lastParameter⟩⟩
  · rw [plain_parameters_stuck hc hx] at h
    cases h
    exact .here ⟨_, .noParameter⟩ ts
termination_by ts.length
decreasing_by
  simp only [hts, hrest, List.length_cons]
  omega

/-- A condition with its colon. -/
def IsCondition (us : List Token) : Prop :=
  ∃ vs c, us = vs ++ [.symbol .colon] ∧ ExprRule.or.Derives vs c

/-- The name, the parameters and the colon of a definition. -/
def IsSignature (us : List Token) : Prop :=
  ∃ name vs params, us = .identifier name :: .symbol .openParen :: vs ++
    [.symbol .closeParen, .symbol .colon] ∧ ScriptRule.parameters.Derives vs params

/-- The variable, the iterable and the colon of a loop over items. -/
def IsLoopHead (us : List Token) : Prop :=
  ∃ name vs e, us = .identifier name :: .keyword .within :: vs ++ [.symbol .colon] ∧
    ExprRule.or.Derives vs e

/-- What a condition is read from is an expression and a colon. -/
theorem takes_isCondition {ts rest : List Token} {c : Expr}
    (h : plain (condition ts) = .ok (c, rest)) : ∃ us, ts = us ++ rest ∧ IsCondition us := by
  obtain ⟨us, rfl, hd⟩ := takes_condition h
  exact ⟨us ++ [.symbol .colon], by simp, us, c, rfl, hd⟩

/-- What a signature is read from is a name, parameters in parentheses and a colon. -/
theorem takes_isSignature {ts rest : List Token} {head : String × List String}
    (h : plain (signature ts) = .ok (head, rest)) : ∃ us, ts = us ++ rest ∧ IsSignature us := by
  obtain ⟨us, rfl, hd⟩ := takes_signature h
  exact ⟨_, by simp, head.1, us, head.2, rfl, hd⟩

/-- What the head of a loop is read from is a variable, an iterable and a colon. -/
theorem takes_isLoopHead {ts rest : List Token} {head : String × Expr}
    (h : plain (loopHead ts) = .ok (head, rest)) : ∃ us, ts = us ++ rest ∧ IsLoopHead us := by
  obtain ⟨us, rfl, hd⟩ := takes_loopHead h
  exact ⟨_, by simp, head.1, us, head.2, rfl, hd⟩

section Compounds

variable {us vs ws : List Token}

/-- A signature and a body are a definition. -/
theorem IsSignature.define (h : IsSignature us) (hb : ScriptRule.suite.Derivable vs) :
    ScriptRule.line.Derivable (.keyword .define :: us ++ vs) := by
  obtain ⟨name, us, params, rfl, hp⟩ := h
  obtain ⟨body, hb⟩ := hb
  exact ⟨_, by simpa using .ofCompound (.define (x := name) hp hb)⟩

/-- A condition, a body and further branches are a choice. -/
theorem IsCondition.choose (h : IsCondition us) (hb : ScriptRule.suite.Derivable vs)
    (ha : ScriptRule.alternatives.Derivable ws) :
    ScriptRule.line.Derivable (.keyword .onlyIf :: us ++ vs ++ ws) := by
  obtain ⟨us, c, rfl, hc⟩ := h
  obtain ⟨body, hb⟩ := hb
  obtain ⟨others, ha⟩ := ha
  have hchoose := ScriptRule.Derives.ofCompound (.choose hc hb ha)
  exact ⟨_, by simpa using hchoose⟩

/-- A condition and a body are a loop. -/
theorem IsCondition.loopWhile (h : IsCondition us) (hb : ScriptRule.suite.Derivable vs) :
    ScriptRule.line.Derivable (.keyword .loopWhile :: us ++ vs) := by
  obtain ⟨us, c, rfl, hc⟩ := h
  obtain ⟨body, hb⟩ := hb
  exact ⟨_, by simpa using .ofCompound (.loopWhile hc hb)⟩

/-- The head of a loop and a body are a loop over items. -/
theorem IsLoopHead.loopFor (h : IsLoopHead us) (hb : ScriptRule.suite.Derivable vs) :
    ScriptRule.line.Derivable (.keyword .loopFor :: us ++ vs) := by
  obtain ⟨name, us, e, rfl, he⟩ := h
  obtain ⟨body, hb⟩ := hb
  exact ⟨_, by simpa using .ofCompound (.loopFor (x := name) he hb)⟩

/-- A condition, a body and further branches are further branches. -/
theorem IsCondition.elseIf (h : IsCondition us) (hb : ScriptRule.suite.Derivable vs)
    (ha : ScriptRule.alternatives.Derivable ws) :
    ScriptRule.alternatives.Derivable (.keyword .elseIf :: us ++ vs ++ ws) := by
  obtain ⟨us, c, rfl, hc⟩ := h
  obtain ⟨body, hb⟩ := hb
  obtain ⟨others, ha⟩ := ha
  have helse := ScriptRule.Derives.elseIf hc hb ha
  exact ⟨_, by simpa using helse⟩

/-- There is a body, so every head can be completed. -/
theorem derivable_suite : ScriptRule.suite.Derivable [.keyword .pass, .newline] :=
  ⟨_, .ofInlineSuite derives_pass⟩

/-- There need be no further branch. -/
theorem derivable_alternatives : ScriptRule.alternatives.Derivable [] := ⟨_, .noAlternative⟩

end Compounds

/-- What is taken before a condition gets stuck begins a condition. -/
theorem stuck_condition {ts stuck : List Token} (h : plain (condition ts) = .error stuck) :
    StuckIn IsCondition ts stuck := by
  rw [plain_condition] at h
  obtain ht | ⟨test, rest, ht, h⟩ := error_of_bind h
  · exact (stuck_expr ht).within [] [.symbol .colon] fun vs ⟨c, hc⟩ => ⟨vs, c, rfl, hc⟩
  · obtain ⟨us, hus, hd⟩ := takes_expr ht
    rw [eq_of_exactly_error (error_of_map (f := fun _ => test) h)]
    exact ⟨us, hus, [.symbol .colon], us, test, rfl, hd⟩

/-- What is taken before a signature gets stuck begins a signature. -/
theorem stuck_signature {ts stuck : List Token} (h : plain (signature ts) = .error stuck) :
    StuckIn IsSignature ts stuck := by
  rw [plain_signature] at h
  obtain hn | ⟨name, rest, hn, h⟩ := error_of_bind h
  · rw [eq_of_identifier_error hn]
    exact .here ⟨"x", [], [], rfl, .noParameter⟩ ts
  rw [eq_of_plain_identifier hn]
  obtain ho | ⟨_, rest₁, ho, h⟩ := error_of_bind h
  · rw [eq_of_exactly_error ho]
    exact ⟨[.identifier name], rfl, _, name, [], [], rfl, .noParameter⟩
  rw [eq_of_plain_symbol ho]
  obtain hp | ⟨params, rest₂, hp, h⟩ := error_of_bind h
  · exact (stuck_parameters hp).within [.identifier name, .symbol .openParen]
      [.symbol .closeParen, .symbol .colon] fun vs ⟨params, hd⟩ => ⟨name, vs, params, rfl, hd⟩
  · obtain ⟨us, hus, hd⟩ := takes_parameters hp
    rw [eq_of_exactly_error (error_of_map (f := fun _ => (name, params)) h)]
    refine ⟨.identifier name :: .symbol .openParen :: us ++ [.symbol .closeParen], ?_,
      [.symbol .colon], name, us, params, by simp, hd⟩
    simpa using hus

/-- What is taken before the head of a loop gets stuck begins such a head. -/
theorem stuck_loopHead {ts stuck : List Token} (h : plain (loopHead ts) = .error stuck) :
    StuckIn IsLoopHead ts stuck := by
  rw [plain_loopHead] at h
  obtain hn | ⟨name, rest, hn, h⟩ := error_of_bind h
  · rw [eq_of_identifier_error hn]
    exact .here ⟨"x", _, _, rfl, derives_name⟩ ts
  rw [eq_of_plain_identifier hn]
  obtain hw | ⟨_, rest₁, hw, h⟩ := error_of_bind h
  · rw [eq_of_exactly_error hw]
    exact ⟨[.identifier name], rfl, _, name, _, _, rfl, derives_name⟩
  obtain ⟨t, ht, hrest⟩ := exists_of_plain_exactly hw
  have htw : t = .keyword .within := by
    split at ht
    · rfl
    · cases ht
  rw [hrest, htw]
  exact (stuck_condition (error_of_map (f := fun e => (name, e)) h)).within
    [.identifier name, .keyword .within] [] fun vs ⟨us, e, hvs, he⟩ =>
      ⟨name, us, e, by simp [hvs], he⟩

mutual

/-- What is taken before a line gets stuck begins a line: a head that is cut short can be completed
and given a body, and so can the branches of a choice. -/
theorem stuck_line {ts stuck : List Token} (h : plain (line ts) = .error stuck) :
    StuckIn ScriptRule.line.Derivable ts stuck := by
  rcases hany : ts.head?.any leadsCompound
  · rw [plain_line_simple hany] at h
    exact (stuck_simpleLine h).mono fun _ ⟨p, hp⟩ => ⟨p, .ofSimpleLine hp⟩
  obtain ⟨t, ht, hl⟩ := (Option.any_eq_true _ _).mp hany
  obtain ⟨ts', hts⟩ := List.head?_eq_some_iff.mp ht
  unfold leadsCompound at hl
  split at hl
  · rw [hts, plain_line_define] at h
    rw [hts]
    obtain hs | ⟨head, rest, hs, h⟩ := error_of_bind h
    · exact (stuck_signature hs).within [.keyword .define] _ fun vs hvs =>
        hvs.define derivable_suite
    · have hlt := bound_of_plain hs
      obtain ⟨us, htaken, hus⟩ := takes_isSignature hs
      rw [htaken]
      have hbody := error_of_map (f := fun body => [Stmt.define head.1 head.2 body]) h
      exact (stuck_suite hbody).append
        (.keyword .define :: us) fun vs => hus.define
  · rw [hts, plain_line_choose] at h
    rw [hts]
    obtain hc | ⟨test, rest, hc, h⟩ := error_of_bind h
    · exact (stuck_condition hc).within [.keyword .onlyIf] _ fun vs hvs => by
        simpa using hvs.choose derivable_suite derivable_alternatives
    have hlt := bound_of_plain hc
    obtain ⟨us, htaken, hus⟩ := takes_isCondition hc
    rw [htaken]
    obtain hb | ⟨body, rest', hb, h⟩ := error_of_bind h
    · exact (stuck_suite hb).append (.keyword .onlyIf :: us) fun vs hvs => by
        simpa using hus.choose hvs derivable_alternatives
    · have hlt' := bound_of_plain hb
      obtain ⟨vs, htaken', hvs⟩ := takes_suite hb
      rw [htaken']
      have hstuck := (stuck_alternatives (error_of_map
        (f := fun others => [Stmt.choose ((test, body) :: others.1) others.2]) h)).append
          (.keyword .onlyIf :: us ++ vs) fun ws => hus.choose ⟨body, hvs⟩
      rwa [List.append_assoc] at hstuck
  · rw [hts, plain_line_loopWhile] at h
    rw [hts]
    obtain hc | ⟨test, rest, hc, h⟩ := error_of_bind h
    · exact (stuck_condition hc).within [.keyword .loopWhile] _ fun vs hvs =>
        hvs.loopWhile derivable_suite
    · have hlt := bound_of_plain hc
      obtain ⟨us, htaken, hus⟩ := takes_isCondition hc
      rw [htaken]
      exact (stuck_suite (error_of_map (f := fun body => [Stmt.loopWhile test body]) h)).append
        (.keyword .loopWhile :: us) fun vs => hus.loopWhile
  · rw [hts, plain_line_loopFor] at h
    rw [hts]
    obtain hh | ⟨head, rest, hh, h⟩ := error_of_bind h
    · exact (stuck_loopHead hh).within [.keyword .loopFor] _ fun vs hvs =>
        hvs.loopFor derivable_suite
    · have hlt := bound_of_plain hh
      obtain ⟨us, htaken, hus⟩ := takes_isLoopHead hh
      rw [htaken]
      have hbody := error_of_map (f := fun body => [Stmt.loopFor head.1 head.2 body]) h
      exact (stuck_suite hbody).append
        (.keyword .loopFor :: us) fun vs => hus.loopFor
  · cases hl
termination_by 4 * ts.length
decreasing_by all_goals simp only [hts, List.length_cons] at *; omega

/-- What is taken before further branches get stuck begins further branches. -/
theorem stuck_alternatives {ts stuck : List Token} (h : plain (alternatives ts) = .error stuck) :
    StuckIn ScriptRule.alternatives.Derivable ts stuck := by
  by_cases he : ts.head? = some (.keyword .elseIf)
  · obtain ⟨ts', hts⟩ := List.head?_eq_some_iff.mp he
    rw [hts, plain_alternatives_elseIf] at h
    rw [hts]
    obtain hc | ⟨test, rest, hc, h⟩ := error_of_bind h
    · exact (stuck_condition hc).within [.keyword .elseIf] _ fun vs hvs => by
        simpa using hvs.elseIf derivable_suite derivable_alternatives
    have hlt := bound_of_plain hc
    obtain ⟨us, htaken, hus⟩ := takes_isCondition hc
    rw [htaken]
    obtain hb | ⟨body, rest', hb, h⟩ := error_of_bind h
    · exact (stuck_suite hb).append (.keyword .elseIf :: us) fun vs hvs => by
        simpa using hus.elseIf hvs derivable_alternatives
    · have hlt' := bound_of_plain hb
      obtain ⟨vs, htaken', hvs⟩ := takes_suite hb
      rw [htaken']
      have hstuck := (stuck_alternatives (error_of_map
        (f := fun others => ((test, body) :: others.1, others.2)) h)).append
          (.keyword .elseIf :: us ++ vs) fun ws => hus.elseIf ⟨body, hvs⟩
      rwa [List.append_assoc] at hstuck
  by_cases ho : ts.head? = some (.keyword .otherwise)
  · obtain ⟨ts', hts⟩ := List.head?_eq_some_iff.mp ho
    rw [hts, plain_alternatives_otherwise] at h
    rw [hts]
    obtain hc | ⟨_, rest, hc, h⟩ := error_of_bind h
    · rw [eq_of_exactly_error hc]
      exact ⟨[.keyword .otherwise], rfl, _, _, .otherwise (.ofInlineSuite derives_pass)⟩
    · have hlt := bound_of_plain hc
      rw [eq_of_plain_symbol hc]
      exact (stuck_suite (error_of_map (f := fun body => ([], some body)) h)).append
        [.keyword .otherwise, .symbol .colon] fun vs ⟨p, hp⟩ => ⟨_, .otherwise hp⟩
  · rw [plain_alternatives_of_ne he ho] at h
    cases h
termination_by 4 * ts.length
decreasing_by all_goals simp only [hts, List.length_cons] at *; omega

/-- What is taken before a body gets stuck begins a body. -/
theorem stuck_suite {ts stuck : List Token} (h : plain (suite ts) = .error stuck) :
    StuckIn ScriptRule.suite.Derivable ts stuck := by
  by_cases hn : ts.head? = some .newline
  · obtain ⟨ts₁, hts₁⟩ := List.head?_eq_some_iff.mp hn
    rw [hts₁] at h ⊢
    by_cases hi : ts₁.head? = some .indent
    · obtain ⟨ts₂, hts₂⟩ := List.head?_eq_some_iff.mp hi
      rw [hts₂, plain_suite_block] at h
      rw [hts₂]
      obtain hf | ⟨first, rest, hf, h⟩ := error_of_bind h
      · exact (stuck_line hf).within [.newline, .indent] [.dedent]
          fun vs ⟨p, hp⟩ => ⟨_, .block (.lastLine hp)⟩
      · have hlt := bound_of_plain hf
        obtain ⟨us, htaken, hd⟩ := takes_line hf
        rw [htaken]
        exact (stuck_linesToDedent hd (error_of_map (f := fun others => first ++ others) h)).within
          [.newline, .indent] [.dedent] fun vs ⟨p, hp⟩ => ⟨_, .block hp⟩
    · rw [plain_suite_newline hi] at h
      cases h
      exact ⟨[.newline], rfl, _, _, .block (.lastLine (.ofSimpleLine derives_pass))⟩
  · rw [plain_suite_inline hn] at h
    exact (stuck_simpleLine h).mono fun _ ⟨p, hp⟩ => ⟨p, .ofInlineSuite hp⟩
termination_by 4 * ts.length
decreasing_by all_goals simp only [hts₁, hts₂, List.length_cons] at *; omega

/-- With the lines before it, what is taken before a block gets stuck begins lines. -/
theorem stuck_linesToDedent {us ts stuck : List Token} {p : List Stmt}
    (hd : ScriptRule.line.Derives us p) (h : plain (linesToDedent ts) = .error stuck) :
    StuckIn ScriptRule.lines.Derivable (us ++ ts) stuck := by
  by_cases he : ts.head? = some .dedent
  · obtain ⟨ts', rfl⟩ := List.head?_eq_some_iff.mp he
    rw [plain_linesToDedent_dedent] at h
    cases h
  · rw [plain_linesToDedent_of_ne he] at h
    obtain hf | ⟨first, rest, hf, h⟩ := error_of_bind h
    · exact (stuck_line hf).append us fun vs ⟨q, hq⟩ => ⟨_, .moreLines hd (.lastLine hq)⟩
    · have hlt := bound_of_plain hf
      obtain ⟨vs, htaken, hdf⟩ := takes_line hf
      rw [htaken]
      have hothers := error_of_map (f := fun others => first ++ others) h
      exact (stuck_linesToDedent hdf hothers).append us
        fun vs ⟨q, hq⟩ => ⟨_, .moreLines hd hq⟩
termination_by 4 * ts.length + 1
decreasing_by all_goals omega

end

/-- What is taken before a script gets stuck begins a script. -/
theorem stuck_script {ts stuck : List Token} (h : script ts = .error stuck) :
    StuckIn ScriptRule.program.Derivable ts stuck := by
  rcases hts : ts with _ | ⟨t, ts'⟩
  · rw [hts, script] at h
    cases h
  rw [hts, script_cons] at h
  obtain hf | ⟨first, rest, hf, h⟩ := error_of_bind h
  · refine (stuck_line hf).mono ?_
    rintro vs ⟨p, hp⟩
    exact ⟨p, .ofLines (.lastLine hp)⟩
  have hlt := bound_of_plain hf
  obtain ⟨us, hus, hd⟩ := takes_line hf
  dsimp only at h
  rcases hs : script rest with stuck' | others
  · have hstuck : stuck' = stuck := by
      rw [hs] at h
      exact Except.error.inj h
    rw [hus, ← hstuck]
    refine (stuck_script hs).append us ?_
    rintro vs ⟨q, hq⟩
    cases hq with
    | emptyProgram => exact ⟨first, by simpa using .ofLines (.lastLine hd)⟩
    | ofLines hq => exact ⟨_, .ofLines (.moreLines hd hq)⟩
  · rw [hs] at h
    cases h
termination_by ts.length
decreasing_by
  rw [hts]
  exact hlt

/-- A script is stuck at the first token that no script has after the tokens before it. -/
theorem script_stuck_at {ts stuck : List Token} (h : script ts = .error stuck) :
    ∃ us, ts = us ++ stuck ∧ Begins ScriptRule.program.Derivable us ∧
      ∀ t rest, stuck = t :: rest → ¬Begins ScriptRule.program.Derivable (us ++ [t]) := by
  obtain ⟨us, hus, hbegins⟩ := stuck_script h
  refine ⟨us, hus, hbegins, ?_⟩
  rintro t rest rfl ⟨vs, p, hp⟩
  obtain ⟨us', hus', hstuck⟩ := script_eq_error h
  obtain rfl := List.append_cancel_right (hus.symm.trans hus')
  have hread : script (us ++ [t] ++ vs) = .ok p := (script_iff_derives _ p).mpr hp
  rw [List.append_assoc, List.singleton_append, hstuck (t :: vs) rfl] at hread
  cases hread

end Reader

/-- A fault points at a place among the tokens of a source: at the token there, or at the end of the
source when the place is behind the last token. -/
def SyntaxError.PointsAt (e : SyntaxError) (source : String) (tokens : List PlacedToken)
    (k : Nat) : Prop :=
  (∃ t, tokens[k]? = some t ∧ e = ⟨.unexpectedToken t.token, t.start, t.stop⟩) ∨
    (k = tokens.length ∧ e.fault = .unexpectedEnd ∧ e.start = source.utf8ByteSize)

/-- A fault is reported at the first of the tokens that are left, or at the end where none is. -/
theorem pointsAt_faultAt (source : String) (done stuck : List PlacedToken) :
    (Reader.faultAt source (done ++ stuck) stuck.length).PointsAt source (done ++ stuck)
      done.length := by
  have hplace : (done ++ stuck).length - stuck.length = done.length := by simp
  unfold Reader.faultAt
  rw [hplace]
  cases stuck with
  | nil =>
    rw [List.append_nil, List.getElem?_eq_none (Nat.le_refl _)]
    exact .inr ⟨rfl, rfl, rfl⟩
  | cons t stuck =>
    have ht : (done ++ t :: stuck)[done.length]? = some t := by simp
    rw [ht]
    exact .inl ⟨t, ht, rfl⟩

/-- A source that has tokens and is no script is refused with a fault at a place such that some
script starts with the tokens before it, and none with these and the token there. -/
theorem parse_error_at_first_impossible {source : String} {tokens : List PlacedToken}
    {e : SyntaxError} (htokens : tokenize source = .ok tokens) (h : parse source = .error e) :
    ∃ k, e.PointsAt source tokens k ∧
      Begins ScriptRule.program.Derivable ((tokens.take k).map PlacedToken.token) ∧
      ∀ t, tokens[k]? = some t →
        ¬Begins ScriptRule.program.Derivable ((tokens.take (k + 1)).map PlacedToken.token) := by
  unfold parse Reader.readSource at h
  rw [htokens] at h
  simp only [bind, Except.bind] at h
  split at h
  · cases h
  · next stuck hscript =>
    cases h
    obtain ⟨us, hus, hbegins, himpossible⟩ := Reader.script_stuck_at hscript
    obtain ⟨done, rest, rfl, rfl, rfl⟩ := List.map_eq_append_iff.mp hus
    refine ⟨done.length, ?_, by simpa using hbegins, fun t ht => ?_⟩
    · rw [List.length_map]
      exact pointsAt_faultAt source done rest
    · rw [List.getElem?_append_right (Nat.le_refl _), Nat.sub_self] at ht
      obtain ⟨rest', rfl⟩ := List.head?_eq_some_iff.mp (List.head?_eq_getElem? .. ▸ ht)
      have hnone := himpossible t.token (rest'.map PlacedToken.token) rfl
      simpa [List.take_length_add_append] using hnone

/-- Behind the sign that assigns to an item, no expression starts with a bracket that closes. -/
theorem parse_error_at_first_impossible_item :
    let tokens : List PlacedToken := [⟨.identifier "x", 0, 1⟩, ⟨.symbol .openBracket, 1, 2⟩,
      ⟨.integer 0, 2, 3⟩, ⟨.symbol .closeBracket, 3, 4⟩, ⟨.symbol .assign, 5, 6⟩,
      ⟨.symbol .closeParen, 7, 8⟩, ⟨.newline, 8, 8⟩]
    let e : SyntaxError := ⟨.unexpectedToken (.symbol .closeParen), 7, 8⟩
    tokenize "x[0] = )" = .ok tokens ∧ parse "x[0] = )" = .error e ∧
      ∃ k, e.PointsAt "x[0] = )" tokens k ∧
        Begins ScriptRule.program.Derivable ((tokens.take k).map PlacedToken.token) ∧
        ∀ t, tokens[k]? = some t →
          ¬Begins ScriptRule.program.Derivable ((tokens.take (k + 1)).map PlacedToken.token) := by
  intro tokens e
  have htokens : tokenize "x[0] = )" = .ok tokens := by with_unfolding_all rfl
  have hparse : parse "x[0] = )" = .error e := by cbv
  exact ⟨htokens, hparse, parse_error_at_first_impossible htokens hparse⟩

end ScriptShell
