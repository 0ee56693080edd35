import ScriptShell.Proofs.Script.Grammar

/-!
# Tokens of derived lists

Which tokens stand in an expression, and which can stand first in what is derived from a
nonterminal. No rule of an expression holds a layout token, a flag, a semicolon or a sign of
assignment, and no rule of a script holds a flag.
-/

namespace ScriptShell

namespace Token

/-- Whether some expression holds the token. -/
def standsInExpr : Token → Bool
  | .keyword word =>
    match word with
    | .within | .conj | .disj | .negation | .yes | .no | .nothing => true
    | _ => false
  | .symbol sign =>
    match sign with
    | .assign | .plusAssign | .minusAssign | .timesAssign | .divideAssign | .semicolon => false
    | _ => true
  | .float _ | .integer _ | .string _ | .identifier _ => true
  | .newline | .indent | .dedent | .flag _ => false

/-- Whether the token is no flag. -/
def isNoFlag : Token → Bool
  | .flag _ => false
  | _ => true

/-- Whether an atom can start with the token. -/
def startsAtom : Token → Bool
  | .float _ | .integer _ | .string _ | .identifier _ => true
  | .keyword .yes | .keyword .no | .keyword .nothing => true
  | .symbol .openParen | .symbol .openBracket | .symbol .openBrace => true
  | _ => false

/-- Whether a sum can start with the token. -/
def startsSum : Token → Bool
  | .symbol .minus => true
  | t => t.startsAtom

/-- Whether an expression can start with the token. -/
def startsExpr : Token → Bool
  | .keyword .negation => true
  | t => t.startsSum

/-- Whether a simple statement can start with the token. -/
def startsSimple : Token → Bool
  | .keyword .pass | .keyword .leave | .keyword .next | .keyword .giveBack => true
  | t => t.startsExpr

/-- Whether a line can start with the token. -/
def startsLine : Token → Bool
  | .keyword .define | .keyword .onlyIf | .keyword .loopWhile | .keyword .loopFor => true
  | t => t.startsSimple

/-- What starts an atom starts a sum. -/
theorem startsSum_of_startsAtom {t : Token} (h : t.startsAtom = true) : t.startsSum = true := by
  unfold startsSum
  split
  · rfl
  · exact h

/-- What starts a sum starts an expression. -/
theorem startsExpr_of_startsSum {t : Token} (h : t.startsSum = true) : t.startsExpr = true := by
  unfold startsExpr
  split
  · rfl
  · exact h

/-- What starts an expression starts a simple statement. -/
theorem startsSimple_of_startsExpr {t : Token} (h : t.startsExpr = true) :
    t.startsSimple = true := by
  unfold startsSimple
  split
  · rfl
  · rfl
  · rfl
  · rfl
  · exact h

/-- What starts a simple statement starts a line. -/
theorem startsLine_of_startsSimple {t : Token} (h : t.startsSimple = true) :
    t.startsLine = true := by
  unfold startsLine
  split
  · rfl
  · rfl
  · rfl
  · rfl
  · exact h

/-- No expression holds a flag. -/
theorem isNoFlag_of_standsInExpr {t : Token} (h : t.standsInExpr = true) : t.isNoFlag = true := by
  cases t with
  | flag text => cases h
  | _ => rfl

end Token

/-- A list starts with a token of a class. -/
def StartsWith (p : Token → Bool) (us : List Token) : Prop := ∃ u vs, us = u :: vs ∧ p u = true

theorem StartsWith.append {p : Token → Bool} {us : List Token} (h : StartsWith p us)
    (vs : List Token) : StartsWith p (us ++ vs) := by
  obtain ⟨u, ws, rfl, hu⟩ := h
  exact ⟨u, ws ++ vs, rfl, hu⟩

/-- What starts with a token of a class starts with one of any wider class. -/
theorem StartsWith.mono {p q : Token → Bool} (hpq : ∀ t, p t = true → q t = true)
    {us : List Token} (h : StartsWith p us) : StartsWith q us := by
  obtain ⟨u, vs, rfl, hu⟩ := h
  exact ⟨u, vs, rfl, hpq u hu⟩

theorem StartsWith.cons {p : Token → Bool} {u : Token} (h : p u = true) (vs : List Token) :
    StartsWith p (u :: vs) := ⟨u, vs, rfl, h⟩

/-- A token outside the class is not the first. -/
theorem StartsWith.head?_ne {p : Token → Bool} {us : List Token} (h : StartsWith p us) {t : Token}
    (ht : p t = false) : us.head? ≠ some t := by
  obtain ⟨u, vs, rfl, hu⟩ := h
  rintro ⟨⟩
  rw [ht] at hu
  cases hu

/-- A class that excludes the first class holds of no first token. -/
theorem StartsWith.any_eq_false {p q : Token → Bool} {us : List Token} (h : StartsWith p us)
    (hq : ∀ t, p t = true → q t = false) : us.head?.any q = false := by
  obtain ⟨u, vs, rfl, hu⟩ := h
  exact hq u hu

/-- A literal is an atom. -/
theorem LiteralToken.startsAtom {t : Token} {e : Expr} (h : LiteralToken t e) :
    t.startsAtom = true := by
  cases h <;> rfl

/-- A literal stands in an expression. -/
theorem LiteralToken.standsInExpr {t : Token} {e : Expr} (h : LiteralToken t e) :
    t.standsInExpr = true := by
  cases h <;> rfl

theorem standsInExpr_of_mem_comparisonSigns {t : Token} {op : Operator}
    (h : (t, op) ∈ comparisonSigns) : t.standsInExpr = true := by
  simp only [comparisonSigns, List.mem_cons, Prod.mk.injEq, List.not_mem_nil, or_false] at h
  rcases h with ⟨rfl, _⟩ | ⟨rfl, _⟩ | ⟨rfl, _⟩ | ⟨rfl, _⟩ | ⟨rfl, _⟩ | ⟨rfl, _⟩ | ⟨rfl, _⟩ <;> rfl

theorem standsInExpr_of_mem_sumSigns {t : Token} {op : Operator} (h : (t, op) ∈ sumSigns) :
    t.standsInExpr = true := by
  simp only [sumSigns, List.mem_cons, Prod.mk.injEq, List.not_mem_nil, or_false] at h
  rcases h with ⟨rfl, _⟩ | ⟨rfl, _⟩ <;> rfl

theorem standsInExpr_of_mem_termSigns {t : Token} {op : Operator} (h : (t, op) ∈ termSigns) :
    t.standsInExpr = true := by
  simp only [termSigns, List.mem_cons, Prod.mk.injEq, List.not_mem_nil, or_false] at h
  rcases h with ⟨rfl, _⟩ | ⟨rfl, _⟩ | ⟨rfl, _⟩ | ⟨rfl, _⟩ <;> rfl

namespace ExprRule

/-- Every token of an expression can stand in one. -/
theorem Derives.standsInExpr {rule : ExprRule} {us : List Token} {tree : rule.Tree}
    (h : rule.Derives us tree) : ∀ u ∈ us, u.standsInExpr = true := by
  induction h with
  | ofAnd _ ih | ofNot _ ih | ofComparison _ ih | ofSum _ ih | ofTerm _ ih | ofUnary _ ih
  | ofPower _ ih | ofPostfixed _ ih | ofAtom _ ih | lastItem _ ih => exact ih
  | disj _ _ ihl ihr | conj _ _ ihl ihr | exponent _ _ ihl ihr | moreItems _ _ ihl ihr
  | lastPair _ _ ihl ihr =>
    simp only [List.mem_append, List.mem_cons]
    rintro u (hu | rfl | hu)
    · exact ihl u hu
    · rfl
    · exact ihr u hu
  | compare ht _ _ ihl ihr =>
    simp only [List.mem_append, List.mem_cons]
    rintro u (hu | rfl | hu)
    · exact ihl u hu
    · exact standsInExpr_of_mem_comparisonSigns ht
    · exact ihr u hu
  | add ht _ _ ihl ihr =>
    simp only [List.mem_append, List.mem_cons]
    rintro u (hu | rfl | hu)
    · exact ihl u hu
    · exact standsInExpr_of_mem_sumSigns ht
    · exact ihr u hu
  | multiply ht _ _ ihl ihr =>
    simp only [List.mem_append, List.mem_cons]
    rintro u (hu | rfl | hu)
    · exact ihl u hu
    · exact standsInExpr_of_mem_termSigns ht
    · exact ihr u hu
  | negation _ ih | minus _ ih =>
    rintro u (_ | ⟨_, hu⟩)
    · rfl
    · exact ih u hu
  | call _ _ ihl ihr | index _ _ ihl ihr =>
    simp only [List.mem_append, List.mem_cons, List.not_mem_nil, or_false]
    rintro u ((hu | rfl | hu) | rfl)
    · exact ihl u hu
    · rfl
    · exact ihr u hu
    · rfl
  | paren _ ih | list _ ih | dict _ ih =>
    simp only [List.mem_append, List.mem_cons, List.not_mem_nil, or_false]
    rintro u ((rfl | hu) | rfl)
    · rfl
    · exact ih u hu
    · rfl
  | literal ht =>
    simp only [List.mem_singleton]
    rintro u rfl
    exact ht.standsInExpr
  | name =>
    simp only [List.mem_singleton]
    rintro u rfl
    rfl
  | noItems | noPairs => simp
  | morePairs _ _ _ ihk ihe ihs =>
    simp only [List.mem_append, List.mem_cons]
    rintro u ((hu | rfl | hu) | rfl | hu)
    · exact ihk u hu
    · rfl
    · exact ihe u hu
    · rfl
    · exact ihs u hu

/-- What the first token of a derived list can be, where there must be one. -/
def first? : ExprRule → Option (Token → Bool)
  | .or | .and | .not => some Token.startsExpr
  | .comparison | .sum | .term | .unary => some Token.startsSum
  | .power | .postfixed | .atom => some Token.startsAtom
  | .items | .pairs => none

/-- What is derived from a nonterminal that is no list starts with a token fit for it. -/
theorem Derives.startsWith {rule : ExprRule} {us : List Token} {tree : rule.Tree}
    (h : rule.Derives us tree) : ∀ p, rule.first? = some p → StartsWith p us := by
  induction h with
  | ofAnd _ ih | ofNot _ ih | ofSum _ ih | ofTerm _ ih | ofUnary _ ih | ofPostfixed _ ih
  | ofAtom _ ih => exact ih
  | ofComparison _ ih =>
    rintro p ⟨⟩
    exact (ih _ rfl).mono fun _ => Token.startsExpr_of_startsSum
  | ofPower _ ih =>
    rintro p ⟨⟩
    exact (ih _ rfl).mono fun _ => Token.startsSum_of_startsAtom
  | disj _ _ ih _ | conj _ _ ih _ | compare _ _ _ ih _ | add _ _ _ ih _ | multiply _ _ _ ih _
  | exponent _ _ ih _ =>
    rintro p ⟨⟩
    exact (ih _ rfl).append _
  | call _ _ ih _ | index _ _ ih _ =>
    rintro p ⟨⟩
    exact ((ih _ rfl).append _).append _
  | negation | minus | paren | list | dict | name =>
    rintro p ⟨⟩
    exact .cons rfl _
  | literal ht =>
    rintro p ⟨⟩
    exact .cons ht.startsAtom _
  | noItems | lastItem | moreItems | noPairs | lastPair | morePairs => nofun

/-- An expression starts with a token fit for it. -/
theorem Derives.startsExpr {us : List Token} {e : Expr} (h : ExprRule.or.Derives us e) :
    StartsWith Token.startsExpr us := h.startsWith _ rfl

end ExprRule

namespace ScriptRule

/-- No token of a script is a flag. -/
theorem Derives.isNoFlag {rule : ScriptRule} {us : List Token} {tree : rule.Tree}
    (h : rule.Derives us tree) : ∀ u ∈ us, u.isNoFlag = true := by
  have hexpr {us : List Token} {e : Expr} (h : ExprRule.or.Derives us e) (u : Token)
      (hu : u ∈ us) : u.isNoFlag = true := Token.isNoFlag_of_standsInExpr (h.standsInExpr u hu)
  induction h with
  | emptyProgram | noAlternative | noParameter => simp
  | ofLines _ ih | ofCompound _ ih | ofSimpleLine _ ih | ofInlineSuite _ ih | lastLine _ ih =>
    exact ih
  | pass | leave | next | giveBackNothing | lastParameter =>
    simp only [List.mem_singleton]
    rintro u rfl
    rfl
  | expr he => exact hexpr he
  | giveBack he =>
    rintro u (_ | ⟨_, hu⟩)
    · rfl
    · exact hexpr he u hu
  | assign _ he =>
    rintro u (_ | ⟨_, _ | ⟨_, hu⟩⟩)
    · rfl
    · rfl
    · exact hexpr he u hu
  | lastSimple _ ih =>
    simp only [List.mem_append, List.mem_singleton]
    rintro u (hu | rfl)
    · exact ih u hu
    · rfl
  | lastSimpleWithSign _ ih =>
    simp only [List.mem_append, List.mem_cons, List.not_mem_nil, or_false]
    rintro u (hu | rfl | rfl)
    · exact ih u hu
    · rfl
    · rfl
  | moreSimple _ _ ihs ihl =>
    simp only [List.mem_append, List.mem_cons]
    rintro u (hu | rfl | hu)
    · exact ihs u hu
    · rfl
    · exact ihl u hu
  | setItem hi he =>
    simp only [List.mem_append, List.mem_cons]
    rintro u ((rfl | rfl | hu) | rfl | rfl | hu)
    · rfl
    · rfl
    · exact hexpr hi u hu
    · rfl
    · rfl
    · exact hexpr he u hu
  | define _ _ ihp ihb =>
    simp only [List.mem_append, List.mem_cons]
    rintro u ((rfl | rfl | rfl | hu) | rfl | rfl | hu)
    · rfl
    · rfl
    · rfl
    · exact ihp u hu
    · rfl
    · rfl
    · exact ihb u hu
  | choose hc _ _ ihb iha | elseIf hc _ _ ihb iha =>
    simp only [List.mem_append, List.mem_cons]
    rintro u (((rfl | hu) | rfl | hu) | hu)
    · rfl
    · exact hexpr hc u hu
    · rfl
    · exact ihb u hu
    · exact iha u hu
  | loopWhile hc _ ihb =>
    simp only [List.mem_append, List.mem_cons]
    rintro u ((rfl | hu) | rfl | hu)
    · rfl
    · exact hexpr hc u hu
    · rfl
    · exact ihb u hu
  | loopFor he _ ihb =>
    simp only [List.mem_append, List.mem_cons]
    rintro u ((rfl | rfl | rfl | hu) | rfl | hu)
    · rfl
    · rfl
    · rfl
    · exact hexpr he u hu
    · rfl
    · exact ihb u hu
  | otherwise _ ih | moreParameters _ ih =>
    rintro u (_ | ⟨_, _ | ⟨_, hu⟩⟩)
    · rfl
    · rfl
    · exact ih u hu
  | block _ ih =>
    simp only [List.mem_append, List.mem_cons, List.not_mem_nil, or_false]
    rintro u ((rfl | rfl | hu) | rfl)
    · rfl
    · rfl
    · exact ih u hu
    · rfl
  | moreLines _ _ ihf ihl =>
    simp only [List.mem_append]
    rintro u (hu | hu)
    · exact ihf u hu
    · exact ihl u hu

/-- What the first token of a derived list can be, for nonterminals of lines and statements. -/
def first? : ScriptRule → Option (Token → Bool)
  | .simple | .simpleLine => some Token.startsSimple
  | .line | .compound | .lines => some Token.startsLine
  | _ => none

/-- Lines and statements start with a token fit for them. -/
theorem Derives.startsWith {rule : ScriptRule} {us : List Token} {tree : rule.Tree}
    (h : rule.Derives us tree) : ∀ p, rule.first? = some p → StartsWith p us := by
  induction h with
  | ofCompound _ ih | lastLine _ ih => exact ih
  | ofSimpleLine _ ih =>
    rintro p ⟨⟩
    exact (ih _ rfl).mono fun _ => Token.startsLine_of_startsSimple
  | lastSimple _ ih | lastSimpleWithSign _ ih | moreSimple _ _ ih _ | moreLines _ _ ih _ =>
    rintro p ⟨⟩
    exact (ih _ rfl).append _
  | pass | leave | next | giveBackNothing | giveBack | assign | setItem | define | choose
  | loopWhile | loopFor =>
    rintro p ⟨⟩
    exact .cons rfl _
  | expr he =>
    rintro p ⟨⟩
    exact he.startsExpr.mono fun _ => Token.startsSimple_of_startsExpr
  | emptyProgram | ofLines | noAlternative | otherwise | elseIf | noParameter | lastParameter
  | moreParameters | ofInlineSuite | block => nofun

end ScriptRule

end ScriptShell
