import Mathlib.Data.List.Forall2
import ScriptShell.Proofs.Script.FirstTokens

/-!
# Names and strings in each other's place

An expression can hold a name wherever it can hold a string, so whatever the grammar derives it
derives with names and strings exchanged, as long as no name in it is bound: only assignments,
loops over items and definitions ask for a name.
-/

namespace ScriptShell

namespace Token

/-- Tokens that can stand in each other's place where no name is bound: equal ones, and a name and a
string. -/
inductive Alike : Token → Token → Prop where
  | refl (t : Token) : Alike t t
  | named (s x : String) : Alike (.string s) (.identifier x)
  | quoted (x s : String) : Alike (.identifier x) (.string s)

theorem Alike.symm {t u : Token} (h : Alike t u) : Alike u t := by
  cases h with
  | refl => exact .refl t
  | named s x => exact .quoted x s
  | quoted x s => exact .named s x

/-- Whether a token is a name or a string. -/
def isNameOrString : Token → Bool
  | .identifier _ | .string _ => true
  | _ => false

/-- Other tokens have nothing in their place. -/
theorem Alike.eq {t u : Token} (h : Alike t u) (ht : t.isNameOrString = false) : u = t := by
  cases h with
  | refl => rfl
  | named | quoted => cases ht

theorem alike_symm {us vs : List Token} (h : List.Forall₂ Alike us vs) :
    List.Forall₂ Alike vs us :=
  List.Forall₂.flip (h.imp fun _ _ => Alike.symm)

theorem exists_append_of_alike {us vs ws : List Token} (h : List.Forall₂ Alike (us ++ vs) ws) :
    ∃ us' vs', ws = us' ++ vs' ∧ List.Forall₂ Alike us us' ∧ List.Forall₂ Alike vs vs' := by
  induction us generalizing ws with
  | nil => exact ⟨[], ws, rfl, .nil, h⟩
  | cons u us ih =>
    obtain ⟨u', ws', hu, hws, rfl⟩ := List.forall₂_cons_left_iff.mp h
    obtain ⟨us', vs', rfl, hus, hvs⟩ := ih hws
    exact ⟨u' :: us', vs', rfl, .cons hu hus, hvs⟩

/-- A token that is neither a name nor a string stays where it is. -/
theorem exists_cons_of_alike {t : Token} (ht : t.isNameOrString = false) {vs ws : List Token}
    (h : List.Forall₂ Alike (t :: vs) ws) :
    ∃ vs', ws = t :: vs' ∧ List.Forall₂ Alike vs vs' := by
  obtain ⟨u, vs', hu, hvs, rfl⟩ := List.forall₂_cons_left_iff.mp h
  obtain rfl := hu.eq ht
  exact ⟨vs', rfl, hvs⟩

/-- On its own, such a token has only itself in its place. -/
theorem eq_single_of_alike {t : Token} (ht : t.isNameOrString = false) {ws : List Token}
    (h : List.Forall₂ Alike [t] ws) : ws = [t] := by
  obtain ⟨vs', rfl, hvs⟩ := exists_cons_of_alike ht h
  cases hvs
  rfl

/-- A token between others that is neither a name nor a string stays between them. -/
theorem exists_around_of_alike {t : Token} (ht : t.isNameOrString = false) {us vs ws : List Token}
    (h : List.Forall₂ Alike (us ++ t :: vs) ws) :
    ∃ us' vs', ws = us' ++ t :: vs' ∧ List.Forall₂ Alike us us' ∧ List.Forall₂ Alike vs vs' := by
  obtain ⟨us', ws', rfl, hus, hws⟩ := exists_append_of_alike h
  obtain ⟨vs', rfl, hvs⟩ := exists_cons_of_alike ht hws
  exact ⟨us', vs', rfl, hus, hvs⟩

/-- Brackets around tokens stay around them. -/
theorem exists_wrap_of_alike {o c : Token} (ho : o.isNameOrString = false)
    (hc : c.isNameOrString = false) {us ws : List Token}
    (h : List.Forall₂ Alike (o :: us ++ [c]) ws) :
    ∃ us', ws = o :: us' ++ [c] ∧ List.Forall₂ Alike us us' := by
  obtain ⟨ws', vs', rfl, hws, hvs⟩ := exists_around_of_alike hc h
  obtain ⟨us', rfl, hus⟩ := exists_cons_of_alike ho hws
  cases hvs
  exact ⟨us', rfl, hus⟩

end Token

/-! ### Expressions -/

/-- No sign between operands is a name or a string. -/
theorem not_isNameOrString_of_mem_signs :
    ∀ sign ∈ comparisonSigns ++ sumSigns ++ termSigns, sign.1.isNameOrString = false := by
  decide

/-- A constant can be a name instead, or another string. -/
theorem LiteralToken.exchange {t u : Token} {e : Expr} (h : LiteralToken t e) (hu : t.Alike u) :
    ∃ e', ExprRule.atom.Derives [u] e' := by
  cases hu with
  | refl => exact ⟨e, .literal h⟩
  | named s x => exact ⟨.name x, .name⟩
  | quoted => cases h

section Operands

variable {left right : ExprRule} {us vs ws : List Token}

/-- Operands that can be derived with names and strings exchanged still have their sign between
them. -/
theorem exists_operands {sign : Token} (hsign : sign.isNameOrString = false)
    (hleft : ∀ {us'}, List.Forall₂ Token.Alike us us' → ∃ l, left.Derives us' l)
    (hright : ∀ {vs'}, List.Forall₂ Token.Alike vs vs' → ∃ r, right.Derives vs' r)
    (h : List.Forall₂ Token.Alike (us ++ sign :: vs) ws) :
    ∃ us' vs' l r, ws = us' ++ sign :: vs' ∧ left.Derives us' l ∧ right.Derives vs' r := by
  obtain ⟨us', vs', rfl, hus, hvs⟩ := Token.exists_around_of_alike hsign h
  obtain ⟨l, hl⟩ := hleft hus
  obtain ⟨r, hr⟩ := hright hvs
  exact ⟨us', vs', l, r, rfl, hl, hr⟩

/-- An operand that can be derived with names and strings exchanged still has its brackets behind
it. -/
theorem exists_bracketed {o c : Token} (ho : o.isNameOrString = false)
    (hc : c.isNameOrString = false)
    (hleft : ∀ {us'}, List.Forall₂ Token.Alike us us' → ∃ l, left.Derives us' l)
    (hright : ∀ {vs'}, List.Forall₂ Token.Alike vs vs' → ∃ r, right.Derives vs' r)
    (h : List.Forall₂ Token.Alike (us ++ o :: vs ++ [c]) ws) :
    ∃ us' vs' l r, ws = us' ++ o :: vs' ++ [c] ∧ left.Derives us' l ∧ right.Derives vs' r := by
  obtain ⟨ws', zs', rfl, hws, hzs⟩ := Token.exists_append_of_alike h
  obtain rfl := Token.eq_single_of_alike hc hzs
  obtain ⟨us', vs', l, r, rfl, hl, hr⟩ := exists_operands ho hleft hright hws
  exact ⟨us', vs', l, r, rfl, hl, hr⟩

end Operands

/-- What is derived from a nonterminal of expressions is so with names and strings exchanged. -/
theorem ExprRule.Derives.exchange {rule : ExprRule} {us vs : List Token} {tree : rule.Tree}
    (h : rule.Derives us tree) (hvs : List.Forall₂ Token.Alike us vs) :
    ∃ tree', rule.Derives vs tree' := by
  induction h generalizing vs with
  | ofAnd _ ih => exact (ih hvs).imp fun _ => .ofAnd
  | ofNot _ ih => exact (ih hvs).imp fun _ => .ofNot
  | ofComparison _ ih => exact (ih hvs).imp fun _ => .ofComparison
  | ofSum _ ih => exact (ih hvs).imp fun _ => .ofSum
  | ofTerm _ ih => exact (ih hvs).imp fun _ => .ofTerm
  | ofUnary _ ih => exact (ih hvs).imp fun _ => .ofUnary
  | ofPower _ ih => exact (ih hvs).imp fun _ => .ofPower
  | ofPostfixed _ ih => exact (ih hvs).imp fun _ => .ofPostfixed
  | ofAtom _ ih => exact (ih hvs).imp fun _ => .ofAtom
  | disj _ _ ihl ihr =>
    obtain ⟨us', vs', l, r, rfl, hl, hr⟩ := exists_operands rfl ihl ihr hvs
    exact ⟨_, .disj hl hr⟩
  | conj _ _ ihl ihr =>
    obtain ⟨us', vs', l, r, rfl, hl, hr⟩ := exists_operands rfl ihl ihr hvs
    exact ⟨_, .conj hl hr⟩
  | negation _ ih =>
    obtain ⟨us', rfl, h⟩ := Token.exists_cons_of_alike rfl hvs
    obtain ⟨e, h⟩ := ih h
    exact ⟨_, .negation h⟩
  | compare hop _ _ ihl ihr =>
    have hsign := not_isNameOrString_of_mem_signs _
      (List.mem_append_left _ (List.mem_append_left _ hop))
    obtain ⟨us', vs', l, r, rfl, hl, hr⟩ := exists_operands hsign ihl ihr hvs
    exact ⟨_, .compare hop hl hr⟩
  | add hop _ _ ihl ihr =>
    have hsign := not_isNameOrString_of_mem_signs _
      (List.mem_append_left _ (List.mem_append_right _ hop))
    obtain ⟨us', vs', l, r, rfl, hl, hr⟩ := exists_operands hsign ihl ihr hvs
    exact ⟨_, .add hop hl hr⟩
  | multiply hop _ _ ihl ihr =>
    have hsign := not_isNameOrString_of_mem_signs _ (List.mem_append_right _ hop)
    obtain ⟨us', vs', l, r, rfl, hl, hr⟩ := exists_operands hsign ihl ihr hvs
    exact ⟨_, .multiply hop hl hr⟩
  | minus _ ih =>
    obtain ⟨us', rfl, h⟩ := Token.exists_cons_of_alike rfl hvs
    obtain ⟨e, h⟩ := ih h
    exact ⟨_, .minus h⟩
  | exponent _ _ ihl ihr =>
    obtain ⟨us', vs', l, r, rfl, hl, hr⟩ := exists_operands rfl ihl ihr hvs
    exact ⟨_, .exponent hl hr⟩
  | call _ _ ihf iha =>
    obtain ⟨us', vs', f, args, rfl, hf, ha⟩ := exists_bracketed rfl rfl ihf iha hvs
    exact ⟨_, .call hf ha⟩
  | index _ _ ihe ihi =>
    obtain ⟨us', vs', e, i, rfl, he, hi⟩ := exists_bracketed rfl rfl ihe ihi hvs
    exact ⟨_, .index he hi⟩
  | literal hl =>
    obtain ⟨u, ws, hu, hws, rfl⟩ := List.forall₂_cons_left_iff.mp hvs
    cases hws
    exact hl.exchange hu
  | name =>
    obtain ⟨u, ws, hu, hws, rfl⟩ := List.forall₂_cons_left_iff.mp hvs
    cases hws
    cases hu with
    | refl => exact ⟨_, .name⟩
    | quoted => exact ⟨_, .literal .string⟩
  | paren _ ih =>
    obtain ⟨us', rfl, h⟩ := Token.exists_wrap_of_alike rfl rfl hvs
    exact (ih h).imp fun _ => .paren
  | list _ ih =>
    obtain ⟨us', rfl, h⟩ := Token.exists_wrap_of_alike rfl rfl hvs
    obtain ⟨es, h⟩ := ih h
    exact ⟨_, .list h⟩
  | dict _ ih =>
    obtain ⟨us', rfl, h⟩ := Token.exists_wrap_of_alike rfl rfl hvs
    obtain ⟨es, h⟩ := ih h
    exact ⟨_, .dict h⟩
  | noItems =>
    cases hvs
    exact ⟨_, .noItems⟩
  | lastItem _ ih =>
    obtain ⟨e, h⟩ := ih hvs
    exact ⟨_, .lastItem h⟩
  | moreItems _ _ ihe ihs =>
    obtain ⟨us', vs', e, es, rfl, he, hs⟩ := exists_operands rfl ihe ihs hvs
    exact ⟨_, .moreItems he hs⟩
  | noPairs =>
    cases hvs
    exact ⟨_, .noPairs⟩
  | lastPair _ _ ihk ihe =>
    obtain ⟨us', vs', k, e, rfl, hk, he⟩ := exists_operands rfl ihk ihe hvs
    exact ⟨_, .lastPair hk he⟩
  | morePairs _ _ _ ihk ihe ihs =>
    obtain ⟨ws', zs', rfl, hpair, hs⟩ := Token.exists_around_of_alike rfl hvs
    obtain ⟨us', vs', k, e, rfl, hk, he⟩ := exists_operands rfl ihk ihe hpair
    obtain ⟨es, hs⟩ := ihs hs
    exact ⟨_, .morePairs hk he hs⟩

/-! ### Scripts -/

/-- Whether a rule that asks for a name can hold the token: a sign of assignment, or the first word
of a definition or of a loop over items. -/
def Token.asksForName : Token → Bool
  | .symbol sign =>
    match sign with
    | .assign | .plusAssign | .minusAssign | .timesAssign | .divideAssign => true
    | _ => false
  | .keyword .define | .keyword .loopFor => true
  | _ => false

theorem asksForName_of_mem_assignmentSigns :
    ∀ sign ∈ assignmentSigns, (Token.symbol sign.1).asksForName = true := by
  decide

/-- What it means for a part of a script that it can be derived with another tree; parameters are
names. -/
def ScriptRule.Exchanges : ScriptRule → List Token → Prop
  | .parameters, _ => True
  | rule, vs => ∃ tree, rule.Derives vs tree

/-- A condition and the suite behind it, if that can be derived with names and strings exchanged,
still stand behind their word. -/
theorem exists_guarded {word : Keyword} {us vs ws : List Token} {e : Expr}
    (hcondition : ExprRule.or.Derives us e)
    (hsuite : ∀ {vs'}, (∀ t ∈ vs, t.asksForName = false) → List.Forall₂ Token.Alike vs vs' →
      ScriptRule.suite.Exchanges vs')
    (hus : ∀ t ∈ .keyword word :: us ++ .symbol .colon :: vs, t.asksForName = false)
    (h : List.Forall₂ Token.Alike (.keyword word :: us ++ .symbol .colon :: vs) ws) :
    ∃ us' vs' c body, ws = .keyword word :: us' ++ .symbol .colon :: vs' ∧
      ExprRule.or.Derives us' c ∧ ScriptRule.suite.Derives vs' body := by
  obtain ⟨ws', vs', rfl, hws, hvs⟩ := Token.exists_around_of_alike rfl h
  obtain ⟨us', rfl, hus'⟩ := Token.exists_cons_of_alike rfl hws
  obtain ⟨c, hc⟩ := hcondition.exchange hus'
  obtain ⟨_, hvsNames⟩ := List.forall_mem_append.mp hus
  obtain ⟨body, hbody⟩ := hsuite (List.forall_mem_cons.mp hvsNames).2 hvs
  exact ⟨us', vs', c, body, rfl, hc, hbody⟩

/-- What is derived from a nonterminal of scripts and binds no name is so with names and strings
exchanged. -/
theorem ScriptRule.Derives.exchange {rule : ScriptRule} {us vs : List Token} {tree : rule.Tree}
    (h : rule.Derives us tree) (hus : ∀ t ∈ us, t.asksForName = false)
    (hvs : List.Forall₂ Token.Alike us vs) : rule.Exchanges vs := by
  induction h generalizing vs with
  | emptyProgram =>
    cases hvs
    exact ⟨_, .emptyProgram⟩
  | ofLines _ ih =>
    obtain ⟨p, h⟩ := ih hus hvs
    exact ⟨p, .ofLines h⟩
  | ofCompound _ ih =>
    obtain ⟨st, h⟩ := ih hus hvs
    exact ⟨_, .ofCompound h⟩
  | ofSimpleLine _ ih =>
    obtain ⟨p, h⟩ := ih hus hvs
    exact ⟨p, .ofSimpleLine h⟩
  | lastSimple _ ih =>
    obtain ⟨us', ws', rfl, h, hws⟩ := Token.exists_append_of_alike hvs
    obtain rfl := Token.eq_single_of_alike rfl hws
    obtain ⟨st, h⟩ := ih (List.forall_mem_append.mp hus).1 h
    exact ⟨_, .lastSimple h⟩
  | lastSimpleWithSign _ ih =>
    obtain ⟨us', ws', rfl, h, hws⟩ := Token.exists_around_of_alike rfl hvs
    obtain rfl := Token.eq_single_of_alike rfl hws
    obtain ⟨st, h⟩ := ih (List.forall_mem_append.mp hus).1 h
    exact ⟨_, .lastSimpleWithSign h⟩
  | moreSimple _ _ ihs ihl =>
    obtain ⟨hfirst, hrest⟩ := List.forall_mem_append.mp hus
    obtain ⟨us', vs', rfl, hs, hl⟩ := Token.exists_around_of_alike rfl hvs
    obtain ⟨st, hs⟩ := ihs hfirst hs
    obtain ⟨p, hl⟩ := ihl (List.forall_mem_cons.mp hrest).2 hl
    exact ⟨_, .moreSimple hs hl⟩
  | pass =>
    obtain rfl := Token.eq_single_of_alike rfl hvs
    exact ⟨_, .pass⟩
  | leave =>
    obtain rfl := Token.eq_single_of_alike rfl hvs
    exact ⟨_, .leave⟩
  | next =>
    obtain rfl := Token.eq_single_of_alike rfl hvs
    exact ⟨_, .next⟩
  | giveBackNothing =>
    obtain rfl := Token.eq_single_of_alike rfl hvs
    exact ⟨_, .giveBackNothing⟩
  | giveBack he =>
    obtain ⟨us', rfl, h⟩ := Token.exists_cons_of_alike rfl hvs
    obtain ⟨e, h⟩ := he.exchange h
    exact ⟨_, .giveBack h⟩
  | assign hsign =>
    have hasks := asksForName_of_mem_assignmentSigns _ hsign
    rw [hus _ (by simp)] at hasks
    cases hasks
  | setItem =>
    have hasks := hus (.symbol .assign) (by simp)
    cases hasks
  | expr he =>
    obtain ⟨e, h⟩ := he.exchange hvs
    exact ⟨_, .expr h⟩
  | define =>
    have hasks := hus (.keyword .define) (by simp)
    cases hasks
  | choose hc _ _ ihb iha =>
    obtain ⟨hfront, halternatives⟩ := List.forall_mem_append.mp hus
    obtain ⟨xs', ws', rfl, hxs, hws⟩ := Token.exists_append_of_alike hvs
    obtain ⟨us', vs', c, body, rfl, hc, hbody⟩ := exists_guarded hc ihb hfront hxs
    obtain ⟨⟨branches, otherwise⟩, hbranches⟩ := iha halternatives hws
    exact ⟨_, .choose hc hbody hbranches⟩
  | loopWhile hc _ ihb =>
    obtain ⟨us', vs', c, body, rfl, hc, hbody⟩ := exists_guarded hc ihb hus hvs
    exact ⟨_, .loopWhile hc hbody⟩
  | loopFor =>
    have hasks := hus (.keyword .loopFor) (by simp)
    cases hasks
  | noAlternative =>
    cases hvs
    exact ⟨_, .noAlternative⟩
  | otherwise _ ih =>
    obtain ⟨ws', rfl, hws⟩ := Token.exists_cons_of_alike rfl hvs
    obtain ⟨us', rfl, hus'⟩ := Token.exists_cons_of_alike rfl hws
    obtain ⟨body, hbody⟩ := ih (fun t ht => hus t (by simp [ht])) hus'
    exact ⟨_, .otherwise hbody⟩
  | elseIf hc _ _ ihb iha =>
    obtain ⟨hfront, halternatives⟩ := List.forall_mem_append.mp hus
    obtain ⟨xs', ws', rfl, hxs, hws⟩ := Token.exists_append_of_alike hvs
    obtain ⟨us', vs', c, body, rfl, hc, hbody⟩ := exists_guarded hc ihb hfront hxs
    obtain ⟨⟨branches, otherwise⟩, hbranches⟩ := iha halternatives hws
    exact ⟨_, .elseIf hc hbody hbranches⟩
  | noParameter | lastParameter | moreParameters => trivial
  | ofInlineSuite _ ih =>
    obtain ⟨p, h⟩ := ih hus hvs
    exact ⟨p, .ofInlineSuite h⟩
  | block _ ih =>
    obtain ⟨ws', zs', rfl, hws, hzs⟩ := Token.exists_around_of_alike rfl hvs
    cases hzs
    obtain ⟨xs', rfl, hxs⟩ := Token.exists_cons_of_alike rfl hws
    obtain ⟨us', rfl, hus'⟩ := Token.exists_cons_of_alike rfl hxs
    obtain ⟨p, h⟩ := ih (fun t ht => hus t (by simp [ht])) hus'
    exact ⟨p, .block h⟩
  | lastLine _ ih =>
    obtain ⟨p, h⟩ := ih hus hvs
    exact ⟨p, .lastLine h⟩
  | moreLines _ _ ihf ihl =>
    obtain ⟨hfirst, hrest⟩ := List.forall_mem_append.mp hus
    obtain ⟨us', vs', rfl, hf, hl⟩ := Token.exists_append_of_alike hvs
    obtain ⟨p, hf⟩ := ihf hfirst hf
    obtain ⟨q, hl⟩ := ihl hrest hl
    exact ⟨_, .moreLines hf hl⟩

end ScriptShell
