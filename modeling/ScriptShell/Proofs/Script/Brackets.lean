import ScriptShell.Proofs.Script.FirstTokens
import ScriptShell.Proofs.Token.Content

/-!
# Brackets and commas

The brackets of expressions and scripts are balanced: each is closed by one of its kind, so what is
read inside a bracket never leaves that bracket and ends where it started. A call has at most one
argument more than there are commas in its tokens, and an expression that can stand as an argument
of a command has no commas and no minus sign behind an operand.
-/

namespace ScriptShell

/-! ### Open brackets -/

/-- Reading tokens from some number of open brackets on never closes all of them. -/
def StaysOpen : Nat → List Token → Prop
  | depth, [] => 0 < depth
  | depth, t :: ts => 0 < depth ∧ StaysOpen (Layout.depthAfter depth t) ts

/-- The number of open brackets behind tokens. -/
def depthBehind (depth : Nat) (ts : List Token) : Nat := ts.foldl Layout.depthAfter depth

/-- The depth behind two lists is that behind the second, from the depth behind the first. -/
theorem depthBehind_append (depth : Nat) (us vs : List Token) :
    depthBehind depth (us ++ vs) = depthBehind (depthBehind depth us) vs := List.foldl_append ..

/-- A bracket is open at the start of what stays open. -/
theorem StaysOpen.pos {depth : Nat} {ts : List Token} (h : StaysOpen depth ts) : 0 < depth := by
  cases ts with
  | nil => exact h
  | cons t ts => exact h.1

/-- Two lists in a row stay open if each does at its depth. -/
theorem StaysOpen.append {depth : Nat} {us vs : List Token} (hu : StaysOpen depth us)
    (hv : StaysOpen (depthBehind depth us) vs) : StaysOpen depth (us ++ vs) := by
  induction us generalizing depth with
  | nil => exact hv
  | cons u us ih => exact ⟨hu.1, ih hu.2 hv⟩

/-- Tokens that stay inside the bracket they stand in, and open as many as they close. -/
def Neutral (ts : List Token) : Prop :=
  ∀ depth, 0 < depth → StaysOpen depth ts ∧ depthBehind depth ts = depth

theorem neutral_nil : Neutral [] := fun _ h => ⟨h, rfl⟩

/-- Two neutral lists in a row are neutral. -/
theorem Neutral.append {us vs : List Token} (hu : Neutral us) (hv : Neutral vs) :
    Neutral (us ++ vs) := by
  intro depth h
  obtain ⟨hopen, hdepth⟩ := hu depth h
  obtain ⟨hopen', hdepth'⟩ := hv depth h
  rw [depthBehind_append, hdepth]
  exact ⟨hopen.append (by rw [hdepth]; exact hopen'), hdepth'⟩

/-- A token that is no bracket. -/
theorem Neutral.cons {t : Token} (ho : t.opensBracket = false) (hc : t.closesBracket = false)
    {ts : List Token} (h : Neutral ts) : Neutral (t :: ts) := by
  intro depth hdepth
  have hafter : Layout.depthAfter depth t = depth := by
    unfold Layout.depthAfter
    rw [ho, hc]
    rfl
  obtain ⟨hopen, hbehind⟩ := h depth hdepth
  refine ⟨⟨hdepth, by rw [hafter]; exact hopen⟩, ?_⟩
  rw [depthBehind, List.foldl_cons, hafter]
  exact hbehind

/-- Tokens between an opening bracket and a closing one. -/
theorem Neutral.wrap {o c : Token} (ho : o.opensBracket = true) (hco : c.opensBracket = false)
    (hc : c.closesBracket = true) {ts : List Token} (h : Neutral ts) :
    Neutral (o :: ts ++ [c]) := by
  intro depth hdepth
  have hinside : Layout.depthAfter depth o = depth + 1 := by
    unfold Layout.depthAfter
    rw [ho]
    rfl
  have hafter : Layout.depthAfter (depth + 1) c = depth := by
    unfold Layout.depthAfter
    rw [hco, hc]
    rfl
  obtain ⟨hopen, hbehind⟩ := h (depth + 1) (Nat.succ_pos depth)
  have hlast : StaysOpen (depthBehind (depth + 1) ts) [c] := by
    rw [hbehind]
    exact ⟨Nat.succ_pos depth, by rw [hafter]; exact hdepth⟩
  constructor
  · refine ⟨hdepth, ?_⟩
    rw [hinside]
    exact hopen.append hlast
  · rw [List.cons_append, depthBehind, List.foldl_cons, hinside]
    change depthBehind (depth + 1) (ts ++ [c]) = depth
    rw [depthBehind_append, hbehind]
    exact hafter

/-! ### Pairs of brackets -/

/-- The brackets that open, each with the one that closes it. -/
def bracketPairs : List (Symbol × Symbol) :=
  [(.openParen, .closeParen), (.openBracket, .closeBracket), (.openBrace, .closeBrace)]

/-- Of a pair of brackets the first opens and the second closes. -/
theorem brackets_of_mem_pairs :
    ∀ pair ∈ bracketPairs, (Token.symbol pair.1).opensBracket = true ∧
      (Token.symbol pair.2).opensBracket = false ∧
        (Token.symbol pair.2).closesBracket = true := by
  decide

/-- A bracket is closed by those of one kind only. -/
theorem eq_of_mem_pairs :
    ∀ pair ∈ bracketPairs, ∀ other ∈ bracketPairs, pair.1 = other.1 → pair.2 = other.2 := by
  decide

/-- Tokens in which each bracket is closed by one of its kind, and what is between them is balanced
too. -/
inductive Balanced : List Token → Prop
  | nil : Balanced []
  | token {t : Token} {ts : List Token} : t.opensBracket = false → t.closesBracket = false →
      Balanced ts → Balanced (t :: ts)
  | pair {o c : Symbol} {us vs : List Token} : (o, c) ∈ bracketPairs → Balanced us → Balanced vs →
      Balanced (.symbol o :: us ++ .symbol c :: vs)

namespace Balanced

variable {us vs ts : List Token}

/-- Two balanced lists in a row are balanced. -/
theorem append (hu : Balanced us) (hv : Balanced vs) : Balanced (us ++ vs) := by
  induction hu with
  | nil => exact hv
  | token ho hc _ ih => exact .token ho hc ih
  | pair hpair hu _ _ ih =>
    have hwhole := Balanced.pair hpair hu ih
    simpa using hwhole

/-- Two parts around a token that is no bracket. -/
theorem around (hu : Balanced us) {t : Token}
    (ht : t.opensBracket = false ∧ t.closesBracket = false) (hv : Balanced vs) :
    Balanced (us ++ t :: vs) := hu.append (.token ht.1 ht.2 hv)

/-- A balanced list in brackets is balanced. -/
theorem wrap {o c : Symbol} (hpair : (o, c) ∈ bracketPairs) (h : Balanced ts) :
    Balanced (.symbol o :: ts ++ [.symbol c]) := .pair hpair h .nil

/-- Balanced tokens are neutral: the kinds of the brackets do not count. -/
theorem neutral (h : Balanced ts) : Neutral ts := by
  induction h with
  | nil => exact neutral_nil
  | token ho hc _ ih => exact ih.cons ho hc
  | pair hpair _ _ ihu ihv =>
    obtain ⟨ho, hco, hc⟩ := brackets_of_mem_pairs _ hpair
    have hwhole := (ihu.wrap ho hco hc).append ihv
    simpa using hwhole

/-- Balance is up to the content. -/
theorem content (h : Balanced ts) : Balanced (Token.content ts) := by
  induction h with
  | nil => exact .nil
  | @token t ts ho hc _ ih =>
    cases ht : t.isLayout with
    | true => rwa [Token.content_cons_of_isLayout ht]
    | false => exact Token.content_cons ht ts ▸ .token ho hc ih
  | pair hpair _ _ ihu ihv =>
    rw [Token.content_append, Token.content_cons rfl, Token.content_cons rfl]
    exact .pair hpair ihu ihv

end Balanced

/-- Each bracket is closed behind it by one of its kind. -/
def ClosesAll : List Token → Prop
  | [] => True
  | t :: ts => (∀ o c, t = .symbol o → (o, c) ∈ bracketPairs → .symbol c ∈ ts) ∧ ClosesAll ts

/-- Two lists in a row that close what they open do so together. -/
theorem ClosesAll.append {us vs : List Token} (hu : ClosesAll us) (hv : ClosesAll vs) :
    ClosesAll (us ++ vs) := by
  induction us with
  | nil => exact hv
  | cons u us ih =>
    exact ⟨fun o c ht hpair => List.mem_append_left _ (hu.1 o c ht hpair), ih hu.2⟩

/-- A bracket is closed behind it whatever stands before it. -/
theorem ClosesAll.mem {us vs : List Token} {o c : Symbol}
    (h : ClosesAll (us ++ .symbol o :: vs)) (hpair : (o, c) ∈ bracketPairs) : .symbol c ∈ vs := by
  induction us with
  | nil => exact h.1 o c rfl hpair
  | cons u us ih => exact ih h.2

/-- In balanced tokens each bracket is closed. -/
theorem Balanced.closesAll {ts : List Token} (h : Balanced ts) : ClosesAll ts := by
  induction h with
  | nil => trivial
  | @token t ts ho _ _ ih =>
    refine ⟨fun o c ht hpair => ?_, ih⟩
    rw [ht, (brackets_of_mem_pairs _ hpair).1] at ho
    cases ho
  | @pair o c us vs hpair _ _ ihu ihv =>
    refine ⟨fun o' c' ht hpair' => ?_, ihu.append ⟨fun o' c' ht hpair' => ?_, ihv⟩⟩
    · obtain rfl : o = o' := by simpa using ht
      obtain rfl : c = c' := eq_of_mem_pairs _ hpair _ hpair' rfl
      simp
    · obtain rfl : c = o' := by simpa using ht
      have hopens := (brackets_of_mem_pairs _ hpair').1
      rw [(brackets_of_mem_pairs _ hpair).2.1] at hopens
      cases hopens

/-- Whether brackets are closed is up to the content. -/
theorem ClosesAll.of_content {ts : List Token} (h : ClosesAll (Token.content ts)) :
    ClosesAll ts := by
  induction ts with
  | nil => trivial
  | cons t ts ih =>
    cases ht : t.isLayout with
    | true =>
      rw [Token.content_cons_of_isLayout ht] at h
      refine ⟨fun o c hsign => ?_, ih h⟩
      rw [hsign] at ht
      cases ht
    | false =>
      rw [Token.content_cons ht] at h
      exact ⟨fun o c hsign hpair => (List.mem_filter.mp (h.1 o c hsign hpair)).1, ih h.2⟩

/-! ### Brackets of derived tokens -/

/-- A literal has no bracket. -/
theorem LiteralToken.balanced {t : Token} {e : Expr} (h : LiteralToken t e) : Balanced [t] := by
  cases h <;> exact .token rfl rfl .nil

/-- The signs between two operands are no brackets. -/
theorem no_bracket_of_mem_signs :
    ∀ sign ∈ comparisonSigns ++ sumSigns ++ termSigns,
      sign.1.opensBracket = false ∧ sign.1.closesBracket = false := by
  decide

/-- The brackets of an expression are balanced. -/
theorem ExprRule.Derives.balanced {rule : ExprRule} {us : List Token} {tree : rule.Tree}
    (h : rule.Derives us tree) : Balanced us := by
  induction h with
  | ofAnd _ ih | ofNot _ ih | ofComparison _ ih | ofSum _ ih | ofTerm _ ih | ofUnary _ ih
  | ofPower _ ih | ofPostfixed _ ih | ofAtom _ ih | lastItem _ ih => exact ih
  | disj _ _ ihl ihr | conj _ _ ihl ihr | exponent _ _ ihl ihr | moreItems _ _ ihl ihr
  | lastPair _ _ ihl ihr => exact ihl.append (.token rfl rfl ihr)
  | negation _ ih | minus _ ih => exact .token rfl rfl ih
  | compare hop _ _ ihl ihr =>
    exact ihl.around (no_bracket_of_mem_signs _
      (List.mem_append_left _ (List.mem_append_left _ hop))) ihr
  | add hop _ _ ihl ihr =>
    exact ihl.around (no_bracket_of_mem_signs _
      (List.mem_append_left _ (List.mem_append_right _ hop))) ihr
  | multiply hop _ _ ihl ihr =>
    exact ihl.around (no_bracket_of_mem_signs _ (List.mem_append_right _ hop)) ihr
  | call _ _ ihl ihr | index _ _ ihl ihr =>
    rw [List.append_assoc]
    exact ihl.append (ihr.wrap (by decide))
  | literal hl => exact hl.balanced
  | name => exact .token rfl rfl .nil
  | paren _ ih | list _ ih | dict _ ih => exact ih.wrap (by decide)
  | noItems | noPairs => exact .nil
  | morePairs _ _ _ ihk ihe iht =>
    exact (ihk.append (.token rfl rfl ihe)).append (.token rfl rfl iht)

/-- Every expression leaves the depth as it was. -/
theorem ExprRule.Derives.neutral {rule : ExprRule} {us : List Token} {tree : rule.Tree}
    (h : rule.Derives us tree) : Neutral us := h.balanced.neutral

/-- A layout token leaves the depth as it was. -/
theorem depthAfter_of_isLayout {t : Token} (h : t.isLayout = true) (depth : Nat) :
    Layout.depthAfter depth t = depth := by
  cases t with
  | newline | indent | dedent => rfl
  | _ => cases h

/-- Only the content changes the number of open brackets. -/
theorem depthBehind_content (depth : Nat) (ts : List Token) :
    depthBehind depth (Token.content ts) = depthBehind depth ts := by
  induction ts generalizing depth with
  | nil => rfl
  | cons t ts ih =>
    cases ht : t.isLayout with
    | true =>
      rw [Token.content_cons_of_isLayout ht, ih, depthBehind, depthBehind, List.foldl_cons,
        depthAfter_of_isLayout ht]
    | false =>
      rw [Token.content_cons ht]
      exact ih (Layout.depthAfter depth t)

/-- Whether a bracket stays open is up to the content. -/
theorem StaysOpen.of_content {depth : Nat} {ts : List Token}
    (h : StaysOpen depth (Token.content ts)) : StaysOpen depth ts := by
  induction ts generalizing depth with
  | nil => exact h
  | cons t ts ih =>
    cases ht : t.isLayout with
    | true =>
      rw [Token.content_cons_of_isLayout ht] at h
      refine ⟨h.pos, ?_⟩
      rw [depthAfter_of_isLayout ht]
      exact ih h
    | false =>
      rw [Token.content_cons ht] at h
      exact ⟨h.1, ih h.2⟩

/-- Tokens with a balanced content are balanced. -/
theorem Neutral.of_content {ts : List Token} (h : Neutral (Token.content ts)) : Neutral ts := by
  intro depth hdepth
  obtain ⟨hopen, hbehind⟩ := h depth hdepth
  rw [depthBehind_content] at hbehind
  exact ⟨hopen.of_content, hbehind⟩

/-- The sign of an assignment is no bracket. -/
theorem no_bracket_of_mem_assignmentSigns :
    ∀ sign ∈ assignmentSigns, (Token.symbol sign.1).opensBracket = false ∧
      (Token.symbol sign.1).closesBracket = false := by
  decide

/-- Scripts and their parts are balanced. -/
theorem ScriptRule.Derives.balanced {rule : ScriptRule} {us : List Token} {tree : rule.Tree}
    (h : rule.Derives us tree) : Balanced us := by
  induction h with
  | emptyProgram | noAlternative | noParameter => exact .nil
  | ofLines _ ih | ofCompound _ ih | ofSimpleLine _ ih | ofInlineSuite _ ih | lastLine _ ih =>
    exact ih
  | pass | leave | next | giveBackNothing | lastParameter => exact .token rfl rfl .nil
  | expr he => exact he.balanced
  | giveBack he => exact .token rfl rfl he.balanced
  | assign hsign he =>
    obtain ⟨hopens, hcloses⟩ := no_bracket_of_mem_assignmentSigns _ hsign
    exact .token rfl rfl (.token hopens hcloses he.balanced)
  | @setItem x us vs i e hi he =>
    exact .token rfl rfl (.pair (by decide) hi.balanced (.token rfl rfl he.balanced))
  | lastSimple _ ih => exact ih.append (.token rfl rfl .nil)
  | lastSimpleWithSign _ ih => exact ih.append (.token rfl rfl (.token rfl rfl .nil))
  | moreSimple _ _ ihs ihl => exact ihs.append (.token rfl rfl ihl)
  | @define x us vs params body _ _ ihp ihb =>
    exact .token rfl rfl (.token rfl rfl (.pair (by decide) ihp (.token rfl rfl ihb)))
  | choose hc _ _ ihb iha | elseIf hc _ _ ihb iha =>
    exact (Balanced.append (.token rfl rfl hc.balanced) (.token rfl rfl ihb)).append iha
  | loopWhile hc _ ihb => exact Balanced.append (.token rfl rfl hc.balanced) (.token rfl rfl ihb)
  | loopFor he _ ihb =>
    exact Balanced.append (.token rfl rfl (.token rfl rfl (.token rfl rfl he.balanced)))
      (.token rfl rfl ihb)
  | otherwise _ ih | moreParameters _ ih => exact .token rfl rfl (.token rfl rfl ih)
  | block _ ih =>
    exact Balanced.append (.token rfl rfl (.token rfl rfl ih)) (.token rfl rfl .nil)
  | moreLines _ _ ihf ihl => exact ihf.append ihl

/-- Every part of a script leaves the depth as it was. -/
theorem ScriptRule.Derives.neutral {rule : ScriptRule} {us : List Token} {tree : rule.Tree}
    (h : rule.Derives us tree) : Neutral us := h.balanced.neutral

/-- Tokens that stay inside a bracket end with as many open brackets without it, but for one. -/
theorem StaysOpen.depthBehind_succ {depth : Nat} {ts : List Token} (h : StaysOpen (depth + 1) ts) :
    depthBehind (depth + 1) ts = depthBehind depth ts + 1 := by
  induction ts generalizing depth with
  | nil => rfl
  | cons t ts ih =>
    have hpos := h.2.pos
    have hafter : Layout.depthAfter (depth + 1) t = Layout.depthAfter depth t + 1 := by
      unfold Layout.depthAfter at hpos ⊢
      split
      · rfl
      · split
        · next hopens hcloses =>
          rw [if_neg hopens, if_pos hcloses] at hpos
          omega
        · rfl
    have hrest := h.2
    rw [hafter] at hrest
    rw [depthBehind, depthBehind, List.foldl_cons, List.foldl_cons, hafter]
    exact ih hrest

/-- Balanced tokens leave no bracket open. -/
theorem Neutral.depthBehind_zero {ts : List Token} (h : Neutral ts) : depthBehind 0 ts = 0 := by
  obtain ⟨hopen, hbehind⟩ := h 1 Nat.one_pos
  have hsucc := hopen.depthBehind_succ
  rw [hbehind] at hsucc
  exact (Nat.succ.inj hsucc).symm

/-! ### Commas -/

/-- Whether a token is a comma. -/
def Token.isComma : Token → Bool
  | .symbol .comma => true
  | _ => false

/-- The number of commas among tokens. -/
def Token.commas (ts : List Token) : Nat := ts.countP Token.isComma

@[simp] theorem Token.commas_nil : commas [] = 0 := rfl

/-- The commas of two lists in a row are those of both. -/
@[simp] theorem Token.commas_append (us vs : List Token) :
    commas (us ++ vs) = commas us + commas vs := List.countP_append ..

@[simp] theorem Token.commas_cons (t : Token) (ts : List Token) :
    commas (t :: ts) = commas ts + if t.isComma then 1 else 0 := List.countP_cons ..

/-- Commas are content. -/
theorem Token.commas_content (ts : List Token) : commas (content ts) = commas ts := by
  unfold commas content
  rw [List.countP_filter]
  refine List.countP_congr fun t _ => ?_
  cases t <;> simp [isComma, isLayout]

/-- The number of arguments of an expression, if it is a call. -/
def Expr.argumentCount : Expr → Nat
  | .call _ args => args.length
  | _ => 0

/-- The number of arguments or items at the top of a tree. -/
def ExprRule.width : (rule : ExprRule) → rule.Tree → Nat
  | .items, es => es.length
  | .pairs, _ => 0
  | .or, e | .and, e | .not, e | .comparison, e | .sum, e | .term, e | .unary, e | .power, e
  | .postfixed, e | .atom, e => e.argumentCount

/-- A literal has no argument. -/
theorem LiteralToken.argumentCount {t : Token} {e : Expr} (h : LiteralToken t e) :
    e.argumentCount = 0 := by
  cases h <;> rfl

/-- There is at most one argument or item more than there are commas. -/
theorem ExprRule.Derives.width_le {rule : ExprRule} {us : List Token} {tree : rule.Tree}
    (h : rule.Derives us tree) : rule.width tree ≤ Token.commas us + 1 := by
  induction h with
  | ofAnd _ ih | ofNot _ ih | ofComparison _ ih | ofSum _ ih | ofTerm _ ih | ofUnary _ ih
  | ofPower _ ih | ofPostfixed _ ih | ofAtom _ ih => exact ih
  | disj | conj | negation | compare | add | multiply | minus | exponent | index | name | list
  | dict | noItems | noPairs | lastPair | morePairs => exact Nat.zero_le _
  | literal hl => exact Nat.le_trans (Nat.le_of_eq hl.argumentCount) (Nat.zero_le _)
  | call _ _ _ iha =>
    refine Nat.le_trans iha ?_
    simp only [Token.commas_append, Token.commas_cons]
    omega
  | paren _ ih =>
    refine Nat.le_trans ih ?_
    simp only [List.cons_append, Token.commas_append, Token.commas_cons]
    omega
  | lastItem _ _ => exact Nat.succ_le_succ (Nat.zero_le _)
  | moreItems _ _ _ ih =>
    simp only [ExprRule.width, List.length_cons, Token.commas_append, Token.commas_cons,
      Token.isComma, if_true] at ih ⊢
    omega

/-! ### Arguments -/

/-- Whether an expression can stand as an argument of a command: a name or a literal. -/
def Expr.isArgument : Expr → Bool
  | .name _ => true
  | e => e.isLiteral

/-- A literal is an argument. -/
theorem Expr.isArgument_of_isLiteral {e : Expr} (h : e.isLiteral = true) : e.isArgument = true := by
  cases e with
  | name => rfl
  | _ => exact h

/-- Whether a tree is an argument of a command. -/
def ExprRule.isArgument : (rule : ExprRule) → rule.Tree → Bool
  | .items, _ | .pairs, _ => false
  | .or, e | .and, e | .not, e | .comparison, e | .sum, e | .term, e | .unary, e | .power, e
  | .postfixed, e | .atom, e => e.isArgument

/-- A name or literal that is negated is a number. -/
theorem isArgument_of_neg {e : Expr} (h : (Expr.neg e).isArgument = true) :
    e.isArgument = true := by
  cases e with
  | int | float => rfl
  | _ => cases h

/-- An argument has no comma in it, and no minus sign behind an operand. -/
theorem ExprRule.Derives.of_isArgument {rule : ExprRule} {us : List Token} {tree : rule.Tree}
    (h : rule.Derives us tree) (htree : rule.isArgument tree = true) :
    Token.commas us = 0 ∧ Flag.Unflagged false us := by
  induction h with
  | ofAnd _ ih | ofNot _ ih | ofComparison _ ih | ofSum _ ih | ofTerm _ ih | ofUnary _ ih
  | ofPower _ ih | ofPostfixed _ ih | ofAtom _ ih => exact ih htree
  | disj | conj | negation | compare | add | multiply | exponent | call | index | list
  | dict | noItems | noPairs | lastPair | morePairs | lastItem | moreItems => cases htree
  | minus _ ih =>
    obtain ⟨hcommas, hflags⟩ := ih (isArgument_of_neg htree)
    exact ⟨by simpa [Token.isComma] using hcommas, nofun, hflags⟩
  | literal hl => exact ⟨by cases hl <;> rfl, nofun, trivial⟩
  | name => exact ⟨rfl, nofun, trivial⟩
  | paren _ ih =>
    obtain ⟨hcommas, hflags⟩ := ih htree
    refine ⟨by simpa [Token.isComma] using hcommas, nofun, ?_⟩
    exact hflags.append (by exact nofun) trivial

end ScriptShell
