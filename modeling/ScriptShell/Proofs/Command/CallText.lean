import Mathlib.Data.List.Forall2
import ScriptShell.Proofs.Command.Quoting

/-!
# The text of a call

Behind the opening bracket of a call stand the texts of its arguments, with a comma and a space
between them, and the closing bracket. If no argument leaves a comment open, this is cut into the
tokens of the arguments with what stands between them. If one does, the comma or the bracket behind
it is lost, and what is found behind the next line feed never makes up for it.
-/

namespace ScriptShell

/-- What stands behind an argument in the text of a call, up to the closing bracket. -/
def textBehind : List (List Char) → List Char
  | [] => [')']
  | a :: as => ',' :: ' ' :: (a ++ textBehind as)

/-- What stands behind the opening bracket in the text of a call. -/
def textInside : List (List Char) → List Char
  | [] => [')']
  | a :: as => a ++ textBehind as

theorem delimited_textBehind (as : List (List Char)) : Lexeme.Delimited (textBehind as) := by
  cases as with
  | nil => exact Lexeme.delimited_cons rfl []
  | cons a as => exact Lexeme.delimited_cons rfl (' ' :: (a ++ textBehind as))

theorem intercalate_append_bracket (as : List (List Char)) :
    [',', ' '].intercalate as ++ [')'] = textInside as := by
  cases as with
  | nil => rfl
  | cons a as =>
    induction as generalizing a with
    | nil => simp [textInside, textBehind]
    | cons b as ih =>
      rw [List.intercalate_cons_cons, List.append_assoc, List.append_assoc, ih]
      rfl

namespace Lexeme

theorem lexed_nil : lexed [] = some [] := by rw [lexed]

theorem lexed_closeParen : lexed [')'] = some [.symbol .closeParen] := by
  rw [lexed_token (by rfl : (cut ')' []).reading = .token (.symbol .closeParen))]
  change (lexed []).map _ = _
  rw [lexed_nil]
  rfl

/-- Behind the comma an argument is read. -/
theorem lexed_textBehind_cons (a : List Char) (as : List (List Char)) :
    lexed (textBehind (a :: as)) =
      (lexed (a ++ textBehind as)).map (.symbol .comma :: ·) := by
  have hcomma : cut ',' (' ' :: (a ++ textBehind as)) =
      ⟨.token (.symbol .comma), [','], ' ' :: (a ++ textBehind as)⟩ := rfl
  have hspace : cut ' ' (a ++ textBehind as) = ⟨.skipped, [' '], a ++ textBehind as⟩ := rfl
  rw [textBehind, lexed_token (by rw [hcomma]), hcomma, lexed_skipped (by rw [hspace]), hspace]

end Lexeme

/-! ### Commas -/

/-- A text can be read, with at most `n` commas among its tokens. -/
def HasCommas (n : Nat) (cs : List Char) : Prop :=
  ∃ ts, Lexeme.lexed cs = some ts ∧ Token.commas ts ≤ n

theorem HasCommas.mono {m n : Nat} (h : m ≤ n) {cs : List Char} (hcs : HasCommas m cs) :
    HasCommas n cs := by
  obtain ⟨ts, hts, hcommas⟩ := hcs
  exact ⟨ts, hts, Nat.le_trans hcommas h⟩

/-- A text without commas leaves the commas of what follows it, or of what is left of that behind
the next line feed. -/
theorem HasCommas.behind {n : Nat} {cs rest : List Char} (h : HasCommas 0 cs)
    (hdelimited : Lexeme.Delimited rest) (hrest : HasCommas n rest)
    (hlost : HasCommas n (rest.dropWhile (· != '\n'))) : HasCommas n (cs ++ rest) := by
  obtain ⟨us, hus, hnone⟩ := h
  cases hcomment : Lexeme.leavesComment cs with
  | false =>
    obtain ⟨vs, hvs, hcommas⟩ := hrest
    refine ⟨us ++ vs, ?_, ?_⟩
    · rw [Lexeme.lexed_append hus hcomment hdelimited, hvs]
      rfl
    · rw [Token.commas_append]
      omega
  | true =>
    obtain ⟨vs, hvs, hcommas⟩ := hlost
    refine ⟨us ++ vs, ?_, ?_⟩
    · rw [Lexeme.lexed_append_of_leavesComment hus hcomment hdelimited, hvs]
      rfl
    · rw [Token.commas_append]
      omega

/-- A text without commas has none behind a line feed in it. -/
theorem HasCommas.behind_feed {before after : List Char}
    (h : HasCommas 0 (before ++ '\n' :: after)) (hbefore : '\n' ∉ before) : HasCommas 0 after := by
  obtain ⟨ts, hts, hnone⟩ := h
  obtain ⟨us, vs, hvs, rfl⟩ := Lexeme.lexed_behind_feed hts hbefore
  refine ⟨vs, hvs, ?_⟩
  rw [Token.commas_append, Token.commas_cons] at hnone
  omega

/-- Behind an argument there is a comma for each other argument. If what stands behind it is lost up
to the next line feed then so is one of the commas. -/
theorem hasCommas_textBehind {as : List (List Char)} (has : ∀ a ∈ as, HasCommas 0 a) :
    HasCommas as.length (textBehind as) ∧
      HasCommas (as.length - 1) ((textBehind as).dropWhile (· != '\n')) := by
  induction as with
  | nil => exact ⟨⟨_, Lexeme.lexed_closeParen, Nat.le_refl 0⟩, ⟨_, Lexeme.lexed_nil, Nat.le_refl 0⟩⟩
  | cons a as ih =>
    have ha := has a (List.mem_cons_self ..)
    obtain ⟨hbehind, hlost⟩ := ih fun b hb => has b (List.mem_cons_of_mem _ hb)
    have hlost' := hlost.mono (Nat.sub_le as.length 1)
    constructor
    · obtain ⟨ts, hts, hcommas⟩ := ha.behind (delimited_textBehind as) hbehind hlost'
      refine ⟨.symbol .comma :: ts, ?_, ?_⟩
      · rw [Lexeme.lexed_textBehind_cons, hts]
        rfl
      · rw [Token.commas_cons]
        exact Nat.succ_le_succ hcommas
    · have hfront : (textBehind (a :: as)).dropWhile (· != '\n') =
          (a ++ textBehind as).dropWhile (· != '\n') := rfl
      rw [hfront, List.length_cons, Nat.add_sub_cancel]
      by_cases hfeed : '\n' ∈ a
      · obtain ⟨before, after, rfl, hbefore⟩ := List.eq_append_cons_of_mem hfeed
        obtain ⟨ts, hts, hcommas⟩ :=
          (ha.behind_feed hbefore).behind (delimited_textBehind as) hbehind hlost'
        rw [List.append_assoc, Lexeme.dropWhile_append_of_no_feed hbefore]
        refine ⟨.newline :: ts, ?_, ?_⟩
        · change Lexeme.lexed ('\n' :: (after ++ textBehind as)) = _
          rw [Lexeme.lexed_token (by rw [Lexeme.cut_feed]), Lexeme.cut_feed, hts]
          rfl
        · rw [Token.commas_cons]
          exact hcommas
      · rw [Lexeme.dropWhile_append_of_no_feed hfeed]
        exact hlost'

/-! ### Arguments -/

/-- A text denotes a name or literal: what it is cut into is derived as that. -/
def DenotesArgument (cs : List Char) (e : Expr) : Prop :=
  e.isArgument = true ∧
    ∃ ts, Lexeme.lexed cs = some ts ∧ ExprRule.or.Derives (Token.content ts) e

/-- An argument has no comma among its tokens, and no flag can start in it. -/
theorem DenotesArgument.exists_tokens {cs : List Char} {e : Expr} (h : DenotesArgument cs e) :
    ∃ ts, Lexeme.lexed cs = some ts ∧ ExprRule.or.Derives (Token.content ts) e ∧
      Token.commas ts = 0 ∧ Flag.Unflagged false ts := by
  obtain ⟨he, ts, hts, hd⟩ := h
  obtain ⟨hcommas, hflags⟩ := hd.of_isArgument he
  rw [Token.commas_content] at hcommas
  exact ⟨ts, hts, hd, hcommas, hflags.of_content⟩

theorem hasCommas_of_denotesArgument {as : List (List Char)} {es : List Expr}
    (h : List.Forall₂ DenotesArgument as es) : ∀ a ∈ as, HasCommas 0 a := by
  induction h with
  | nil => exact nofun
  | cons ha _ ih =>
    obtain ⟨ts, hts, _, hcommas, _⟩ := ha.exists_tokens
    exact List.forall_mem_cons.mpr ⟨⟨ts, hts, Nat.le_of_eq hcommas⟩, ih⟩

/-- If no argument leaves a comment open, the text behind the opening bracket is read as the
arguments and the closing bracket. -/
theorem derives_items_of_closed {a : List Char} {e : Expr} {as : List (List Char)} {es : List Expr}
    (ha : DenotesArgument a e) (has : List.Forall₂ DenotesArgument as es)
    (hclosed : ∀ b ∈ a :: as, Lexeme.leavesComment b = false) :
    ∃ ts, Lexeme.lexed (a ++ textBehind as) = some (ts ++ [.symbol .closeParen]) ∧
      ExprRule.items.Derives (Token.content ts) (e :: es) ∧ Flag.Unflagged false ts := by
  induction has generalizing a e with
  | nil =>
    obtain ⟨ts, hts, hd, _, hflags⟩ := ha.exists_tokens
    refine ⟨ts, ?_, .lastItem hd, hflags⟩
    rw [Lexeme.lexed_append hts (hclosed a (List.mem_cons_self ..)) (delimited_textBehind [])]
    change (Lexeme.lexed [')']).map _ = _
    rw [Lexeme.lexed_closeParen]
    rfl
  | @cons b e' as es hb _ ih =>
    obtain ⟨hclosedFirst, hclosedRest⟩ := List.forall_mem_cons.mp hclosed
    obtain ⟨us, hus, hd, _, hflags⟩ := ha.exists_tokens
    obtain ⟨vs, hvs, hitems, hflags'⟩ := ih hb hclosedRest
    refine ⟨us ++ .symbol .comma :: vs, ?_, ?_, ?_⟩
    · rw [Lexeme.lexed_append hus hclosedFirst (delimited_textBehind (b :: as)),
        Lexeme.lexed_textBehind_cons, hvs]
      simp
    · rw [Token.content_append, Token.content_cons rfl]
      exact .moreItems hd hitems
    · exact hflags.append nofun hflags'

/-- If an argument leaves a comment open, a comma or the closing bracket is missing from what the
text behind the opening bracket is read as. -/
theorem lost_of_leavesComment {a : List Char} {e : Expr} {as : List (List Char)} {es : List Expr}
    (ha : DenotesArgument a e) (has : List.Forall₂ DenotesArgument as es)
    (hopen : ∃ b ∈ a :: as, Lexeme.leavesComment b = true) :
    ∃ ts, Lexeme.lexed (a ++ textBehind as) = some ts ∧
      (Token.commas ts < as.length ∨ Neutral ts) := by
  induction has generalizing a e with
  | nil =>
    obtain ⟨ts, hts, hd, _⟩ := ha.exists_tokens
    obtain ⟨b, hb, hcomment⟩ := hopen
    obtain rfl := List.mem_singleton.mp hb
    refine ⟨ts, ?_, .inr hd.neutral.of_content⟩
    rw [Lexeme.lexed_append_of_leavesComment hts hcomment (delimited_textBehind [])]
    change (Lexeme.lexed []).map _ = _
    rw [Lexeme.lexed_nil]
    simp
  | @cons b e' as es hb has ih =>
    obtain ⟨us, hus, hd, hnone, _⟩ := ha.exists_tokens
    cases hcomment : Lexeme.leavesComment a with
    | true =>
      have hbehind := hasCommas_textBehind (hasCommas_of_denotesArgument (.cons hb has))
      obtain ⟨vs, hvs, hcommas⟩ := hbehind.2
      refine ⟨us ++ vs, ?_, .inl ?_⟩
      · rw [Lexeme.lexed_append_of_leavesComment hus hcomment (delimited_textBehind (b :: as)), hvs]
        rfl
      · rw [List.length_cons] at hcommas ⊢
        rw [Token.commas_append]
        omega
    | false =>
      obtain ⟨d, hd', hcomment'⟩ := hopen
      have hrest : ∃ d ∈ b :: as, Lexeme.leavesComment d = true := by
        rcases List.mem_cons.mp hd' with rfl | hmem
        · rw [hcomment] at hcomment'
          cases hcomment'
        · exact ⟨d, hmem, hcomment'⟩
      obtain ⟨vs, hvs, hlost⟩ := ih hb hrest
      refine ⟨us ++ .symbol .comma :: vs, ?_, ?_⟩
      · rw [Lexeme.lexed_append hus hcomment (delimited_textBehind (b :: as)),
          Lexeme.lexed_textBehind_cons, hvs]
        rfl
      · rcases hlost with hcommas | hneutral
        · left
          rw [Token.commas_append, Token.commas_cons, hnone, Nat.zero_add]
          exact Nat.succ_lt_succ hcommas
        · exact .inr (hd.neutral.of_content.append (hneutral.cons rfl rfl))

/-! ### Calls -/

theorem Lexeme.lexed_openParen (cs : List Char) :
    lexed ('(' :: cs) = (lexed cs).map (.symbol .openParen :: ·) := by
  have hcut : cut '(' cs = ⟨.token (.symbol .openParen), ['('], cs⟩ :=
    cutSymbol_single rfl fun d _ => rfl
  rw [lexed_token (by rw [hcut]), hcut]

/-- The text of a call in which no comment is left open is read as the call. -/
theorem parseExpression_of_closed {text x : String} {verb : List Char} {as : List (List Char)}
    {es : List Expr} (htext : text.toList = verb ++ '(' :: textInside as) {n : Nat}
    (hverb : Lexeme.lexed verb = some (List.replicate n .newline ++ [.identifier x]))
    (has : List.Forall₂ DenotesArgument as es) (hclosed : Lexeme.leavesComment verb = false)
    (hclosedInside : ∀ a ∈ as, Lexeme.leavesComment a = false) :
    parseExpression text = .ok (.call (.name x) es) := by
  obtain ⟨ts, hts, hitems, hflags⟩ : ∃ ts,
      Lexeme.lexed (textInside as) = some (ts ++ [.symbol .closeParen]) ∧
        ExprRule.items.Derives (Token.content ts) es ∧ Flag.Unflagged false ts := by
    cases has with
    | nil => exact ⟨[], Lexeme.lexed_closeParen, .noItems, trivial⟩
    | cons ha has => exact derives_items_of_closed ha has hclosedInside
  have hlexed : Lexeme.lexed text.toList = some (List.replicate n .newline ++
      .identifier x :: (.symbol .openParen :: ts ++ [.symbol .closeParen])) := by
    rw [htext, Lexeme.lexed_append hverb hclosed (Lexeme.delimited_cons rfl _),
      Lexeme.lexed_openParen, hts]
    simp
  have hfeed : ∀ t ∈ ts, t.isLayout = true → t = .newline := by
    intro t ht
    exact Lexeme.eq_newline_of_mem_lexed hts (List.mem_append_left _ ht)
  obtain ⟨hopen, hdepth⟩ := hitems.neutral.of_content 1 Nat.one_pos
  refine parseExpression_of_oneLine hlexed rfl ?_ ?_ ?_
  · refine OneLine.append ⟨nofun, oneLine_of_staysOpen hopen hfeed⟩ ?_
    exact ⟨nofun, trivial⟩
  · exact ⟨fun _ => nofun, hflags.append nofun trivial⟩
  · rw [Token.content_append, Token.content_cons rfl]
    exact .of_postfixed (.call (.ofAtom .name) hitems)

/-- A call in which an argument leaves a comment open is not read as the call. -/
theorem closedInside_of_parseExpression {text x : String} {verb : List Char}
    {as : List (List Char)} {es : List Expr} (htext : text.toList = verb ++ '(' :: textInside as)
    {n : Nat} (hverb : Lexeme.lexed verb = some (List.replicate n .newline ++ [.identifier x]))
    (has : List.Forall₂ DenotesArgument as es) (hclosed : Lexeme.leavesComment verb = false)
    (h : parseExpression text = .ok (.call (.name x) es)) :
    ∀ a ∈ as, Lexeme.leavesComment a = false := by
  by_contra hopen
  have hopen : ∃ a ∈ as, Lexeme.leavesComment a = true := by simpa using hopen
  cases has with
  | nil => exact absurd hopen nofun
  | @cons a e as es ha has =>
    obtain ⟨ts, hts, hlost⟩ := lost_of_leavesComment ha has hopen
    obtain ⟨ws, hws, hd⟩ := exists_lexed_of_parseExpression h
    rw [htext, Lexeme.lexed_append hverb hclosed (Lexeme.delimited_cons rfl _),
      Lexeme.lexed_openParen, textInside, hts] at hws
    obtain rfl := Option.some.inj hws
    have hcontent : Token.content (List.replicate n .newline ++ [.identifier x] ++
        .symbol .openParen :: ts) =
          .identifier x :: .symbol .openParen :: Token.content ts := by
      rw [Token.content_append, Token.content_append, Token.content_replicate_newline,
        Token.content_cons rfl ts]
      rfl
    rw [hcontent] at hd
    rcases hlost with hcommas | hneutral
    · -- one argument of the call has no comma in front of it
      have hwidth : (e :: es).length ≤ _ := hd.width_le
      rw [Token.commas_cons, Token.commas_cons, Token.commas_content, List.length_cons,
        ← has.length_eq] at hwidth
      have hnone : (Token.identifier x).isComma = false := rfl
      have hnone' : (Token.symbol .openParen).isComma = false := rfl
      simp only [hnone, hnone', Bool.false_eq_true, if_false] at hwidth
      omega
    · -- the bracket of the call is not closed
      have hdepth := (hd.neutral 1 Nat.one_pos).2
      have hopened : depthBehind 1 (.identifier x :: .symbol .openParen :: Token.content ts) =
          depthBehind 2 (Token.content ts) := rfl
      rw [hopened, depthBehind_content, (hneutral 2 (by decide)).2] at hdepth
      cases hdepth

/-- A call of a name that leaves a comment open is not read as the call. -/
theorem closed_of_parseExpression {text x : String} {verb inside : List Char}
    (htext : text.toList = verb ++ '(' :: inside) {n m : Nat}
    (hverb : Lexeme.lexed verb =
      some (List.replicate n .newline ++ .identifier x :: List.replicate m .newline))
    {es : List Expr} (h : parseExpression text = .ok (.call (.name x) es)) :
    Lexeme.leavesComment verb = false := by
  by_contra hopen
  rw [Bool.not_eq_false] at hopen
  have hdelimited := Lexeme.delimited_cons (c := '(') rfl inside
  obtain ⟨ts, hts, _⟩ := exists_lexed_of_parseExpression h
  rw [htext] at hts
  have hlost := Lexeme.lexed_append_of_leavesComment hverb hopen hdelimited
  rw [hts] at hlost
  obtain ⟨vs, hvs, heq⟩ := Option.map_eq_some_iff.mp hlost.symm
  rw [← heq, ← htext, List.append_assoc, List.cons_append] at hts
  have hfeed : ∀ t, (List.replicate m Token.newline ++ vs).head? = some t → t = .newline := by
    intro t ht
    cases m with
    | zero => exact Lexeme.head?_of_lexed_dropWhile hvs ht
    | succ m =>
      cases ht
      rfl
  cases eq_name_of_parseExpression hts hfeed h

end ScriptShell
