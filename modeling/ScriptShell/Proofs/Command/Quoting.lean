import ScriptShell.Command.Argument
import ScriptShell.Proofs.Token.OneLine

/-!
# Quoted words and bare names

A word that is quoted is read as a string literal that denotes exactly the word, whatever characters
are in it, and an identifier that is no keyword is read as a name. So an argument that is given back
as a piece is copied: a quoted word is a literal, and a copied piece denotes what it denoted before.
-/

namespace ScriptShell

variable {quote : Char} (hquote : quote = '"' ∨ quote = '\'')

namespace Text

include hquote in
/-- A character is written as a pair that stands for it, or as itself where nothing else is meant
by it. -/
theorem escaped_cases (c : Char) :
    (∃ d, escaped quote c = ['\\', d] ∧ d ≠ '\n' ∧
      ∀ cs, unescape ('\\' :: d :: cs) = c :: unescape cs) ∨
      (escaped quote c = [c] ∧ c ≠ '\\' ∧ c ≠ '\n' ∧ c ≠ quote) := by
  unfold escaped
  split
  · exact .inl ⟨'\\', rfl, by decide, fun cs => by rw [unescape]⟩
  · exact .inl ⟨'n', rfl, by decide, fun cs => by rw [unescape]⟩
  · exact .inl ⟨'t', rfl, by decide, fun cs => by rw [unescape]⟩
  · exact .inl ⟨'r', rfl, by decide, fun cs => by rw [unescape]⟩
  · next hslash hfeed _ _ =>
    split
    · next hc =>
      subst hc
      rcases hquote with rfl | rfl
      · exact .inl ⟨'"', rfl, by decide, fun cs => by rw [unescape]⟩
      · exact .inl ⟨'\'', rfl, by decide, fun cs => by rw [unescape]⟩
    · next hc => exact .inr ⟨rfl, hslash, hfeed, hc⟩

include hquote in
/-- What is escaped comes back. -/
theorem unescape_escaped (cs : List Char) : unescape (cs.flatMap (escaped quote)) = cs := by
  induction cs with
  | nil => rfl
  | cons c cs ih =>
    rw [List.flatMap_cons]
    rcases escaped_cases hquote c with ⟨d, hpair, _, hback⟩ | ⟨hself, hslash, _, _⟩
    · rw [hpair, List.cons_append, List.singleton_append, hback, ih]
    · rw [hself, List.singleton_append, unescape, ih]
      intro d ds hc
      exact absurd hc hslash

include hquote in
/-- Escaped characters are the body of a literal. -/
theorem stringBody_escaped (cs rest : List Char) :
    Lexeme.stringBody quote (cs.flatMap (escaped quote) ++ quote :: rest) =
      (cs.flatMap (escaped quote) ++ [quote], some rest) := by
  induction cs with
  | nil =>
    rw [List.flatMap_nil, List.nil_append, Lexeme.stringBody]
    · rcases hquote with rfl | rfl <;> rfl
    · rcases hquote with rfl | rfl <;> simp
  | cons c cs ih =>
    rw [List.flatMap_cons]
    rcases escaped_cases hquote c with ⟨d, hpair, hfeed, _⟩ | ⟨hself, hslash, hfeed, hc⟩
    · simp only [hpair, List.cons_append, List.nil_append]
      rw [Lexeme.stringBody]
      · rw [ih]
      · exact hfeed
    · simp only [hself, List.cons_append, List.nil_append]
      rw [Lexeme.stringBody]
      · rw [if_neg hfeed, if_neg hc, ih]
      · exact hslash

end Text

namespace Lexeme

include hquote in
/-- A literal is cut off whole, as the string that it is made of. -/
theorem cut_literal (cs rest : List Char) :
    cut quote (cs.flatMap (Text.escaped quote) ++ quote :: rest) =
      ⟨.token (.string (String.ofList cs)),
        quote :: (cs.flatMap (Text.escaped quote) ++ [quote]), rest⟩ := by
  have hcut : cut quote (cs.flatMap (Text.escaped quote) ++ quote :: rest) =
      cutString quote (cs.flatMap (Text.escaped quote) ++ quote :: rest) := by
    rcases hquote with rfl | rfl <;> rfl
  rw [hcut, cutString, Text.stringBody_escaped hquote]
  simp only [List.dropLast_concat, Text.unescape_escaped hquote]

include hquote in
/-- A literal is one string. -/
theorem reads_literal (cs : List Char) :
    Reads (Text.literal quote cs) [.string (String.ofList cs)] :=
  .token (cut_literal hquote cs []) .nil

/-- A quoted word is one string. -/
theorem reads_quoteWord (s : String) : Reads (Text.quoteWord s).toList [.string s] := by
  have hliteral := reads_literal (.inl rfl) s.toList
  rw [String.ofList_toList] at hliteral
  rw [Text.quoteWord, String.toList_ofList]
  exact hliteral

/-- What starts a name may stand further on in it. -/
theorem continuesName_of_startsName {c : Char} (h : startsName c = true) :
    continuesName c = true := by
  rcases Bool.or_eq_true_iff.mp h with halpha | hunderscore
  · simp [continuesName, Char.isAlphanum, halpha]
  · simp [continuesName, hunderscore]

/-- A name does not start like a number. -/
theorem not_isDigit_of_startsName {c : Char} (h : startsName c = true) : ¬c.isDigit = true := by
  intro hdigit
  rcases Bool.or_eq_true_iff.mp h with halpha | hunderscore
  · have hletter : (65 ≤ c.val ∧ c.val ≤ 90) ∨ (97 ≤ c.val ∧ c.val ≤ 122) := by
      rcases Bool.or_eq_true_iff.mp halpha with hupper | hlower
      · exact .inl (of_decide_eq_true hupper)
      · obtain ⟨hleast, hmost⟩ := Bool.and_eq_true_iff.mp hlower
        exact .inr ⟨of_decide_eq_true hleast, of_decide_eq_true hmost⟩
    simp [Char.isDigit, UInt32.le_iff_toNat_le] at hletter hdigit
    omega
  · rw [beq_iff_eq.mp hunderscore] at hdigit
    cases hdigit

/-- An identifier is cut off whole. -/
theorem cut_identifier {c : Char} {cs : List Char} (hc : startsName c = true)
    (hcs : cs.all continuesName = true) :
    cut c cs = ⟨.token (wordToken (String.ofList (c :: cs))), c :: cs, []⟩ := by
  have htake : cs.takeWhile continuesName = cs :=
    List.takeWhile_eq_self_iff.mpr (List.all_eq_true.mp hcs)
  have hdrop : cs.dropWhile continuesName = [] :=
    List.dropWhile_eq_nil_iff.mpr (List.all_eq_true.mp hcs)
  have hgap : ¬isGap c = true := by
    intro hgap
    simp only [isGap, Bool.or_eq_true, beq_iff_eq] at hgap
    rcases hgap with ((rfl | rfl) | rfl) | rfl <;> cases hc
  have hfeed : c ≠ '\n' := by
    rintro rfl
    cases hc
  have hsharp : c ≠ '#' := by
    rintro rfl
    cases hc
  have hquote : ¬(c = '"' ∨ c = '\'') := by
    rintro (rfl | rfl) <;> cases hc
  rw [cut, if_neg hgap, if_neg hfeed, if_neg hsharp, if_neg hquote,
    if_neg (not_isDigit_of_startsName hc), if_pos hc, htake, hdrop]

/-- An identifier that is no keyword is one name. -/
theorem reads_identifier {x : String} (hx : isIdentifier x = true)
    (hkeyword : Keyword.ofText? x = none) : Reads x.toList [.identifier x] := by
  unfold isIdentifier at hx
  split at hx
  · cases hx
  · next c cs htext =>
    obtain ⟨hc, hcs⟩ := Bool.and_eq_true_iff.mp hx
    have hcut := cut_identifier hc hcs
    have hword : wordToken (String.ofList (c :: cs)) = .identifier x := by
      rw [← htext, String.ofList_toList, wordToken, hkeyword]
    rw [hword] at hcut
    rw [htext]
    exact .token hcut .nil

end Lexeme

/-- An identifier that is no keyword is read as a name. -/
theorem parseExpression_of_isIdentifier {x : String} (hx : isIdentifier x = true)
    (hkeyword : Keyword.ofText? x = none) : parseExpression x = .ok (.name x) := by
  have hlexed : Lexeme.lexed x.toList = some (List.replicate 0 .newline ++ [.identifier x]) :=
    (Lexeme.reads_identifier hx hkeyword).lexed
  exact parseExpression_of_oneLine hlexed rfl trivial trivial (.of_postfixed (.ofAtom .name))

/-! ### Arguments that are given back -/

/-- A quoted word is read as the string that is the word. -/
theorem parseExpression_quoteWord (s : String) :
    parseExpression (Text.quoteWord s) = .ok (.str s) := by
  have hlexed : Lexeme.lexed (Text.quoteWord s).toList =
      some (List.replicate 0 .newline ++ [.string s]) := (Lexeme.reads_quoteWord s).lexed
  exact parseExpression_of_oneLine hlexed rfl trivial trivial
    (.of_postfixed (.ofAtom (.literal .string)))

namespace Piece

/-- A piece that denotes a value is copied. -/
theorem argument_eq_text {p : Piece} {env : Environment} (h : p.denotes env = true) :
    p.argument env = p.text := if_pos h

/-- A quoted word is one literal, however it is said to be written. -/
theorem isLiteral_quoteWord (s : String) (quoting : Quoting) :
    isLiteral ⟨Text.quoteWord s, quoting⟩ = true := by
  have hread := parseExpression_quoteWord s
  simp [isLiteral, hread, Expr.isLiteral]

/-- An identifier is written without quotes. -/
theorem isQuoted_ofText {x : String} (h : isIdentifier x = true) :
    (ofText x).isQuoted = false := by
  cases htext : x.toList with
  | nil => simp [isIdentifier, htext] at h
  | cons c cs =>
    have hstart : Lexeme.startsName c = true := by
      simp only [isIdentifier, htext, Bool.and_eq_true] at h
      exact h.1
    have hdouble : c ≠ '"' := by
      rintro rfl
      cases hstart
    have hsingle : c ≠ '\'' := by
      rintro rfl
      cases hstart
    simp [isQuoted, ofText, quotingOf, htext, hdouble, hsingle]

/-- The text of a piece that denotes a value denotes one when it is given back as a piece. -/
theorem denotes_ofText {p : Piece} {env : Environment} (h : p.denotes env = true) :
    (ofText p.text).denotes env = true := by
  unfold denotes at h ⊢
  rw [Bool.or_eq_true] at h ⊢
  rcases h with hname | hliteral
  · simp only [Bool.and_eq_true] at hname
    obtain ⟨⟨_, hidentifier⟩, hbound⟩ := hname
    have hbare := isQuoted_ofText hidentifier
    exact .inl (by simp [hbare, hbound, hidentifier])
  · exact .inr hliteral

/-- An argument that is given back as a piece denotes a value. -/
theorem denotes_ofText_argument (p : Piece) (env : Environment) :
    (ofText (p.argument env)).denotes env = true := by
  by_cases h : p.denotes env = true
  · rw [argument_eq_text h]
    exact denotes_ofText h
  · have hquoted : p.argument env = Text.quoteWord p.text := if_neg h
    rw [hquoted, denotes, ofText, isLiteral_quoteWord, Bool.or_true]

end Piece

/-- A quoted word is read as exactly its text; given back as a piece it is one literal, which is
copied in every environment; and whatever piece an argument is made of, the argument is copied when
it is given back as a piece. -/
theorem quoteWord_denotes_text :
    (∀ s, parseExpression (Text.quoteWord s) = .ok (.str s)) ∧
      (∀ s env, (Piece.ofText (Text.quoteWord s)).isLiteral = true ∧
        (Piece.ofText (Text.quoteWord s)).argument env = Text.quoteWord s) ∧
      ∀ (p : Piece) env, (Piece.ofText (p.argument env)).argument env = p.argument env := by
  refine ⟨parseExpression_quoteWord, fun s env => ?_, fun p env => ?_⟩
  · have hliteral : (Piece.ofText (Text.quoteWord s)).isLiteral = true :=
      Piece.isLiteral_quoteWord s _
    have hdenotes : (Piece.ofText (Text.quoteWord s)).denotes env = true := by
      rw [Piece.denotes, hliteral, Bool.or_true]
    exact ⟨hliteral, Piece.argument_eq_text hdenotes⟩
  · exact Piece.argument_eq_text (Piece.denotes_ofText_argument p env)

end ScriptShell
