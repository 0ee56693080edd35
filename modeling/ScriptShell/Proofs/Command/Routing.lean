import ScriptShell.Program.Installed
import ScriptShell.Proofs.Command.NativeRun
import ScriptShell.Proofs.Command.SessionNames
import ScriptShell.Proofs.Token.Alike

/-!
# Routing and what is bound

What is bound decides whether a word of a command stands in call syntax as a name or as a string. It
does not decide which route the command goes: a name and a string can stand in each other's place in
the text of a call, so it is a script whatever is bound or it is none. A comment that a copied word
leaves open takes in the same words either way, up to the next line feed in another copied word.
-/

namespace ScriptShell

/-! ### Definitions and loops -/

/-- No simple statement starts with a token that asks for a name. -/
theorem Token.not_startsSimple_of_asksForName {t : Token} (h : t.asksForName = true) :
    t.startsSimple = false := by
  cases t with
  | keyword word => cases word <;> first | rfl | cases h
  | symbol sign => cases sign <;> first | rfl | cases h
  | _ => cases h

/-- Where a line starts with a token that asks for a name, a name stands behind it. -/
theorem exists_name_of_derives_line {us vs : List Token} {p : List Stmt}
    (h : ScriptRule.line.Derives us p) {t : Token} (hus : us = t :: vs)
    (ht : t.asksForName = true) : ∃ x ws, vs = .identifier x :: ws := by
  cases h with
  | ofSimpleLine h =>
    have hne := (h.startsWith _ rfl).head?_ne (Token.not_startsSimple_of_asksForName ht)
    rw [hus] at hne
    exact absurd rfl hne
  | ofCompound h =>
    cases h with
    | define | loopFor =>
      cases hus
      exact ⟨_, _, rfl⟩
    | choose | loopWhile =>
      cases hus
      cases ht

/-- A script does not start with a token that asks for a name and has a bracket behind it. -/
theorem not_derives_of_asksForName {t : Token} (ht : t.asksForName = true) {ts : List Token}
    {p : List Stmt} : ¬ScriptRule.program.Derives (t :: .symbol .openParen :: ts) p := by
  intro h
  cases h with
  | ofLines h =>
    generalize hus : t :: .symbol .openParen :: ts = us at h
    cases h with
    | lastLine hline =>
      obtain ⟨x, ws, heq⟩ := exists_name_of_derives_line hline hus.symm ht
      cases heq
    | @moreLines us' vs' p q hline _ =>
      obtain ⟨u, zs, rfl, _⟩ := hline.startsWith _ rfl
      obtain ⟨rfl, hzs⟩ := List.cons.inj hus
      obtain ⟨x, ws, rfl⟩ := exists_name_of_derives_line hline rfl ht
      cases hzs

/-! ### Words of a command -/

/-- Two texts for one word in the text of a call: it is copied or quoted in both, or it is a name in
one and quoted in the other. -/
inductive Interchangeable : List Char → List Char → Prop where
  | same {cs : List Char} {e : Expr} : DenotesArgument cs e → Interchangeable cs cs
  | quoted {x : String} : isIdentifier x = true → Keyword.ofText? x = none →
      Interchangeable x.toList (Text.quoteWord x).toList

/-- An argument is cut into harmless tokens. -/
theorem DenotesArgument.exists_harmless {cs : List Char} {e : Expr} (h : DenotesArgument cs e) :
    ∃ ts, Lexeme.lexed cs = some ts ∧ Token.Harmless false ts := by
  obtain ⟨he, ts, hts, hd⟩ := h
  exact ⟨ts, hts, .of_isArgument hd he⟩

namespace Lexeme

/-- A text that is one token, and not a line feed, has none in it. -/
theorem feed_not_mem_of_lexed {cs : List Char} {t : Token} (h : lexed cs = some [t])
    (ht : t ≠ .newline) : '\n' ∉ cs := by
  intro hfeed
  obtain ⟨before, after, rfl, hbefore⟩ := List.eq_append_cons_of_mem hfeed
  obtain ⟨us, vs, _, heq⟩ := lexed_behind_feed h hbefore
  cases us with
  | nil => exact ht (List.cons.inj heq).1
  | cons u us =>
    have hnil := (List.cons.inj heq).2
    simp at hnil

/-- An identifier is cut off whole before a delimiter. -/
theorem exists_cut_of_isIdentifier {x : String} (hx : isIdentifier x = true) :
    ∃ c cs, x.toList = c :: cs ∧ ∀ rest, Delimited rest →
      cut c (cs ++ rest) = ⟨.token (wordToken x), c :: cs, rest⟩ := by
  unfold isIdentifier at hx
  split at hx
  · cases hx
  · next c cs htext =>
    obtain ⟨hc, hcs⟩ := Bool.and_eq_true_iff.mp hx
    have halone := cut_identifier hc hcs
    rw [← htext, String.ofList_toList] at halone
    refine ⟨c, cs, htext, fun rest hrest => ?_⟩
    have hsharp : c = '#' → '\n' ∈ cs := by
      rintro rfl
      cases hc
    rw [cut_append hrest (by simp [halone]) hsharp, halone, ← htext]
    rfl

/-- A name and the string in its place are followed by texts that are akin. -/
theorem akin_quoted {x : String} (hx : isIdentifier x = true) (hkeyword : Keyword.ofText? x = none)
    {rest rest' : List Char} (hrest : Delimited rest) {afterOperand : Bool}
    (h : Akin true rest rest') :
    Akin afterOperand (x.toList ++ rest) ((Text.quoteWord x).toList ++ rest') := by
  obtain ⟨c, cs, htext, hcut⟩ := exists_cut_of_isIdentifier hx
  have hname := hcut rest hrest
  rw [wordToken, hkeyword] at hname
  have hliteral := cut_literal (.inl rfl) x.toList rest'
  have hquoted : (Text.quoteWord x).toList ++ rest' =
      '"' :: (x.toList.flatMap (Text.escaped '"') ++ '"' :: rest') := by
    simp [Text.quoteWord, Text.literal]
  rw [hquoted, htext, List.cons_append, ← htext]
  exact .token hname hliteral (.quoted x _) (fun _ => Token.noConfusion) rfl h

end Lexeme

/-! ### Texts of calls -/

namespace Interchangeable

variable {a b : List Char} {as bs : List (List Char)}

/-- What stands behind a word decides whether two texts of a call are akin from the word on. -/
theorem akin (h : Interchangeable a b) {rest rest' : List Char}
    (hrest : Lexeme.Delimited rest) (hrest' : Lexeme.Delimited rest')
    (hakin : Lexeme.Akin true rest rest') (hlost : Lexeme.AkinBehindLine rest rest') :
    Lexeme.Akin false (a ++ rest) (b ++ rest') := by
  cases h with
  | same h =>
    obtain ⟨ts, hts, hharmless⟩ := h.exists_harmless
    exact .behind hts hharmless hrest hrest' hakin hlost
  | quoted hx hkeyword => exact Lexeme.akin_quoted hx hkeyword hrest hakin

/-- A line feed in a word is one in both of its texts. -/
theorem akinBehindLine (h : Interchangeable a b) {rest rest' : List Char}
    (hrest : Lexeme.Delimited rest) (hrest' : Lexeme.Delimited rest')
    (hakin : Lexeme.Akin true rest rest') (hlost : Lexeme.AkinBehindLine rest rest') :
    Lexeme.AkinBehindLine (a ++ rest) (b ++ rest') := by
  have hnone : '\n' ∉ a → '\n' ∉ b → Lexeme.AkinBehindLine (a ++ rest) (b ++ rest') := by
    intro ha hb
    unfold Lexeme.AkinBehindLine
    rw [Lexeme.dropWhile_append_of_no_feed ha, Lexeme.dropWhile_append_of_no_feed hb]
    exact hlost
  cases h with
  | same h =>
    by_cases hfeed : '\n' ∈ a
    · obtain ⟨before, after, rfl, hbefore⟩ := List.eq_append_cons_of_mem hfeed
      obtain ⟨ts, hts, hharmless⟩ := h.exists_harmless
      obtain ⟨us, vs, hvs, rfl⟩ := Lexeme.lexed_behind_feed hts hbefore
      refine .inr ⟨after ++ rest, after ++ rest', ?_, ?_,
        .behind hvs hharmless.behind_feed hrest hrest' hakin hlost⟩
      · rw [List.append_assoc, Lexeme.dropWhile_append_of_no_feed hbefore]
        rfl
      · rw [List.append_assoc, Lexeme.dropWhile_append_of_no_feed hbefore]
        rfl
    · exact hnone hfeed hfeed
  | @quoted x hx hkeyword =>
    exact hnone (Lexeme.feed_not_mem_of_lexed (Lexeme.reads_identifier hx hkeyword).lexed nofun)
      (Lexeme.feed_not_mem_of_lexed (Lexeme.reads_quoteWord x).lexed nofun)

/-- Behind a word two texts of a call are akin, and so is what a comment leaves of them. -/
theorem akin_textBehind (h : List.Forall₂ Interchangeable as bs) :
    Lexeme.Akin true (textBehind as) (textBehind bs) ∧
      Lexeme.AkinBehindLine (textBehind as) (textBehind bs) := by
  induction h with
  | nil =>
    have hparen : Lexeme.cut ')' [] = ⟨.token (.symbol .closeParen), [')'], []⟩ := rfl
    exact ⟨.token hparen hparen (.refl _) (fun _ => nofun) rfl .nil, .inl ⟨rfl, rfl⟩⟩
  | @cons a b as bs hab _ ih =>
    obtain ⟨hakin, hlost⟩ := ih
    have has := delimited_textBehind as
    have hbs := delimited_textBehind bs
    have hcomma : ∀ cs, Lexeme.cut ',' cs = ⟨.token (.symbol .comma), [','], cs⟩ :=
      fun cs => Lexeme.cutSymbol_single rfl fun d _ => rfl
    constructor
    · exact .token (hcomma _) (hcomma _) (.refl _) (fun _ => nofun) rfl
        (.gap rfl (hab.akin has hbs hakin hlost))
    · exact hab.akinBehindLine has hbs hakin hlost

/-- Behind its opening bracket two texts of a call are akin. -/
theorem akin_textInside (h : List.Forall₂ Interchangeable as bs) :
    Lexeme.Akin false (textInside as) (textInside bs) := by
  cases h with
  | nil => exact (akin_textBehind .nil).1.of_behindOperand
  | cons hab h =>
    obtain ⟨hakin, hlost⟩ := akin_textBehind h
    exact hab.akin (delimited_textBehind _) (delimited_textBehind _) hakin hlost

end Interchangeable

theorem Lexeme.wordToken_ne {t : Token} (ht : t.isWord = false) (word : String) :
    wordToken word ≠ t := by
  rintro rfl
  unfold wordToken at ht
  split at ht <;> cases ht

/-- The text of a call is cut into its verb, its opening bracket and what stands behind it. -/
theorem exists_scan_call {verb : String} (hverb : isIdentifier verb = true) :
    ∃ v o : Spaced, v.token = Lexeme.wordToken verb ∧ o.token = .symbol .openParen ∧
      ∀ {inside ls}, Spaced.scan (some '(') 0 inside = some ls →
        Spaced.scan none 0 (verb.toList ++ '(' :: inside) = some (v :: o :: ls) := by
  obtain ⟨c, cs, htext, hcut⟩ := Lexeme.exists_cut_of_isIdentifier hverb
  let afterBlank := (c :: cs).getLast? == some ' ' || (c :: cs).getLast? == some '\t'
  refine ⟨⟨Lexeme.wordToken verb, c :: cs, 0, false⟩, ⟨.symbol .openParen, ['('], 0, afterBlank⟩,
    rfl, rfl, fun {inside ls} hls => ?_⟩
  have hname := hcut ('(' :: inside) (Lexeme.delimited_cons rfl inside)
  have hparen : Lexeme.cut '(' inside = ⟨.token (.symbol .openParen), ['('], inside⟩ :=
    Lexeme.cutSymbol_single rfl fun d _ => rfl
  rw [htext, List.cons_append, Spaced.scan_token (by rw [hname]), hname,
    Spaced.scan_token (by rw [hparen]), hparen, List.getLast?_singleton, hls]
  rfl

/-- The text of a call whose verb starts a definition or a loop is no script. -/
theorem not_compiles_call {text : String} {v o : Spaced} {ls : List Spaced}
    (hscan : Spaced.scan none 0 text.toList = some (v :: o :: ls))
    (ho : o.token = .symbol .openParen) (hv : v.token ≠ .newline)
    (hname : v.token.asksForName = true)
    (hflags : Flag.Unflagged false ((v :: o :: ls).map Spaced.token)) : compiles text ≠ true := by
  intro h
  unfold compiles at h
  cases hparse : parse text with
  | error e =>
    rw [hparse] at h
    cases h
  | ok p =>
    obtain ⟨ts, hts, hd⟩ := (parse_iff_derives text p).mp hparse
    have ho' : o.token ≠ .newline := by simp [ho]
    have hfirst : Layout.enterLine v.gap [] = some ([], [v.gap]) := rfl
    rw [tokens?, hscan, Option.bind_some, Spaced.fold_of_unflagged hflags, Spaced.laid_token hv,
      if_pos rfl, hfirst, Option.bind_some] at hts
    obtain ⟨us, hus, rfl⟩ := Option.map_eq_some_iff.mp hts
    rw [Spaced.laid_token ho', if_neg Bool.false_ne_true, Option.bind_some] at hus
    obtain ⟨ws, _, rfl⟩ := Option.map_eq_some_iff.mp hus
    rw [ho] at hd
    exact not_derives_of_asksForName hname hd

/-- Of two texts of calls with one verb, if they are akin behind the opening bracket, one is a
script if the other is. -/
theorem compiles_call_of_akin {a b verb : String} (hverb : isIdentifier verb = true)
    {inside inside' : List Char} (ha : a.toList = verb.toList ++ '(' :: inside)
    (hb : b.toList = verb.toList ++ '(' :: inside') (h : Lexeme.Akin false inside inside')
    (hcompiles : compiles a = true) : compiles b = true := by
  obtain ⟨v, o, hv, ho, hscan⟩ := exists_scan_call hverb
  obtain ⟨ls, ms, hls, hms, halike, hharmless⟩ := h (some '(') (some '(') 0
  have hlsScan := hscan hls
  have hmsScan := hscan hms
  rw [← ha] at hlsScan
  rw [← hb] at hmsScan
  have hparen : Token.Harmless v.token.endsOperand ((o :: ls).map Spaced.token) := by
    refine .cons (fun _ => ?_) ?_ ?_
    · rw [ho]
      exact nofun
    · rw [ho]
      rfl
    · rw [ho]
      exact hharmless
  have hminus : v.token ≠ .symbol .minus := by
    rw [hv]
    exact Lexeme.wordToken_ne rfl verb
  cases hname : v.token.asksForName with
  | false =>
    exact compiles_of_alike hlsScan hmsScan (.cons (.refl v) (.cons (.refl o) halike))
      (hparen.cons (fun _ => hminus) hname) hcompiles
  | true =>
    have hfeed : v.token ≠ .newline := by
      rw [hv]
      exact Lexeme.wordToken_ne rfl verb
    exact absurd hcompiles
      (not_compiles_call hlsScan ho hfeed hname ⟨fun _ => hminus, hparen.unflagged⟩)

/-! ### Routes -/

/-- Whatever is bound, a word stands as it is or quoted, and it stands as it is only if it is a
literal or could be a name. -/
theorem Piece.interchangeable {env : Environment} (henv : ∀ k : Keyword, env.binds k.text = false)
    (p : Piece) :
    Interchangeable (p.argument env).toList (p.argument .empty).toList := by
  have hunbound : p.denotes .empty = p.isLiteral := by
    have hnone : Environment.empty.binds p.text = false := rfl
    rw [denotes, hnone, Bool.and_false, Bool.false_or]
  by_cases hsame : p.denotes env = p.isLiteral
  · have heq : p.argument env = p.argument .empty := by rw [argument, argument, hsame, hunbound]
    rw [← heq]
    exact .same (p.denotesArgument henv)
  · -- the piece is a name that is bound and no literal
    have hliteral : p.isLiteral = false := by
      cases h : p.isLiteral with
      | false => rfl
      | true =>
        rw [denotes, h, Bool.or_true] at hsame
        exact absurd rfl hsame
    rw [hliteral, Bool.not_eq_false] at hsame
    have hname := hsame
    rw [denotes, hliteral, Bool.or_false] at hname
    obtain ⟨hbare, hbound⟩ := Bool.and_eq_true_iff.mp hname
    rw [argument, argument, hsame, hunbound, hliteral, if_pos rfl, if_neg Bool.false_ne_true]
    exact .quoted (Bool.and_eq_true_iff.mp hbare).2 (ofText?_of_binds henv hbound)

/-- Where no keyword is bound a command that starts with an identifier goes the route that it goes
where nothing is bound. -/
theorem classify_eq_unbound {env : Environment} (henv : ∀ k : Keyword, env.binds k.text = false)
    {command : String} {verb : Piece} {args : List Piece}
    (hpieces : Piece.ofLine command = verb :: args) (hverb : isIdentifier verb.text = true)
    (c : Config) : classify c env command = classify c .empty command := by
  obtain ⟨text, hsome, htext⟩ := callSyntax?_of_ofLine hpieces env
  obtain ⟨text', hsome', htext'⟩ := callSyntax?_of_ofLine hpieces .empty
  have hargs : List.Forall₂ Interchangeable (args.map fun p => (p.argument env).toList)
      (args.map fun p => (p.argument .empty).toList) := by
    rw [List.forall₂_map_left_iff, List.forall₂_map_right_iff]
    exact List.forall₂_same.mpr fun p _ => p.interchangeable henv
  have hakin := Interchangeable.akin_textInside hargs
  have hcompiles : compiles text = compiles text' := by
    rw [Bool.eq_iff_iff]
    exact ⟨compiles_call_of_akin hverb htext htext' hakin,
      compiles_call_of_akin hverb htext' htext hakin.symm⟩
  unfold classify
  rw [hsome, hsome']
  dsimp only
  rw [hcompiles]

/-- An assignment that is read as one. -/
theorem parse_assignment : parse "x=1" = .ok [.assign "x" none (.int 1)] := by
  have hx : Lexeme.cut 'x' ['=', '1'] = ⟨.token (.identifier "x"), ['x'], ['=', '1']⟩ := rfl
  have hsign : Lexeme.cut '=' ['1'] = ⟨.token (.symbol .assign), ['='], ['1']⟩ := rfl
  have hone : Lexeme.cut '1' [] = ⟨.token (.integer 1), ['1'], []⟩ := rfl
  have hlexed : Lexeme.lexed "x=1".toList =
      some (List.replicate 0 .newline ++ .identifier "x" :: [.symbol .assign, .integer 1]) :=
    (Lexeme.Reads.token hx (.token hsign (.token hone .nil))).lexed
  obtain ⟨placed, hplaced, htokens⟩ := tokenize_of_oneLine hlexed rfl
    ⟨nofun, nofun, trivial⟩ ⟨fun _ => nofun, nofun, trivial⟩
  refine (readSource_eq_ok_iff _ _ _).mpr ⟨placed, hplaced, (script_iff_derives _ _).mpr ?_⟩
  have hvalue : ExprRule.or.Derives [.integer 1] (.int 1) :=
    .of_postfixed (.ofAtom (.literal .integer))
  have hassign : ScriptRule.simple.Derives [.identifier "x", .symbol .assign, .integer 1]
      (.assign "x" none (.int 1)) := .assign (List.mem_cons_self ..) hvalue
  rw [htokens]
  exact .ofLines (.lastLine (.ofSimpleLine (.lastSimple hassign)))

/-- The environment at the start with a number bound besides. -/
theorem reachable_assignment : Environment.Reachable (.set "x" (.int 1) .withBuiltins) := by
  have hexpr : ∀ e, parseExpression "x=1" ≠ .ok e := by
    intro e he
    have hparse := parse_of_parseExpression he
    rw [parse_assignment] at hparse
    cases hparse
  have hcompiles : compiles "x=1" = true := by
    rw [compiles, parse_assignment]
    rfl
  have hclassify : classify .standard .withBuiltins "x=1" = .native := by
    have hsuper : Config.standard.isSuperCommand "x=1" = false := by decide
    rw [classify, hsuper, if_neg Bool.false_ne_true, if_pos hcompiles]
  let w : World := .installed 0 "/"
  let before : Session Unit := ⟨⟨.withBuiltins, w⟩, ()⟩
  let after : Session Unit := ⟨⟨Environment.withBuiltins.set "x" (.int 1), w⟩, ()⟩
  have hrun : runNative 3 "x=1" before.state = some (.nothing, after.state) := by
    unfold runNative
    split
    · next e he => exact absurd he (hexpr e)
    · rw [parse_assignment]
      rfl
  have hdispatch : before.dispatch .system .standard 3 "x=1" =
      some (⟨.native, false, .nothing⟩, after) := by
    rw [Session.dispatch, hclassify]
    dsimp only
    rw [hrun]
    rfl
  exact ⟨Unit, .system, before, after, rfl, .dispatch (.refl before) hdispatch, rfl⟩

/-- No sequence of commands from the start of a session binds a keyword; and which route a command
goes whose first piece has the shape of an identifier, keywords included, does not depend on what
the commands before it have bound. -/
theorem routing_ignores_bindings :
    (∀ env : Environment, env.Reachable → ∀ k : Keyword, env.binds k.text = false) ∧
    (∀ (c : Config) (command : String) (verb : Piece) (args : List Piece),
      Piece.ofLine command = verb :: args → isIdentifier verb.text = true →
      ∀ env env' : Environment, env.Reachable → env'.Reachable →
        classify c env command = classify c env' command) := by
  refine ⟨fun env => Environment.Reachable.binds_keyword, ?_⟩
  intro c command verb args hpieces hverb env env' henv henv'
  rw [classify_eq_unbound henv.binds_keyword hpieces hverb c,
    classify_eq_unbound henv'.binds_keyword hpieces hverb c]

/-- A word that is bound after the one sequence of commands and not after the other is copied in the
one text of a call and quoted in the other, and the command goes the same route. -/
theorem routing_ignores_bindings_print :
    Environment.Reachable (.set "x" (.int 1) .withBuiltins) ∧
      Environment.Reachable .withBuiltins ∧
      callSyntax? "print x" (.set "x" (.int 1) .withBuiltins) = some "print(x)" ∧
      callSyntax? "print x" .withBuiltins = some "print(\"x\")" ∧
      ∀ c, classify c (.set "x" (.int 1) .withBuiltins) "print x" =
        classify c .withBuiltins "print x" := by
  have hpieces : Piece.ofLine "print x" = [⟨"print", .bare⟩, ⟨"x", .bare⟩] := by decide
  have hliteral : Piece.isLiteral ⟨"x", .bare⟩ = false := by
    unfold Piece.isLiteral
    rw [parseExpression_of_isIdentifier (by decide) (by decide)]
    rfl
  have hbound : Piece.denotes ⟨"x", .bare⟩ (.set "x" (.int 1) .withBuiltins) = true := by
    have hbinds : (Environment.withBuiltins.set "x" (.int 1)).binds "x" = true := by decide +kernel
    unfold Piece.denotes
    rw [hbinds]
    rfl
  have hunbound : Piece.denotes ⟨"x", .bare⟩ .withBuiltins = false := by
    have hbinds : Environment.withBuiltins.binds "x" = false := by decide +kernel
    unfold Piece.denotes
    rw [hbinds, hliteral]
    rfl
  have hstart : Environment.withBuiltins.Reachable :=
    ⟨Unit, .system, ⟨⟨.withBuiltins, .installed 0 "/"⟩, ()⟩, _, rfl, .refl _, rfl⟩
  refine ⟨reachable_assignment, hstart, ?_, ?_, fun c => ?_⟩
  · simp only [callSyntax?, hpieces, List.map_cons, List.map_nil, Piece.argument, hbound, if_true]
    decide
  · simp only [callSyntax?, hpieces, List.map_cons, List.map_nil, Piece.argument, hunbound]
    decide
  · exact routing_ignores_bindings.2 c "print x" _ _ hpieces (by decide) _ _
      reachable_assignment hstart

end ScriptShell
