import ScriptShell.Proofs.Command.CallText

/-!
# What call syntax denotes

A command whose first piece is one name is call syntax for a call of that name with one argument for
each further piece. The script it is call syntax for is read as that call exactly if no piece that
is copied ends inside a comment: such a comment goes on behind the piece, and takes in what stands
between it and the next piece or the closing bracket.
-/

namespace ScriptShell

/-! ### Pieces -/

/-- Blanks between lexemes and line feeds are blank. -/
theorem Text.isBlank_of_isGap {c : Char} (h : Lexeme.isGap c = true ∨ c = '\n') :
    isBlank c = true := by
  simp only [Lexeme.isGap, Bool.or_eq_true, beq_iff_eq] at h
  rcases h with (((rfl | rfl) | rfl) | rfl) | rfl <;> rfl

/-- A text without the blanks at its end does not end with one. -/
theorem Text.isBlank_getLast?_trimRight {cs : List Char} {c : Char}
    (h : (trimRight cs).getLast? = some c) : isBlank c = false := by
  rw [trimRight, List.getLast?_reverse] at h
  have hnot := List.head?_dropWhile_not isBlank cs.reverse
  rw [h] at hnot
  exact hnot

/-- Where no keyword is bound, what is bound is none. -/
theorem ofText?_of_binds {env : Environment} (henv : ∀ k : Keyword, env.binds k.text = false)
    {x : String} (h : env.binds x = true) : Keyword.ofText? x = none := by
  cases hkeyword : Keyword.ofText? x with
  | none => rfl
  | some k =>
    have hunbound := henv k
    rw [Keyword.text_of_ofText? hkeyword, h] at hunbound
    cases hunbound

namespace Piece

/-- A piece has a last character, and it is not blank. -/
theorem exists_last_of_mem_ofLine {line : String} {p : Piece} (h : p ∈ ofLine line) :
    ∃ c, p.text.toList.getLast? = some c ∧ Text.isBlank c = false := by
  obtain ⟨cs, hcs, rfl⟩ := List.mem_map.mp h
  obtain ⟨hcs, hne⟩ := List.mem_filter.mp hcs
  obtain ⟨segment, _, rfl⟩ := List.mem_map.mp hcs
  have hne : Text.trim segment ≠ [] := by simpa using hne
  rw [ofText, String.toList_ofList]
  have hlast := List.getLast?_eq_some_getLast hne
  exact ⟨_, hlast, Text.isBlank_getLast?_trimRight hlast⟩

/-- What a piece denotes as an argument: a bare identifier that is bound denotes what it is bound
to, a literal denotes its value, and any other piece denotes its text. -/
def meaning (p : Piece) (env : Environment) : Expr :=
  if !p.isQuoted && isIdentifier p.text && env.binds p.text then .name p.text
  else
    match parseExpression p.text with
    | .ok e => if e.isLiteral then e else .str p.text
    | .error _ => .str p.text

/-- The text of an argument denotes what the piece denotes. -/
theorem denotesArgument {env : Environment} (henv : ∀ k : Keyword, env.binds k.text = false)
    (p : Piece) : DenotesArgument (p.argument env).toList (p.meaning env) := by
  have hquoted : DenotesArgument (Text.quoteWord p.text).toList (.str p.text) := by
    refine ⟨rfl, _, (Lexeme.reads_quoteWord p.text).lexed, ?_⟩
    exact .of_postfixed (.ofAtom (.literal .string))
  unfold argument denotes meaning isLiteral
  cases hname : !p.isQuoted && isIdentifier p.text && env.binds p.text with
  | true =>
    simp only [Bool.and_eq_true] at hname
    obtain ⟨⟨_, hidentifier⟩, hbound⟩ := hname
    have hreads := Lexeme.reads_identifier hidentifier (ofText?_of_binds henv hbound)
    exact ⟨rfl, _, hreads.lexed, .of_postfixed (.ofAtom .name)⟩
  | false =>
    cases hparse : parseExpression p.text with
    | error => exact hquoted
    | ok e =>
      cases he : e.isLiteral with
      | true =>
        simp only [Bool.false_or, he, if_true, Bool.false_eq_true, if_false]
        exact ⟨Expr.isArgument_of_isLiteral he, exists_lexed_of_parseExpression hparse⟩
      | false =>
        simp only [Bool.false_or, he, Bool.false_eq_true, if_false]
        exact hquoted

/-- A comment is open behind an argument exactly if the piece is copied and leaves one open. -/
theorem leavesComment_argument_eq_false_iff (p : Piece) (env : Environment) :
    Lexeme.leavesComment (p.argument env).toList = false ↔
      (p.denotes env = true → Lexeme.leavesComment p.text.toList = false) := by
  unfold argument
  cases p.denotes env with
  | true => simp
  | false => simpa using (Lexeme.reads_quoteWord p.text).closed

end Piece

/-! ### Names -/

/-- A text is one name: its tokens are an identifier and the newline at the end. -/
def IsName (text name : String) : Prop :=
  ∃ placed, tokenize text = .ok placed ∧
    placed.map PlacedToken.token = [.identifier name, .newline]

/-- An identifier that is no keyword is a name. -/
theorem isName_of_isIdentifier {x : String} (hx : isIdentifier x = true)
    (hkeyword : Keyword.ofText? x = none) : IsName x x := by
  have hlexed : Lexeme.lexed x.toList = some (List.replicate 0 .newline ++ [.identifier x]) :=
    (Lexeme.reads_identifier hx hkeyword).lexed
  exact tokenize_of_oneLine hlexed rfl trivial trivial

/-- Only line feeds stand around a name. -/
theorem IsName.exists_lexed {text name : String} (h : IsName text name) :
    ∃ n m, Lexeme.lexed text.toList =
      some (List.replicate n .newline ++ .identifier name :: List.replicate m .newline) := by
  obtain ⟨placed, hplaced, htokens⟩ := h
  have hflag : ∀ t ∈ placed, t.token.isNoFlag = true := by
    intro t ht
    have hmem : t.token ∈ placed.map PlacedToken.token := List.mem_map_of_mem ht
    rw [htokens] at hmem
    rcases List.mem_cons.mp hmem with heq | hmem
    · rw [heq]
      rfl
    · rw [List.mem_singleton.mp hmem]
      rfl
  obtain ⟨ls, hls, hrun⟩ := exists_run_of_tokenize hplaced hflag
  have hcontent := Layout.content_of_run hrun
  rw [htokens] at hcontent
  obtain ⟨n, m, heq⟩ := Token.exists_of_content_eq_singleton hcontent.symm fun t ht =>
    Lexeme.eq_newline_of_mem_lexed hls ht
  exact ⟨n, m, heq ▸ hls⟩

/-- Nothing stands behind a name in a piece that leaves no comment open. -/
theorem Piece.lexed_of_isName {line : String} {p : Piece} (hp : p ∈ Piece.ofLine line) {n m : Nat}
    {name : String} (h : Lexeme.lexed p.text.toList =
      some (List.replicate n .newline ++ .identifier name :: List.replicate m .newline))
    (hclosed : Lexeme.leavesComment p.text.toList = false) : m = 0 := by
  obtain ⟨c, hlast, hblank⟩ := Piece.exists_last_of_mem_ofLine hp
  have hgap : ¬(Lexeme.isGap c = true ∨ c = '\n') := by
    intro hgap
    rw [Text.isBlank_of_isGap hgap] at hblank
    cases hblank
  rw [not_or, Bool.not_eq_true] at hgap
  obtain ⟨t, ht, hne⟩ := Lexeme.getLast?_of_lexed h hclosed hlast hgap.1 hgap.2
  cases m with
  | zero => rfl
  | succ m =>
    rw [List.replicate_succ', ← List.cons_append, ← List.append_assoc, List.getLast?_concat] at ht
    exact absurd (Option.some.inj ht).symm hne

/-! ### Commands -/

/-- The script a command is call syntax for is the text of the call. -/
theorem callSyntax?_of_ofLine {command : String} {verb : Piece} {args : List Piece}
    (h : Piece.ofLine command = verb :: args) (env : Environment) :
    ∃ text, callSyntax? command env = some text ∧ text.toList =
      verb.text.toList ++ '(' :: textInside (args.map fun p => (p.argument env).toList) := by
  unfold callSyntax?
  rw [h]
  refine ⟨_, rfl, ?_⟩
  rw [← intercalate_append_bracket]
  simp [String.toList_intercalate, Function.comp_def]

theorem forall₂_denotesArgument {env : Environment}
    (henv : ∀ k : Keyword, env.binds k.text = false) (args : List Piece) :
    List.Forall₂ DenotesArgument (args.map fun p => (p.argument env).toList)
      (args.map fun p => p.meaning env) := by
  rw [List.forall₂_map_left_iff, List.forall₂_map_right_iff]
  exact List.forall₂_same.mpr fun p _ => p.denotesArgument henv

/-- No built-in function is named like a keyword. -/
theorem withBuiltins_binds_keyword (k : Keyword) :
    Environment.withBuiltins.binds k.text = false := by
  cases k <;> decide +kernel

/-- In an environment that binds no keyword, a command whose first piece is one name is call syntax
for a script. The script is read as the call of that name, with what each further piece denotes as
one argument and in order, if and only if no copied piece ends inside a comment; a piece that is
quoted can hold anything. -/
theorem callSyntax_isRead_iff {command : String} {env : Environment} {verb : Piece}
    {args : List Piece} {name : String} (hpieces : Piece.ofLine command = verb :: args)
    (hname : IsName verb.text name) (henv : ∀ k : Keyword, env.binds k.text = false) :
    ∃ text, callSyntax? command env = some text ∧
      (parseExpression text = .ok (.call (.name name) (args.map fun p => p.meaning env)) ↔
        Lexeme.leavesComment verb.text.toList = false ∧
          ∀ p ∈ args, p.denotes env = true → Lexeme.leavesComment p.text.toList = false) := by
  obtain ⟨text, hsome, htext⟩ := callSyntax?_of_ofLine hpieces env
  obtain ⟨n, m, hverb⟩ := hname.exists_lexed
  have hargs := forall₂_denotesArgument henv args
  have hverbMem : verb ∈ Piece.ofLine command := by
    rw [hpieces]
    exact List.mem_cons_self ..
  have hclosedInside : (∀ a ∈ args.map fun p => (p.argument env).toList,
      Lexeme.leavesComment a = false) ↔
        ∀ p ∈ args, p.denotes env = true → Lexeme.leavesComment p.text.toList = false := by
    simp only [List.forall_mem_map, Piece.leavesComment_argument_eq_false_iff]
  refine ⟨text, hsome, ?_⟩
  rw [← hclosedInside]
  constructor
  · intro hread
    have hclosed := closed_of_parseExpression htext hverb hread
    obtain rfl := Piece.lexed_of_isName hverbMem hverb hclosed
    exact ⟨hclosed, closedInside_of_parseExpression htext hverb hargs hclosed hread⟩
  · rintro ⟨hclosed, hinside⟩
    obtain rfl := Piece.lexed_of_isName hverbMem hverb hclosed
    exact parseExpression_of_closed htext hverb hargs hclosed hinside

theorem callSyntax_isRead_goto_home :
    Piece.ofLine "goto home" = [⟨"goto", .bare⟩, ⟨"home", .bare⟩] ∧ IsName "goto" "goto" ∧
      (∀ k : Keyword, Environment.withBuiltins.binds k.text = false) ∧
      ∃ text, callSyntax? "goto home" .withBuiltins = some text ∧
        parseExpression text = .ok (.call (.name "goto") [.str "home"]) := by
  have hpieces : Piece.ofLine "goto home" = [⟨"goto", .bare⟩, ⟨"home", .bare⟩] := by decide
  have hgoto : isIdentifier "goto" = true := by decide
  have hkeyword : Keyword.ofText? "goto" = none := by decide
  have hname : IsName "goto" "goto" := isName_of_isIdentifier hgoto hkeyword
  have hhome : parseExpression "home" = .ok (.name "home") :=
    parseExpression_of_isIdentifier (by decide) (by decide)
  have hunbound : Environment.withBuiltins.binds "home" = false := by decide
  have hdenotes : Piece.denotes ⟨"home", .bare⟩ .withBuiltins = false := by
    unfold Piece.denotes Piece.isLiteral
    rw [hhome, hunbound]
    rfl
  have hmeaning : Piece.meaning ⟨"home", .bare⟩ .withBuiltins = .str "home" := by
    unfold Piece.meaning
    rw [hhome, hunbound]
    rfl
  obtain ⟨text, hsome, hread⟩ := callSyntax_isRead_iff hpieces hname withBuiltins_binds_keyword
  refine ⟨hpieces, hname, withBuiltins_binds_keyword, text, hsome, ?_⟩
  rw [← hmeaning]
  refine hread.mpr ⟨(Lexeme.reads_identifier hgoto hkeyword).closed, ?_⟩
  intro p hp hcopied
  rw [List.mem_singleton.mp hp, hdenotes] at hcopied
  cases hcopied

/-- A comment behind a number is no part of it, and stays open. -/
theorem lexed_number_comment :
    Lexeme.lexed "3#c".toList = some [.integer 3] ∧ Lexeme.leavesComment "3#c".toList = true := by
  have htext : "3#c".toList = ['3', '#', 'c'] := by decide
  have hnumber : Lexeme.cut '3' ['#', 'c'] = ⟨.token (.integer 3), ['3'], ['#', 'c']⟩ := rfl
  have hcomment : Lexeme.cut '#' ['c'] = ⟨.skipped, ['#', 'c'], []⟩ := rfl
  rw [htext]
  constructor
  · rw [Lexeme.lexed_token (by rw [hnumber]), hnumber, Lexeme.lexed_skipped (by rw [hcomment]),
      hcomment, Lexeme.lexed_nil]
    rfl
  · rw [Lexeme.leavesComment_cons (by decide), hnumber, Lexeme.leavesComment]
    rfl

theorem parseExpression_number_comment : parseExpression "3#c" = .ok (.int 3) := by
  have hlexed : Lexeme.lexed "3#c".toList =
      some (List.replicate 0 .newline ++ [.integer 3]) := lexed_number_comment.1
  exact parseExpression_of_oneLine hlexed rfl trivial trivial
    (.of_postfixed (.ofAtom (.literal .integer)))

/-- A comment at the end of a copied piece takes in the closing bracket, and what the command is
call syntax for is not read at all. -/
theorem callSyntax_not_read_str_3 :
    Piece.ofLine "str 3#c" = [⟨"str", .bare⟩, ⟨"3#c", .bare⟩] ∧ IsName "str" "str" ∧
      (∀ k : Keyword, Environment.withBuiltins.binds k.text = false) ∧
      Piece.meaning ⟨"3#c", .bare⟩ .withBuiltins = .int 3 ∧
      callSyntax? "str 3#c" .withBuiltins = some "str(3#c)" ∧
      ∀ e, parseExpression "str(3#c)" ≠ .ok e := by
  have hpieces : Piece.ofLine "str 3#c" = [⟨"str", .bare⟩, ⟨"3#c", .bare⟩] := by decide
  have hstr : isIdentifier "str" = true := by decide
  have hnumber : isIdentifier "3#c" = false := by decide
  have hkeyword : Keyword.ofText? "str" = none := by decide
  refine ⟨hpieces, isName_of_isIdentifier hstr hkeyword, withBuiltins_binds_keyword, ?_, ?_, ?_⟩
  · unfold Piece.meaning
    rw [hnumber, parseExpression_number_comment]
    rfl
  · have hliteral : Piece.denotes ⟨"3#c", .bare⟩ .withBuiltins = true := by
      unfold Piece.denotes Piece.isLiteral
      rw [hnumber, parseExpression_number_comment]
      rfl
    unfold callSyntax?
    rw [hpieces]
    simp only [List.map_cons, List.map_nil, Piece.argument, hliteral, if_true]
    decide
  · intro e he
    obtain ⟨ts, hts, hd⟩ := exists_lexed_of_parseExpression he
    obtain ⟨hlexed, hclosed⟩ := Lexeme.reads_identifier hstr hkeyword
    obtain ⟨hlexed', hopen⟩ := lexed_number_comment
    have htext : "str(3#c)".toList = "str".toList ++ '(' :: ("3#c".toList ++ [')']) := by decide
    rw [htext, Lexeme.lexed_append hlexed hclosed (Lexeme.delimited_cons (by decide) _),
      Lexeme.lexed_openParen, Lexeme.lexed_append_of_leavesComment hlexed' hopen
        (Lexeme.delimited_cons (by decide) _)] at hts
    change (Option.map _ (Option.map _ (Lexeme.lexed []))).map _ = _ at hts
    rw [Lexeme.lexed_nil] at hts
    obtain rfl := Option.some.inj hts
    -- the opening bracket is never closed
    have hdepth := (hd.neutral 1 Nat.one_pos).2
    cases hdepth

end ScriptShell
