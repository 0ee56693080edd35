import ScriptShell.Proofs.Script.PegStatements

/-!
# Scripts as parsing expressions

The grammar with ordered alternatives reads the scripts that the readers read, as the same
statements, and fails furthest where they are stuck: `parse_eq_readSource` says so of whole sources.

A compound statement is the one thing that may be cut short of what its line goes on with: a branch
that cannot be read is left, and no line starts with the word that stands there.
-/

namespace ScriptShell.Peg

open Reader (plain)

variable {α β : Type} {ts rest : List Token}

/-! ### Heads of compound statements -/

/-- What the readers do behind the name of a parameter. -/
def nextParameters (first : String) : List Token → Except (List Token) (List String × List Token)
  | .symbol .closeParen :: us => .ok ([first], us)
  | .symbol .comma :: us =>
    plain (Reader.parameters us) >>= fun (others, rest) => .ok (first :: others, rest)
  | us => .error us

/-- The reader of parameters reads a name, and goes on behind it. -/
theorem plain_parameters_eq {us : List Token} (h : us.head? ≠ some (.symbol .closeParen)) :
    plain (Reader.parameters us) =
      plain (Reader.identifier us) >>= fun (name, rest) => nextParameters name rest := by
  by_cases hname : ∃ name, us.head? = some (.identifier name)
  · obtain ⟨name, hname⟩ := hname
    obtain ⟨vs, rfl⟩ := List.head?_eq_some_iff.mp hname
    rw [Reader.plain_identifier, Reader.ok_bind]
    dsimp only
    unfold nextParameters
    split
    · rw [Reader.plain_parameters_last]
    · rw [Reader.plain_parameters_more]
    · next hclose hcomma =>
      apply Reader.plain_parameters_behind
      · intro hhead
        obtain ⟨ws, rfl⟩ := List.head?_eq_some_iff.mp hhead
        exact hclose ws rfl
      · intro hhead
        obtain ⟨ws, rfl⟩ := List.head?_eq_some_iff.mp hhead
        exact hcomma ws rfl
  · rw [Reader.plain_parameters_stuck h hname]
    unfold Reader.identifier
    split
    · exact absurd ⟨_, rfl⟩ hname
    · rfl

/-- The reader of parameters reads names with commas between them. -/
theorem readsSeparated_parameters :
    ReadsSeparated (isSymbol .comma) (isSymbol .closeParen)
      (fun us => plain (Reader.identifier us)) nextParameters
      (fun us => plain (Reader.parameters us)) where
  all_close := by
    intro t us ht
    rw [isSymbol_eq_true_iff] at ht
    rw [ht, Reader.plain_parameters_close]
  all_item := by
    intro us hus
    rw [any_isSymbol_eq_false_iff] at hus
    exact plain_parameters_eq hus
  next_close := by
    intro first t us ht
    rw [isSymbol_eq_true_iff] at ht
    subst ht
    rfl
  next_separator := by
    intro first s us hs
    rw [isSymbol_eq_true_iff] at hs
    subst hs
    rfl
  next_other := by
    intro first us hs hc
    rw [any_isSymbol_eq_false_iff] at hs hc
    unfold nextParameters
    split
    · exact absurd rfl hc
    · exact absurd rfl hs
    · rfl

/-- The names of parameters in parentheses. -/
theorem agrees_parameters (us : List Token) :
    Agrees never us (parameters us)
      (plain (Reader.symbol .openParen us) >>= fun (_, rest) =>
        plain (Reader.parameters rest)) := by
  refine (agrees_symbol .openParen us).bind_whole fun _ vs _ => ?_
  apply agrees_separated readsSeparated_parameters (fun ws _ => agrees_identifier ws)
    Reader.bound_of_plain _ (fun _ hnever => hnever.elim) (Nat.le_refl _)
  intro ws _ hclose
  apply refuses_identifier
  rw [any_isSymbol_eq_true_iff] at hclose
  simp [hclose]

section Heads

variable {dead : List Token → Prop} {us : List Token}

/-- The name, the parameters and the colon of a definition, with what stands behind them. -/
theorem agrees_signature {next : String → List String → Peg β}
    {go : (String × List String) × List Token → Except (List Token) (β × List Token)}
    (h : ∀ name params rest, rest.length ≤ us.length →
      Agrees dead rest (next name params rest) (go ((name, params), rest))) :
    Agrees dead us ((identifier >>= fun name => parameters >>= fun params =>
        symbol .colon >>= fun _ => next name params) us) (plain (Reader.signature us) >>= go) := by
  rw [Reader.plain_signature, bind_assoc]
  refine (agrees_identifier us).bind_whole fun name vs hvs => ?_
  have hread : (plain (Reader.symbol .openParen vs) >>= fun (_, rest) =>
        plain (Reader.parameters rest) >>= fun (params, rest) =>
          plain (Reader.symbol .colon rest) >>= fun (_, rest) =>
            .ok ((name, params), rest)) >>= go =
      (plain (Reader.symbol .openParen vs) >>= fun (_, rest) => plain (Reader.parameters rest)) >>=
        fun (params, rest) => plain (Reader.symbol .colon rest) >>= fun (_, rest) =>
          go ((name, params), rest) := by
    simp only [bind_assoc, Reader.ok_bind]
  dsimp only
  rw [hread]
  refine (agrees_parameters vs).bind_whole fun params ws hws => ?_
  refine (agrees_symbol .colon ws).bind_whole fun _ xs hxs => ?_
  exact h name params xs (by omega)

/-- A condition and a colon, with what stands behind them. -/
theorem agrees_condition {next : Expr → Peg β}
    {go : Expr × List Token → Except (List Token) (β × List Token)}
    (h : ∀ test rest, rest.length ≤ us.length →
      Agrees dead rest (next test rest) (go (test, rest))) :
    Agrees dead us ((expr >>= fun test => symbol .colon >>= fun _ => next test) us)
      (plain (Reader.condition us) >>= go) := by
  rw [Reader.plain_condition, bind_assoc]
  apply (readsExpr_expr us).agrees.bind
  · intro test vs _ hvs
    dsimp only
    rw [bind_assoc]
    refine (agrees_symbol .colon vs).bind_whole fun _ ws hws => ?_
    exact h test ws (by omega)
  · intro test vs hvs
    exact .inl ((refuses_symbol (hvs.head?_ne (by decide))).bind _)

/-- The variable, the iterable and the colon of a loop, with what stands behind them. -/
theorem agrees_loopHead {next : String → Expr → Peg β}
    {go : (String × Expr) × List Token → Except (List Token) (β × List Token)}
    (h : ∀ name iterable rest, rest.length ≤ us.length →
      Agrees dead rest (next name iterable rest) (go ((name, iterable), rest))) :
    Agrees dead us ((identifier >>= fun name => keyword .within >>= fun _ =>
        expr >>= fun iterable => symbol .colon >>= fun _ => next name iterable) us)
      (plain (Reader.loopHead us) >>= go) := by
  rw [Reader.plain_loopHead, bind_assoc]
  refine (agrees_identifier us).bind_whole fun name vs hvs => ?_
  dsimp only
  rw [bind_assoc]
  refine (agrees_one_of_eq ?_ vs).bind_whole fun _ ws hws => ?_
  · intro t
    cases t with
    | keyword word => cases word <;> rfl
    | _ => rfl
  · dsimp only
    rw [bind_assoc]
    exact agrees_condition fun iterable rest hrest => h name iterable rest (by omega)

end Heads

section Compound

variable {suite : Peg (List Stmt)} {n : Nat}
  (hsuite : ∀ us, us.length < n → Agrees never us (suite us) (plain (Reader.suite us)))

/-- What the readers take for a condition and a body. -/
def branchReading (us : List Token) : Except (List Token) ((Expr × List Stmt) × List Token) :=
  plain (Reader.condition us) >>= fun (test, rest) =>
    plain (Reader.suite rest) >>= fun (body, rest) => .ok ((test, body), rest)

/-- A branch takes tokens. -/
theorem length_lt_of_branchReading {us : List Token} {branch : Expr × List Stmt}
    (h : branchReading us = .ok (branch, rest)) : rest.length < us.length := by
  obtain ⟨test, vs, htest, h⟩ := Reader.exists_of_bind h
  obtain ⟨body, ws, hbody, h⟩ := Reader.exists_of_bind h
  cases h
  exact Nat.lt_trans (Reader.bound_of_plain hbody) (Reader.bound_of_plain htest)

include hsuite in
/-- A word, a condition and a body. -/
theorem agrees_branch (word : Keyword) {us : List Token} (hus : us.length < n) :
    Agrees never (.keyword word :: us) (branch suite word (.keyword word :: us))
      (branchReading us) := by
  refine .take_bind (if_pos (beq_self_eq_true word)) (agrees_condition fun test rest hrest => ?_)
  exact (hsuite rest (by omega)).map _

/-- A branch is refused where its word is not next. -/
theorem refuses_branch {word : Keyword} (h : ts.head? ≠ some (.keyword word)) :
    Refuses (branch suite word) ts :=
  (refuses_keyword h).bind _

theorem refuses_otherwise (h : ts.head? ≠ some (.keyword .otherwise)) :
    Refuses (otherwise suite) ts :=
  (refuses_keyword h).bind _

/-- What the readers take for a colon and a body. -/
def otherwiseReading (us : List Token) : Except (List Token) (List Stmt × List Token) :=
  plain (Reader.symbol .colon us) >>= fun (_, rest) => plain (Reader.suite rest)

include hsuite in
/-- The last branch of a choice is read as the readers read it. -/
theorem agrees_otherwise {us : List Token} (hus : us.length < n) :
    Agrees never (.keyword .otherwise :: us) (otherwise suite (.keyword .otherwise :: us))
      (otherwiseReading us) := by
  refine .take_bind (if_pos (beq_self_eq_true Keyword.otherwise))
    ((agrees_symbol .colon us).bind_whole fun _ rest hrest => ?_)
  exact hsuite rest (by omega)

/-- A branch of a choice stands here, and is none of its own. -/
def Branches (ts : List Token) : Prop :=
  ts.head? = some (.keyword .elseIf) ∨ ts.head? = some (.keyword .otherwise)

/-- The word of a branch is no other token. -/
theorem Branches.head?_ne (h : Branches ts) {t : Token} (helse : t ≠ .keyword .elseIf)
    (hotherwise : t ≠ .keyword .otherwise) : ts.head? ≠ some t := by
  rcases h with h | h
  all_goals
    rw [h]
    rintro ⟨⟩
    contradiction

/-- A further branch is a condition and a body like the first. -/
theorem plain_alternatives_elseIf_eq (us : List Token) :
    plain (Reader.alternatives (.keyword .elseIf :: us)) =
      branchReading us >>= fun (first, rest) =>
        plain (Reader.alternatives rest) >>= fun (others, rest) =>
          .ok ((first :: others.1, others.2), rest) := by
  rw [Reader.plain_alternatives_elseIf, branchReading, bind_assoc]
  congr 1
  funext ⟨test, rest⟩
  dsimp only
  rw [bind_assoc]
  rfl

/-- The last branch ends a choice. -/
theorem plain_alternatives_otherwise_eq (us : List Token) :
    plain (Reader.alternatives (.keyword .otherwise :: us)) =
      otherwiseReading us >>= fun (body, rest) => .ok (([], some body), rest) := by
  rw [Reader.plain_alternatives_otherwise]
  exact (bind_assoc _ _ _).symm

include hsuite in
/-- The further branches of a choice. -/
theorem agrees_alternatives (build : List (Expr × List Stmt) → Option (List Stmt) → Stmt)
    {ts : List Token} (hts : ts.length < n) :
    Agrees Branches ts ((many (branch suite .elseIf) >>= fun others =>
        optional (otherwise suite) >>= fun last => pure (build others last)) ts)
      (plain (Reader.alternatives ts) >>= fun (others, rest) =>
        .ok (build others.1 others.2, rest)) := by
  by_cases helse : ts.head? = some (.keyword .elseIf)
  · obtain ⟨us, hcons⟩ := List.head?_eq_some_iff.mp helse
    have hus : us.length < ts.length := by rw [hcons]; exact Nat.lt_succ_self _
    rw [hcons]
    have hbranch := agrees_branch hsuite .elseIf (Nat.lt_trans hus hts)
    have hidle : ∀ others, Idles Branches (optional (otherwise suite) >>= fun last =>
        pure (build others last)) (.keyword .elseIf :: us) := fun others =>
      idles_optional (refuses_otherwise (by simp)) (.inl rfl) _
    rw [plain_alternatives_elseIf_eq, bind_assoc]
    apply hbranch.many_bind
    · intro first rest hfirst
      exact Nat.lt_succ_of_lt (length_lt_of_branchReading hfirst)
    · intro first rest hfirst
      have hlt := length_lt_of_branchReading hfirst
      dsimp only
      rw [bind_assoc]
      exact agrees_alternatives (fun others => build (first :: others)) (by omega)
    · intro stuck hstuck
      exact (hidle []).agrees (Agrees.length_le (hstuck ▸ hbranch)) (Nat.le_refl _)
    · exact fun _ _ hnever => hnever.elim
  apply Agrees.many_bind_right (refuses_branch helse)
  by_cases hotherwise : ts.head? = some (.keyword .otherwise)
  · obtain ⟨us, rfl⟩ := List.head?_eq_some_iff.mp hotherwise
    have hus : us.length < n := Nat.lt_of_succ_lt hts
    have hbranches : Branches (.keyword .otherwise :: us) := .inr rfl
    rw [plain_alternatives_otherwise_eq, bind_assoc]
    exact (agrees_otherwise hsuite hus).of_never.optional_map hbranches (build [])
  · rw [Reader.plain_alternatives_of_ne helse hotherwise]
    exact .optional_right (refuses_otherwise hotherwise) (.done _ _)
termination_by ts.length

/-! ### Compound statements -/

/-- What the readers take for a compound statement. -/
def compoundReading : List Token → Except (List Token) (Stmt × List Token)
  | .keyword .define :: us =>
    plain (Reader.signature us) >>= fun (head, rest) =>
      plain (Reader.suite rest) >>= fun (body, rest) => .ok (.define head.1 head.2 body, rest)
  | .keyword .onlyIf :: us =>
    branchReading us >>= fun (first, rest) =>
      plain (Reader.alternatives rest) >>= fun (others, rest) =>
        .ok (.choose (first :: others.1) others.2, rest)
  | .keyword .loopWhile :: us =>
    branchReading us >>= fun (only, rest) => .ok (.loopWhile only.1 only.2, rest)
  | .keyword .loopFor :: us =>
    plain (Reader.loopHead us) >>= fun (head, rest) =>
      plain (Reader.suite rest) >>= fun (body, rest) => .ok (.loopFor head.1 head.2 body, rest)
  | us => .error us

/-- A line that starts as a compound statement is one. -/
theorem plain_line_compound {ts : List Token} (h : ts.head?.any Reader.leadsCompound = true) :
    plain (Reader.line ts) =
      compoundReading ts >>= fun (statement, rest) => .ok ([statement], rest) := by
  obtain ⟨t, us, rfl, ht⟩ := exists_cons_of_any h
  unfold Reader.leadsCompound at ht
  split at ht
  · rw [Reader.plain_line_define]
    simp only [compoundReading, bind_assoc, Reader.ok_bind]
  · rw [Reader.plain_line_choose]
    simp only [compoundReading, branchReading, bind_assoc, Reader.ok_bind]
  · rw [Reader.plain_line_loopWhile]
    simp only [compoundReading, branchReading, bind_assoc, Reader.ok_bind]
  · rw [Reader.plain_line_loopFor]
    simp only [compoundReading, bind_assoc, Reader.ok_bind]
  · cases ht

include hsuite in
/-- A definition is read as the readers read it. -/
theorem agrees_definition {us : List Token} (hus : us.length < n) :
    Agrees never (.keyword .define :: us) (definition suite (.keyword .define :: us))
      (compoundReading (.keyword .define :: us)) := by
  refine .take_bind (if_pos (beq_self_eq_true Keyword.define))
    (agrees_signature fun name params rest hrest => ?_)
  exact (hsuite rest (by omega)).map (Stmt.define name params)

include hsuite in
/-- A choice is read as the readers read it, and may be cut short before a branch. -/
theorem agrees_choice {us : List Token} (hus : us.length < n) :
    Agrees Branches (.keyword .onlyIf :: us) (choice suite (.keyword .onlyIf :: us))
      (compoundReading (.keyword .onlyIf :: us)) := by
  refine Agrees.bind (agrees_branch hsuite .onlyIf hus) (fun first rest hfirst _ => ?_)
    fun _ _ hnever => hnever.elim
  have hlt := length_lt_of_branchReading hfirst
  exact agrees_alternatives hsuite (fun others => .choose (first :: others)) (by omega)

include hsuite in
/-- A loop with a condition is read as the readers read it. -/
theorem agrees_loopWhile {us : List Token} (hus : us.length < n) :
    Agrees never (.keyword .loopWhile :: us) (loopWhile suite (.keyword .loopWhile :: us))
      (compoundReading (.keyword .loopWhile :: us)) :=
  (agrees_branch hsuite .loopWhile hus).map fun only => Stmt.loopWhile only.1 only.2

include hsuite in
/-- A loop over items is read as the readers read it. -/
theorem agrees_loopFor {us : List Token} (hus : us.length < n) :
    Agrees never (.keyword .loopFor :: us) (loopFor suite (.keyword .loopFor :: us))
      (compoundReading (.keyword .loopFor :: us)) := by
  refine .take_bind (if_pos (beq_self_eq_true Keyword.loopFor))
    (agrees_loopHead fun name iterable rest hrest => ?_)
  exact (hsuite rest (by omega)).map (Stmt.loopFor name iterable)

include hsuite in
/-- Compound statements are read as the readers read them. -/
theorem agrees_compound (hts : ts.length ≤ n) :
    Agrees Branches ts (compound suite ts) (compoundReading ts) := by
  by_cases hdefine : ts.head? = some (.keyword .define)
  · obtain ⟨us, rfl⟩ := List.head?_eq_some_iff.mp hdefine
    refine .orElse_left (agrees_definition hsuite hts).of_never ?_
    exact (refuses_branch (by simp)).bind _ |>.orElse
      (((refuses_branch (by simp)).bind _).orElse ((refuses_keyword (by simp)).bind _))
  apply Agrees.orElse_right ((refuses_keyword hdefine).bind _)
  by_cases honlyIf : ts.head? = some (.keyword .onlyIf)
  · obtain ⟨us, rfl⟩ := List.head?_eq_some_iff.mp honlyIf
    refine .orElse_left (agrees_choice hsuite hts) ?_
    exact ((refuses_branch (by simp)).bind _).orElse ((refuses_keyword (by simp)).bind _)
  apply Agrees.orElse_right ((refuses_branch honlyIf).bind _)
  by_cases hwhile : ts.head? = some (.keyword .loopWhile)
  · obtain ⟨us, rfl⟩ := List.head?_eq_some_iff.mp hwhile
    exact .orElse_left (agrees_loopWhile hsuite hts).of_never ((refuses_keyword (by simp)).bind _)
  apply Agrees.orElse_right ((refuses_branch hwhile).bind _)
  by_cases hfor : ts.head? = some (.keyword .loopFor)
  · obtain ⟨us, rfl⟩ := List.head?_eq_some_iff.mp hfor
    exact (agrees_loopFor hsuite hts).of_never
  · have hread : compoundReading ts = .error ts := by
      unfold compoundReading
      split
      · exact absurd rfl hdefine
      · exact absurd rfl honlyIf
      · exact absurd rfl hwhile
      · exact absurd rfl hfor
      · rfl
    rw [hread]
    exact Refuses.agrees ((refuses_keyword hfor).bind _)

/-- A compound statement is refused where none starts. -/
theorem refuses_compound (h : ts.head?.any Reader.leadsCompound = false) :
    Refuses (compound suite) ts :=
  ((refuses_keyword (head?_ne_of_any h rfl)).bind _).orElse <|
    ((refuses_branch (head?_ne_of_any h rfl)).bind _).orElse <|
      ((refuses_branch (head?_ne_of_any h rfl)).bind _).orElse
        ((refuses_keyword (head?_ne_of_any h rfl)).bind _)

end Compound

/-! ### Lines and blocks -/

/-- How an attempt compares to reading a line. -/
structure ReadsLine (ts : List Token) (attempt : Attempt (List Stmt)) : Prop where
  agrees : Agrees Branches ts attempt (plain (Reader.line ts))
  refuses : ts.head?.any Token.startsLine = false → attempt = ⟨none, ts.length⟩

/-- No line starts with the word of a further branch. -/
theorem Branches.any_startsLine (h : Branches ts) : ts.head?.any Token.startsLine = false := by
  rcases h with h | h
  all_goals rw [h]; rfl

/-- What a reader of lines up to an end does, and which token or which place is taken for that end.
No line starts there, and a branch that could not be read is none. -/
structure ReadsLines (ends : List Token → Prop) (stop : Peg Unit)
    (read : List Token → Except (List Token) (List Stmt × List Token)) : Prop where
  read_end : ∀ {us}, ends us →
    ∃ rest, read us = .ok ([], rest) ∧ Agrees never us (stop us) (.ok ((), rest))
  read_line : ∀ {us}, ¬ends us → read us = plain (Reader.line us) >>= fun (first, rest) =>
    read rest >>= fun (others, rest) => .ok (first ++ others, rest)
  no_line : ∀ {us}, ends us → us.head?.any Token.startsLine = false
  refuses : ∀ {us}, ¬ends us → Refuses stop us
  no_end : ∀ {us}, Branches us → ¬ends us

section Lines

variable {l : Peg (List Stmt)} {n : Nat} (hline : ∀ us, us.length < n → ReadsLine us (l us))

include hline in
/-- Lines up to an end are read as the readers read them. -/
theorem agrees_lines {ends : List Token → Prop} {stop : Peg Unit}
    {read : List Token → Except (List Token) (List Stmt × List Token)}
    (hread : ReadsLines ends stop read) (f : List Stmt → List Stmt) {ts : List Token}
    (hts : ts.length < n) :
    Agrees never ts ((many l >>= fun others => stop >>= fun _ => pure (f others.flatten)) ts)
      (read ts >>= fun (others, rest) => .ok (f others, rest)) := by
  by_cases hends : ends ts
  · obtain ⟨rest, hrest, hstop⟩ := hread.read_end hends
    have hrefuses : Refuses l ts := (hline ts hts).refuses (hread.no_line hends)
    rw [hrest]
    exact .many_bind_right hrefuses (hstop.bind_of_ok (.done _ _))
  have hidle : ∀ as us, ¬ends us → Idles never (stop >>= fun _ => pure (f (List.flatten as))) us :=
    fun as us hus => .inl ((hread.refuses hus).bind _)
  have hagrees := (hline ts hts).agrees.bounded
  rw [hread.read_line hends, bind_assoc]
  apply hagrees.many_bind
  · intro first rest hfirst
    exact Reader.bound_of_plain hfirst
  · intro first rest hfirst
    have hlt := Reader.bound_of_plain hfirst
    dsimp only
    rw [bind_assoc]
    exact agrees_lines hread (fun others => f (first ++ others)) (by omega)
  · intro stuck hstuck
    exact (hidle [] ts hends).agrees (Agrees.length_le (hstuck ▸ hagrees)) (Nat.le_refl _)
  · rintro as us ⟨hus, hle⟩
    have hrefuses : Refuses l us := (hline us (by omega)).refuses hus.any_startsLine
    exact ⟨hrefuses, hidle as us (hread.no_end hus)⟩
termination_by ts.length

/-- The lines of a block end with its dedent. -/
theorem readsLines_linesToDedent :
    ReadsLines (fun us => us.head? = some .dedent) dedent
      (fun us => plain (Reader.linesToDedent us)) where
  read_end := by
    intro us hus
    obtain ⟨vs, rfl⟩ := List.head?_eq_some_iff.mp hus
    refine ⟨vs, ?_, .read (Nat.le_succ _) (Nat.le_refl _)⟩
    rw [Reader.plain_linesToDedent_dedent]
  read_line := Reader.plain_linesToDedent_of_ne
  no_line := by
    intro us hus
    rw [hus]
    rfl
  refuses := refuses_dedent
  no_end := fun hus => hus.head?_ne (by simp) (by simp)

include hline in
/-- The body of a compound statement. -/
theorem agrees_suite (hts : ts.length < n) :
    Agrees never ts (suite l ts) (plain (Reader.suite ts)) := by
  by_cases hnewline : ts.head? = some .newline
  · obtain ⟨us, rfl⟩ := List.head?_eq_some_iff.mp hnewline
    refine .orElse_left (.take_bind rfl ?_) (refuses_simpleLine rfl)
    by_cases hindent : us.head? = some .indent
    · obtain ⟨vs, rfl⟩ := List.head?_eq_some_iff.mp hindent
      have hvs : vs.length < n := Nat.lt_of_succ_lt (Nat.lt_of_succ_lt hts)
      rw [Reader.plain_suite_block]
      refine .take_bind rfl ((hline vs hvs).agrees.bounded.bind ?_ ?_)
      · intro first rest _ hrest
        exact agrees_lines hline readsLines_linesToDedent (first ++ ·) (by omega)
      · rintro first ws ⟨hws, hle⟩
        have hrefuses : Refuses l ws := (hline ws (by omega)).refuses hws.any_startsLine
        have hdedent : ws.head? ≠ some .dedent := hws.head?_ne (by simp) (by simp)
        exact .inl (hrefuses.many_bind ((refuses_dedent hdedent).bind _))
    · rw [Reader.plain_suite_newline hindent]
      exact Refuses.agrees ((refuses_indent hindent).bind _)
  · rw [Reader.plain_suite_inline hnewline]
    exact Agrees.orElse_right ((refuses_newline hnewline).bind _) (agrees_simpleLine ts)

end Lines

/-- Where no line starts, no compound statement does. -/
theorem any_leadsCompound_of_any_startsLine (h : ts.head?.any Token.startsLine = false) :
    ts.head?.any Reader.leadsCompound = false := by
  refine any_eq_false_of_imp (fun {t} ht => ?_) h
  unfold Reader.leadsCompound at ht
  split at ht
  all_goals first
    | rfl
    | cases ht

/-- What starts a compound statement starts no simple one. -/
theorem any_startsSimple_of_any_leadsCompound (h : ts.head?.any Reader.leadsCompound = true) :
    ts.head?.any Token.startsSimple = false := by
  obtain ⟨t, us, rfl, ht⟩ := exists_cons_of_any h
  unfold Reader.leadsCompound at ht
  split at ht
  all_goals first
    | rfl
    | cases ht

/-- Lines are read as the readers read them. -/
theorem readsLine_line (ts : List Token) : ReadsLine ts (line ts) := by
  refine recursive_induction (motive := ReadsLine) (fun l ts _ hl => ?_) ts (Nat.le_refl _)
  constructor
  · by_cases hleads : ts.head?.any Reader.leadsCompound = true
    · have hcompound := agrees_compound (fun us hus => agrees_suite hl hus) (Nat.le_refl ts.length)
      rw [plain_line_compound hleads]
      exact (hcompound.map _).orElse_left
        (refuses_simpleLine (any_startsSimple_of_any_leadsCompound hleads))
    · rw [Bool.not_eq_true] at hleads
      rw [Reader.plain_line_simple hleads]
      exact Agrees.orElse_right ((refuses_compound hleads).map _) (agrees_simpleLine ts).of_never
  · intro hstarts
    have hsimple := any_eq_false_of_imp Token.startsLine_of_startsSimple hstarts
    have hcompound := any_leadsCompound_of_any_startsLine hstarts
    exact ((refuses_compound hcompound).map _).orElse (refuses_simpleLine hsimple)

/-! ### Scripts -/

/-- The end is refused where tokens are left. -/
theorem refuses_atEnd (h : ts ≠ []) : Refuses atEnd ts := by
  obtain ⟨t, us, rfl⟩ := List.exists_cons_of_ne_nil h
  rfl

/-- A reading that leaves nothing. -/
def complete (r : Except (List Token) α) : Except (List Token) (α × List Token) :=
  r.map (·, [])

/-- What agrees with a reader that reads everything is read so, or fails furthest where the reader
is stuck. -/
theorem run_eq_of_agrees {p : Peg α} {r : Except (List Token) α}
    (h : Agrees never ts (p ts) (complete r)) : p.run ts = r.mapError List.length := by
  rw [run]
  rcases r with stuck | a
  · change Agrees never ts (p ts) (.error stuck) at h
    generalize p ts = attempt at h
    cases h with
    | stuck => rfl
    | cut hdead => exact hdead.elim
  · change Agrees never ts (p ts) (.ok (a, [])) at h
    generalize p ts = attempt at h
    cases h with
    | read => rfl

/-- The lines of a script end where no token is left. -/
theorem readsLines_script :
    ReadsLines (fun us => us = []) atEnd (fun us => complete (Reader.script us)) where
  read_end := by
    rintro us rfl
    refine ⟨[], ?_, .read (Nat.le_refl _) (Nat.le_refl _)⟩
    rw [Reader.script]
    rfl
  read_line := by
    intro us hus
    obtain ⟨t, vs, rfl⟩ := List.exists_cons_of_ne_nil hus
    rw [Reader.script_cons]
    rcases plain (Reader.line (t :: vs)) with stuck | ⟨first, rest⟩
    · rfl
    · rw [Reader.ok_bind, Reader.ok_bind]
      dsimp only
      rcases Reader.script rest with stuck | others <;> rfl
  no_line := by
    rintro us rfl
    rfl
  refuses := refuses_atEnd
  no_end := by
    rintro us hus rfl
    rcases hus with hus | hus <;> cases hus

/-- Scripts are read as the readers read them. -/
theorem agrees_script (ts : List Token) :
    Agrees never ts (script ts) (complete (Reader.script ts)) := by
  have hlines := agrees_lines (fun us _ => readsLine_line us) readsLines_script id
    (Nat.lt_succ_self ts.length)
  generalize Reader.script ts = r at hlines ⊢
  rcases r with stuck | statements <;> exact hlines

/-! ### One expression -/

/-- Newlines are taken as long as there are any. -/
theorem exists_many_newline (ts : List Token) :
    ∃ units, many newline ts = ⟨some (units, ts.dropWhile Reader.isNewline),
      (ts.dropWhile Reader.isNewline).length⟩ := by
  induction ts with
  | nil => exact ⟨[], many_of_none (refuses_newline (by simp))⟩
  | cons t us ih =>
    obtain ⟨units, hus⟩ := ih
    by_cases ht : Reader.isNewline t = true
    · have htake : newline (t :: us) = ⟨some ((), us), (t :: us).length⟩ := one_of_true ht us
      have hle : (us.dropWhile Reader.isNewline).length ≤ (t :: us).length :=
        Nat.le_succ_of_le (List.dropWhile_sublist _).length_le
      refine ⟨() :: units, ?_⟩
      rw [many_of_some htake (Nat.lt_succ_self _), hus, List.dropWhile_cons_of_pos ht]
      exact congrArg _ (Nat.min_eq_right hle)
    · have hrefuses : Refuses newline (t :: us) := by
        apply refuses_newline
        rintro ⟨⟩
        exact ht rfl
      exact ⟨[], by rw [many_of_none hrefuses, List.dropWhile_cons_of_neg ht]⟩

/-- One expression with newlines behind it is read as the readers read it. -/
theorem agrees_onlyExpr (ts : List Token) :
    Agrees never ts (onlyExpr ts) (complete (Reader.onlyExpr ts)) := by
  have hread : complete (Reader.onlyExpr ts) = plain (Reader.expr ts) >>= fun read =>
      if read.2.dropWhile Reader.isNewline = [] then .ok (read.1, [])
      else .error (read.2.dropWhile Reader.isNewline) := by
    rw [Reader.onlyExpr_eq]
    rcases plain (Reader.expr ts) with stuck | ⟨value, rest⟩
    · rfl
    · rw [Reader.ok_bind, Reader.ok_bind]
      dsimp only
      cases rest.dropWhile Reader.isNewline <;> rfl
  rw [hread]
  apply (readsExpr_expr ts).agrees.bind
  · intro value rest _ _
    obtain ⟨units, hmany⟩ := exists_many_newline rest
    have hle : (rest.dropWhile Reader.isNewline).length ≤ rest.length :=
      (List.dropWhile_sublist _).length_le
    rw [bind_of_some hmany]
    dsimp only
    apply Agrees.within _ (Nat.le_refl _) hle
    split
    · next hnil =>
      rw [hnil]
      exact .read (Nat.zero_le _) (Nat.le_refl _)
    · next hne => exact ((refuses_atEnd hne).bind _).agrees
  · intro value us hus
    have hnewline : us.head? ≠ some .newline := hus.head?_ne (by decide)
    have hatEnd : Refuses atEnd us := refuses_atEnd (Continues.ne_nil hus)
    exact .inl ((refuses_newline hnewline).many_bind (hatEnd.bind _))

/-! ### Sources -/

/-- Two ways to read the tokens of a source come to the same if they read the same, and fail with
the same number of tokens to the end. -/
theorem readSource_eq {p : Peg α} {read : List Token → Except (List Token) α}
    (h : ∀ ts, p.run ts = (read ts).mapError List.length) (source : String) :
    Reader.readSource read source = p.readSource source := by
  rw [Reader.readSource, Peg.readSource]
  congr 1
  funext tokens
  rw [h]
  cases read (tokens.map PlacedToken.token) <;> rfl

/-- A source is the script that the grammar with ordered alternatives reads, or at fault where that
came furthest. -/
theorem parse_eq_readSource (source : String) : parse source = script.readSource source :=
  readSource_eq (fun ts => run_eq_of_agrees (agrees_script ts)) source

/-- A source is the expression that the grammar with ordered alternatives reads, or at fault where
that came furthest. -/
theorem parseExpression_eq_readSource (source : String) :
    parseExpression source = onlyExpr.readSource source :=
  readSource_eq (fun ts => run_eq_of_agrees (agrees_onlyExpr ts)) source

end ScriptShell.Peg
