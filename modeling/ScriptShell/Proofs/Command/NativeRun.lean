import ScriptShell.Command.Execution
import ScriptShell.Proofs.Script.Acceptance
import ScriptShell.Proofs.Token.LineEnds

/-!
# The classifier and the native run

A command is classified by the reader of scripts, while a native run tries the reader of one
expression first. The two agree: an expression is the script of one expression statement, so a
native run fails on the text exactly where the classifier turns it down, and whichever reader a run
takes the text with, it leaves the same state and reports the same failure.
-/

namespace ScriptShell

/-! ### Sources -/

/-- A source that is one expression is the script of that one expression statement. -/
theorem parse_of_parseExpression {text : String} {e : Expr} (h : parseExpression text = .ok e) :
    parse text = .ok [.expr e] := by
  obtain ⟨ts, hts, hread⟩ := (readSource_eq_ok_iff _ _ _).mp h
  obtain ⟨us, n, heq, hd⟩ := (onlyExpr_iff_derives _ _).mp hread
  obtain ⟨u, us', hus, _⟩ := hd.startsExpr
  have hne : us ≠ [] := by
    rw [hus]
    exact List.cons_ne_nil _ _
  obtain rfl := newlines_of_tokenize hts hd.standsInExpr hne heq
  refine (readSource_eq_ok_iff _ _ _).mpr ⟨ts, hts, (script_iff_derives _ _).mpr ?_⟩
  rw [heq]
  exact .ofLines (.lastLine (.ofSimpleLine (.lastSimple (.expr hd))))

/-- An expression is a script. -/
theorem compiles_of_parseExpression {text : String} {e : Expr} (h : parseExpression text = .ok e) :
    compiles text = true := by
  rw [compiles, parse_of_parseExpression h]
  rfl

/-! ### Scripts of one expression statement -/

/-- A line holds a statement. -/
theorem ne_nil_of_derives_line {us : List Token} {p : List Stmt}
    (h : ScriptRule.line.Derives us p) : p ≠ [] := by
  cases h with
  | ofCompound _ => exact List.cons_ne_nil _ _
  | ofSimpleLine hd =>
    cases hd with
    | lastSimple _ => exact List.cons_ne_nil _ _
    | lastSimpleWithSign _ => exact List.cons_ne_nil _ _
    | moreSimple _ _ => exact List.cons_ne_nil _ _

/-- Lines hold a statement. -/
theorem ne_nil_of_derives_lines {us : List Token} {p : List Stmt}
    (h : ScriptRule.lines.Derives us p) : p ≠ [] := by
  cases h with
  | lastLine hd => exact ne_nil_of_derives_line hd
  | moreLines hd _ => exact List.append_ne_nil_of_left_ne_nil (ne_nil_of_derives_line hd) _

/-- Lines of one statement are one line. -/
theorem derives_line_of_lines {us : List Token} {p : List Stmt} {s : Stmt}
    (h : ScriptRule.lines.Derives us p) (hp : p = [s]) : ScriptRule.line.Derives us p := by
  cases h with
  | lastLine hd => exact hd
  | moreLines hd hds =>
    have hleft := ne_nil_of_derives_line hd
    have hright := ne_nil_of_derives_lines hds
    rcases List.append_eq_cons_iff.mp hp with ⟨hnil, _⟩ | ⟨_, _, hnil⟩
    · exact absurd hnil hleft
    · exact absurd (List.append_eq_nil_iff.mp hnil.symm).2 hright

/-- A simple line of one statement without a semicolon is the statement and a newline. -/
theorem derives_simple_of_simpleLine {us : List Token} {p : List Stmt} {s : Stmt}
    (h : ScriptRule.simpleLine.Derives us p) (hp : p = [s])
    (hus : .symbol .semicolon ∉ us) :
    ∃ vs, us = vs ++ [.newline] ∧ ScriptRule.simple.Derives vs s := by
  cases h with
  | lastSimple hd =>
    cases hp
    exact ⟨_, rfl, hd⟩
  | lastSimpleWithSign _ => exact absurd (by simp) hus
  | moreSimple _ _ => exact absurd (by simp) hus

/-- An expression statement is an expression. -/
theorem derives_or_of_simple {us : List Token} {s : Stmt} {e : Expr}
    (h : ScriptRule.simple.Derives us s) (hs : s = .expr e) : ExprRule.or.Derives us e := by
  cases h with
  | expr hd =>
    cases hs
    exact hd
  | pass => cases hs
  | leave => cases hs
  | next => cases hs
  | giveBackNothing => cases hs
  | giveBack _ => cases hs
  | assign _ _ => cases hs
  | setItem _ _ => cases hs

/-- No compound statement is an expression. -/
theorem ne_expr_of_derives_compound {us : List Token} {s : Stmt}
    (h : ScriptRule.compound.Derives us s) (e : Expr) : s ≠ .expr e := by
  cases h with
  | define _ _ => exact nofun
  | choose _ _ _ => exact nofun
  | loopWhile _ _ => exact nofun
  | loopFor _ _ => exact nofun

/-- A source that is the script of one expression statement, without a semicolon in it, is that
expression. -/
theorem parseExpression_of_parse {text : String} {e : Expr} {ts : List PlacedToken}
    (h : parse text = .ok [.expr e]) (hts : tokenize text = .ok ts)
    (hsemicolon : .symbol .semicolon ∉ ts.map PlacedToken.token) :
    parseExpression text = .ok e := by
  obtain ⟨ts', hts', hread⟩ := (readSource_eq_ok_iff _ _ _).mp h
  rw [hts] at hts'
  cases hts'
  refine (readSource_eq_ok_iff _ _ _).mpr ⟨ts, hts, (onlyExpr_iff_derives _ _).mpr ?_⟩
  have hlines := (script_iff_derives _ _).mp hread
  generalize hus : ts.map PlacedToken.token = us at hlines hsemicolon
  generalize hp : [Stmt.expr e] = p at hlines
  cases hlines with
  | emptyProgram => cases hp
  | ofLines hlines =>
    have hline := derives_line_of_lines hlines hp.symm
    cases hline with
    | ofCompound hd =>
      cases hp
      exact absurd rfl (ne_expr_of_derives_compound hd e)
    | ofSimpleLine hd =>
      obtain ⟨vs, rfl, hsimple⟩ := derives_simple_of_simpleLine hd hp.symm hsemicolon
      exact ⟨vs, 1, rfl, derives_or_of_simple hsimple rfl⟩

/-! ### Runs -/

/-- What a run changes and what it reports, apart from the value it shows. -/
def Attempt.effects (attempt : Attempt) : Option (Option Failure × State) :=
  attempt.map fun (outcome, s) => (outcome.failure?, s)

/-- Runs a text as a script by the reader of scripts alone. -/
def runAsScript (fuel : Nat) (text : String) (s : State) : Attempt :=
  match parse text with
  | .ok script => Attempt.ofScript (runScript fuel script s)
  | .error e => some (.failed (.ofSyntax e.message), s)

/-- An expression statement runs like its expression, with two units of fuel for the block and the
statement around it. -/
theorem effects_runScript_expr (fuel : Nat) (e : Expr) (s : State) :
    (Attempt.ofScript (runScript (fuel + 2) [.expr e] s)).effects =
      (Attempt.ofValue (eval fuel e s)).effects := by
  simp only [runScript, block, exec]
  cases eval fuel e s with
  | unfinished => rfl
  | done result s' =>
    cases result with
    | ok v => rfl
    | error fault => rfl

/-- With less fuel than that it does not come to an end. -/
theorem runScript_expr_unfinished {fuel : Nat} (h : fuel < 2) (e : Expr) (s : State) :
    Attempt.ofScript (runScript fuel [.expr e] s) = none := by
  cases fuel with
  | zero => rfl
  | succ fuel =>
    obtain rfl : fuel = 0 := by omega
    rfl

/-- The message of a departure that leaves nothing starts with a quote. -/
theorem head?_message_misplaced (d : Departure) :
    (EvalError.misplaced d).message.toList.head? = some '\'' := by
  cases d <;> rfl

/-- The message of a fault of reading starts with a word. -/
theorem head?_message_syntax (fault : SyntaxFault) :
    fault.message.toList.head? = some 'u' ∨ fault.message.toList.head? = some 'f' := by
  unfold SyntaxFault.message
  cases fault with
  | unexpectedText text =>
    left
    rw [String.toList_append]
    rfl
  | unindent =>
    left
    rfl
  | unexpectedToken token =>
    right
    rw [String.toList_append, String.toList_append]
    rfl
  | unexpectedEnd =>
    right
    rfl

/-- A fault of evaluation is never reported as one of reading is. -/
theorem ofFault_ne_ofSyntax (fault : EvalError) (e : SyntaxError) :
    Failure.ofFault fault ≠ .ofSyntax e.message := by
  intro h
  have hkind := congrArg Failure.kind h
  have hmessage := congrArg Failure.message h
  cases fault with
  | misplaced d =>
    have hhead := head?_message_misplaced d
    rw [show (EvalError.misplaced d).message = e.fault.message from hmessage] at hhead
    rcases head?_message_syntax e.fault with hu | hf
    · rw [hu] at hhead
      exact absurd hhead (by decide)
    · rw [hf] at hhead
      exact absurd hhead (by decide)
  | _ => cases hkind

/-- A text that is no script cannot be run, and nothing changes. -/
theorem runNative_of_parse_error {text : String} {e : SyntaxError} (h : parse text = .error e)
    (fuel : Nat) (s : State) :
    runNative fuel text s = some (.failed (.ofSyntax e.message), s) := by
  unfold runNative
  split
  · next he =>
    rw [parse_of_parseExpression he] at h
    cases h
  · rw [h]

/-- The classifier turns down what the reader of scripts does not read. -/
theorem compiles_eq_false_iff (text : String) :
    compiles text = false ↔ ∃ e, parse text = .error e := by
  unfold compiles
  cases parse text with
  | ok script => exact ⟨nofun, nofun⟩
  | error e => exact ⟨fun _ => ⟨e, rfl⟩, fun _ => rfl⟩

/-- A run that fails as on a text that cannot be read is given such a text. -/
theorem not_compiles_of_runNative {fuel : Nat} {text : String} {s s' : State} {e : SyntaxError}
    (h : runNative fuel text s = some (.failed (.ofSyntax e.message), s')) :
    compiles text = false := by
  unfold runNative at h
  split at h
  · next value he =>
    cases hv : eval fuel value s with
    | unfinished =>
      rw [hv] at h
      cases h
    | done result left =>
      rw [hv] at h
      cases result with
      | ok v => cases h
      | error fault =>
        have hfault := congrArg (Option.bind · fun r => r.1.failure?) h
        exact absurd (Option.some.inj hfault) (ofFault_ne_ofSyntax fault e)
  · split at h
    · next script hp =>
      cases hv : runScript fuel script s with
      | unfinished =>
        rw [hv] at h
        cases h
      | done result left =>
        rw [hv] at h
        cases result with
        | ok v => cases h
        | error fault =>
          have hfault := congrArg (Option.bind · fun r => r.1.failure?) h
          exact absurd (Option.some.inj hfault) (ofFault_ne_ofSyntax fault e)
    · next e' hp => exact (compiles_eq_false_iff text).mpr ⟨e', hp⟩

/-- A text that is run as a script is evaluated as an expression or run for its effects, and if it
is neither it does nothing. -/
theorem cases_of_runNative {fuel : Nat} {text : String} {s s' : State} {outcome : Outcome}
    (h : runNative fuel text s = some (outcome, s')) :
    s' = s ∨ (∃ e r, parseExpression text = .ok e ∧ eval fuel e s = .done r s') ∨
      ∃ p r, parse text = .ok p ∧ runScript fuel p s = .done r s' := by
  unfold runNative at h
  split at h
  · next e he =>
    refine .inr (.inl ⟨e, ?_⟩)
    cases hrun : eval fuel e s with
    | unfinished =>
      rw [hrun] at h
      cases h
    | done r left =>
      rw [hrun] at h
      refine ⟨r, he, ?_⟩
      cases r <;> cases h <;> rfl
  · split at h
    · next p hp =>
      refine .inr (.inr ⟨p, ?_⟩)
      cases hrun : runScript fuel p s with
      | unfinished =>
        rw [hrun] at h
        cases h
      | done r left =>
        rw [hrun] at h
        refine ⟨r, hp, ?_⟩
        cases r <;> cases h <;> rfl
    · cases h
      exact .inl rfl

/-- The choice of the reader changes neither the state that a run leaves nor the failure that it
reports: with the fuel for a block and a statement more, the reader of scripts alone does the
same. -/
theorem effects_runNative (text : String) :
    ∃ extra, (∀ fuel s, (runNative fuel text s).effects =
        (runAsScript (fuel + extra) text s).effects) ∧
      ∀ fuel s, fuel < extra → runAsScript fuel text s = none := by
  cases he : parseExpression text with
  | ok e =>
    have hp := parse_of_parseExpression he
    refine ⟨2, fun fuel s => ?_, fun fuel s hlt => ?_⟩
    · simp only [runNative, runAsScript, he, hp]
      exact (effects_runScript_expr fuel e s).symm
    · simp only [runAsScript, hp]
      exact runScript_expr_unfinished hlt e s
  | error _ =>
    refine ⟨0, fun fuel s => ?_, fun fuel s hlt => by omega⟩
    cases hp : parse text <;> simp only [runNative, runAsScript, he, hp, Nat.add_zero]

/-- The classifier and the native run agree on every text. An expression is the script of its one
expression statement, and without a semicolon the converse holds. A text is turned down by the
classifier exactly where a run fails on the text itself, which leaves the state as it was; and the
reader that a run takes a text with changes neither the state it leaves nor the failure it
reports. -/
theorem classifier_agrees_with_runNative (text : String) :
    (∀ e, parseExpression text = .ok e → parse text = .ok [.expr e]) ∧
      (∀ e ts, parse text = .ok [.expr e] → tokenize text = .ok ts →
        .symbol .semicolon ∉ ts.map PlacedToken.token → parseExpression text = .ok e) ∧
      (∀ fuel s, compiles text = false ↔
        ∃ (e : SyntaxError) (s' : State),
          runNative fuel text s = some (.failed (.ofSyntax e.message), s')) ∧
      (∀ fuel s (e : SyntaxError) s',
        runNative fuel text s = some (.failed (.ofSyntax e.message), s') → s' = s) ∧
      (∀ e, parse text = .error e → ∀ fuel s,
        runNative fuel text s = some (.failed (.ofSyntax e.message), s)) ∧
      ∃ extra, (∀ fuel s, (runNative fuel text s).effects =
          (runAsScript (fuel + extra) text s).effects) ∧
        ∀ fuel s, fuel < extra → runAsScript fuel text s = none := by
  refine ⟨fun e => parse_of_parseExpression, fun e ts => parseExpression_of_parse,
    fun fuel s => ⟨fun h => ?_, fun ⟨e, s', h⟩ => not_compiles_of_runNative h⟩,
    fun fuel s e s' h => ?_, fun e => runNative_of_parse_error, effects_runNative text⟩
  · obtain ⟨e, he⟩ := (compiles_eq_false_iff text).mp h
    exact ⟨e, s, runNative_of_parse_error he fuel s⟩
  · obtain ⟨e', he⟩ := (compiles_eq_false_iff text).mp (not_compiles_of_runNative h)
    rw [runNative_of_parse_error he] at h
    exact (Prod.mk.inj (Option.some.inj h)).2.symm

end ScriptShell
