import ScriptShell.Proofs.Command.NativeRun
import ScriptShell.Proofs.Command.Quoting
import ScriptShell.Proofs.Evaluation.MoreFuel
import ScriptShell.Proofs.Token.Joined

/-!
# Commands of several lines

A text that is put together of two scripts on lines of their own is the script of all their
statements, and running it is running the one and then, unless that failed, the other. Both scripts
have to start at the same column.
-/

namespace ScriptShell

/-! ### Reading -/

/-- The column of the first lexeme that is no line feed: the number of bytes between it and the
start of its line, where the line of the first lexeme starts at byte `lineStart`. -/
def Lexeme.firstColumn? (lineStart : Nat) : List Lexeme → Option Nat
  | [] => none
  | l :: ls =>
    match l.token with
    | .newline => firstColumn? l.stop ls
    | _ => some (l.start - lineStart)

/-- The column at which the first logical line of a source starts, if it has one. -/
def firstColumn? (source : String) : Option Nat :=
  (Lexeme.scan source.toList).toOption.bind (Lexeme.firstColumn? 0)

theorem Spaced.firstColumn?_placed (stop : Nat) (ls : List Spaced) :
    Lexeme.firstColumn? stop (placed stop ls) = firstColumn? ls := by
  induction ls generalizing stop with
  | nil => rfl
  | cons l ls ih =>
    rw [placed, Lexeme.firstColumn?]
    split
    · next hfeed =>
      rw [firstColumn?_feed hfeed]
      exact ih _
    · next hfeed => rw [firstColumn?_token hfeed, Nat.add_sub_cancel_left]

/-- The column at which a source starts can be told apart from places. -/
theorem firstColumn?_eq {source : String} {us : List Spaced}
    (h : Spaced.scan none 0 source.toList = some us) :
    firstColumn? source = Spaced.firstColumn? (Spaced.fold false us) := by
  have hscan := Spaced.scanFrom_eq none 0 0 source.toList
  rw [Nat.add_zero, h, Option.map_some] at hscan
  rw [Spaced.firstColumn?_fold, ← Spaced.firstColumn?_placed 0 us, firstColumn?, Lexeme.scan, hscan]
  rfl

/-- The layout leaves the content of lexemes, and so their brackets. -/
theorem Spaced.depthBehind_laid {us : List Spaced} {ts : List Token}
    (h : laid [] 0 true us = some ts) :
    depthBehind 0 (us.map token) = depthBehind 0 ts := by
  rw [← depthBehind_content, ← content_laid h, depthBehind_content]

/-- The tokens of two sources on lines of their own, if the first closes its brackets and both start
at the same column. -/
theorem tokens?_lines {a b : String} {ts ws : List Token} (ha : tokens? a = some ts)
    (hb : tokens? b = some ws) (hdepth : depthBehind 0 ts = 0)
    (hcolumn : ∀ i j, firstColumn? a = some i → firstColumn? b = some j → i = j) :
    tokens? (a ++ "\n" ++ b) = some (ts ++ ws) := by
  obtain ⟨us, hus, hts⟩ := Option.bind_eq_some_iff.mp ha
  obtain ⟨vs, hvs, hws⟩ := Option.bind_eq_some_iff.mp hb
  rw [firstColumn?_eq hus, firstColumn?_eq hvs] at hcolumn
  rw [← Spaced.depthBehind_laid hts] at hdepth
  have htext : (a ++ "\n" ++ b).toList = a.toList ++ '\n' :: b.toList := by simp
  obtain ⟨feed, hfeed, hscan⟩ := Spaced.scan_append_feed hus b.toList
  rw [tokens?, htext, hscan, hvs, Option.map_some, Option.bind_some,
    Spaced.fold_append_feed hfeed]
  exact Spaced.laid_append_feed hts hws hdepth
    (fun column hc => .inr ⟨rfl, rfl, fun first hfirst => hcolumn first column hfirst hc⟩) hfeed

/-- What it means for a part of a script that further lines can follow it. -/
def ScriptRule.GoesOn : (rule : ScriptRule) → List Token → rule.Tree → Prop
  | .lines, us, p => ∀ vs q, ScriptRule.lines.Derives vs q →
      ScriptRule.lines.Derives (us ++ vs) (p ++ q)
  | _, _, _ => True

/-- Further lines can follow lines. -/
theorem ScriptRule.Derives.goesOn {rule : ScriptRule} {us : List Token} {tree : rule.Tree}
    (h : rule.Derives us tree) : rule.GoesOn us tree := by
  induction h with
  | lastLine hd _ => exact fun vs q hq => .moreLines hd hq
  | moreLines hd _ _ ih =>
    intro vs q hq
    rw [List.append_assoc, List.append_assoc]
    exact .moreLines hd (ih vs q hq)
  | _ => trivial

/-- A program can follow a program. -/
theorem derives_program_append {us vs : List Token} {p q : List Stmt}
    (hp : ScriptRule.program.Derives us p) (hq : ScriptRule.program.Derives vs q) :
    ScriptRule.program.Derives (us ++ vs) (p ++ q) := by
  cases hp with
  | emptyProgram => exact hq
  | ofLines hp =>
    cases hq with
    | emptyProgram =>
      rw [List.append_nil, List.append_nil]
      exact .ofLines hp
    | ofLines hq => exact .ofLines (hp.goesOn vs q hq)

/-- Two scripts on lines of their own are the script of the statements of both. -/
theorem parse_lines {a b : String} {p q : List Stmt} (ha : parse a = .ok p) (hb : parse b = .ok q)
    (hcolumn : ∀ i j, firstColumn? a = some i → firstColumn? b = some j → i = j) :
    parse (a ++ "\n" ++ b) = .ok (p ++ q) := by
  obtain ⟨us, hus, hp⟩ := (parse_iff_derives a p).mp ha
  obtain ⟨vs, hvs, hq⟩ := (parse_iff_derives b q).mp hb
  refine (parse_iff_derives _ _).mpr ⟨us ++ vs, ?_, derives_program_append hp hq⟩
  exact tokens?_lines hus hvs hp.neutral.depthBehind_zero hcolumn

/-! ### Running -/

theorem Run.andThen_assoc {α β γ : Type} (run : Run α) (f : α → State → Run β)
    (g : β → State → Run γ) :
    (run.andThen f).andThen g = run.andThen fun a s => (f a s).andThen g := by
  cases run with
  | unfinished => rfl
  | done result s => cases result <;> rfl

/-- Statements run, and then others unless they departed. -/
theorem block_append (fuel : Nat) (p q : List Stmt) (s : State) :
    block (fuel + p.length) (p ++ q) s =
      (block (fuel + p.length) p s).andThen fun flow s =>
        match flow with
        | .normal => block fuel q s
        | flow => .value flow s := by
  induction p generalizing s with
  | nil =>
    cases fuel with
    | zero => rfl
    | succ fuel => rfl
  | cons st p ih =>
    rw [List.length_cons, ← Nat.add_assoc, List.cons_append, block, block, Run.andThen_assoc]
    congr 1
    funext flow s
    cases flow with
    | normal => exact ih s
    | leave | next | giveBack => rfl

/-- A script runs, and then another one unless it failed. -/
theorem runScript_append (fuel : Nat) (p q : List Stmt) (s : State) :
    runScript (fuel + p.length) (p ++ q) s =
      (runScript (fuel + p.length) p s).andThen fun _ s => runScript fuel q s := by
  rw [runScript, runScript, block_append, Run.andThen_assoc, Run.andThen_assoc]
  congr 1
  funext flow s
  cases flow <;> rfl

/-- The effects of a script that comes to an end. -/
theorem effects_ofScript_iff {run : Run Unit} {failure? : Option Failure} {s : State} :
    (Attempt.ofScript run).effects = some (failure?, s) ↔
      (run = .done (.ok ()) s ∧ failure? = none) ∨
        ∃ e, run = .done (.error e) s ∧ failure? = some (.ofFault e) := by
  cases run with
  | unfinished => exact ⟨nofun, by rintro (⟨h, -⟩ | ⟨e, h, -⟩) <;> cases h⟩
  | done result left =>
    cases result with
    | ok v =>
      constructor
      · intro h
        cases h
        exact .inl ⟨rfl, rfl⟩
      · rintro (⟨h, rfl⟩ | ⟨e, h, -⟩) <;> cases h
        rfl
    | error e =>
      constructor
      · intro h
        cases h
        exact .inr ⟨e, rfl, rfl⟩
      · rintro (⟨h, -⟩ | ⟨e', h, rfl⟩) <;> cases h
        rfl

/-- A text, run as a script in a state, comes to an end in another one, with a failure or without;
whether a value is shown is left out. -/
def RunsTo (text : String) (s : State) (failure? : Option Failure) (s' : State) : Prop :=
  ∃ fuel, (runNative fuel text s).effects = some (failure?, s')

/-- A text that is a script runs like its statements. -/
theorem runsTo_iff {text : String} {p : List Stmt} (h : parse text = .ok p) {s s' : State}
    {failure? : Option Failure} :
    RunsTo text s failure? s' ↔
      ∃ fuel, (Attempt.ofScript (runScript fuel p s)).effects = some (failure?, s') := by
  obtain ⟨extra, heffects, hnone⟩ := effects_runNative text
  have hscript : ∀ fuel, runAsScript fuel text s = Attempt.ofScript (runScript fuel p s) := by
    intro fuel
    rw [runAsScript, h]
  constructor
  · rintro ⟨fuel, hrun⟩
    rw [heffects, hscript] at hrun
    exact ⟨_, hrun⟩
  · rintro ⟨fuel, hrun⟩
    rw [← hscript] at hrun
    by_cases hfuel : fuel < extra
    · rw [hnone fuel s hfuel] at hrun
      cases hrun
    · obtain ⟨more, rfl⟩ := Nat.exists_eq_add_of_le' (Nat.not_lt.mp hfuel)
      exact ⟨more, by rw [heffects, hrun]⟩

/-- With more fuel a script has the same effects. -/
theorem effects_runScript_of_le {fuel more : Nat} (hle : fuel ≤ more) {p : List Stmt} {s s' : State}
    {failure? : Option Failure}
    (h : (Attempt.ofScript (runScript fuel p s)).effects = some (failure?, s')) :
    (Attempt.ofScript (runScript more p s)).effects = some (failure?, s') := by
  have hmore := runScript_endsAs hle p s
  rw [effects_ofScript_iff] at h ⊢
  exact h.imp (And.imp_left (hmore _ _)) fun ⟨e, hrun, hf⟩ => ⟨e, hmore _ _ hrun, hf⟩

/-- However much fuel there is, a text comes to one end. -/
theorem runsTo_unique {text : String} {s s' s'' : State} {f f' : Option Failure}
    (h : RunsTo text s f s') (h' : RunsTo text s f' s'') : f = f' ∧ s' = s'' := by
  cases hparse : parse text with
  | error e =>
    obtain ⟨fuel, h⟩ := h
    obtain ⟨fuel', h'⟩ := h'
    rw [runNative_of_parse_error hparse] at h h'
    cases h
    cases h'
    exact ⟨rfl, rfl⟩
  | ok p =>
    obtain ⟨fuel, h⟩ := (runsTo_iff hparse).mp h
    obtain ⟨fuel', h'⟩ := (runsTo_iff hparse).mp h'
    have hboth := effects_runScript_of_le (Nat.le_max_left fuel fuel') h
    rw [effects_runScript_of_le (Nat.le_max_right fuel fuel') h'] at hboth
    cases hboth
    exact ⟨rfl, rfl⟩

/-- The effects of two scripts in a row. -/
theorem effects_append_iff {p q : List Stmt} {s s'' : State} {failure? : Option Failure} :
    (∃ fuel, (Attempt.ofScript (runScript fuel (p ++ q) s)).effects = some (failure?, s'')) ↔
      (failure?.isSome = true ∧
        ∃ fuel, (Attempt.ofScript (runScript fuel p s)).effects = some (failure?, s'')) ∨
      ∃ s', (∃ fuel, (Attempt.ofScript (runScript fuel p s)).effects = some (none, s')) ∧
        ∃ fuel, (Attempt.ofScript (runScript fuel q s')).effects = some (failure?, s'') := by
  constructor
  · rintro ⟨fuel, h⟩
    have hmore := effects_runScript_of_le (Nat.le_add_right fuel p.length) h
    rw [runScript_append] at hmore
    cases hrun : runScript (fuel + p.length) p s with
    | unfinished =>
      rw [hrun] at hmore
      cases hmore
    | done result left =>
      rw [hrun] at hmore
      cases result with
      | error e =>
        cases hmore
        exact .inl ⟨rfl, fuel + p.length, by rw [hrun]; rfl⟩
      | ok v => exact .inr ⟨left, ⟨fuel + p.length, by rw [hrun]; rfl⟩, fuel, hmore⟩
  · rintro (⟨hfailed, fuel, h⟩ | ⟨s', ⟨fuel, h⟩, fuel', h'⟩)
    · refine ⟨fuel + p.length, ?_⟩
      have hmore := effects_runScript_of_le (Nat.le_add_right fuel p.length) h
      rw [runScript_append]
      rcases effects_ofScript_iff.mp hmore with ⟨-, rfl⟩ | ⟨e, hrun, rfl⟩
      · cases hfailed
      · rw [hrun]
        rfl
    · refine ⟨max fuel fuel' + p.length, ?_⟩
      have hle : fuel ≤ max fuel fuel' + p.length :=
        Nat.le_trans (Nat.le_max_left fuel fuel') (Nat.le_add_right _ _)
      have hleft := effects_runScript_of_le hle h
      have hright := effects_runScript_of_le (Nat.le_max_right fuel fuel') h'
      rw [runScript_append]
      rcases effects_ofScript_iff.mp hleft with ⟨hrun, -⟩ | ⟨e, -, hnone⟩
      · rw [hrun]
        exact hright
      · cases hnone

/-- Of two scripts that start at the same column, put on lines of their own, the statements are
those of the first and then those of the second. Running the two comes to what running the first
comes to, if that fails, and otherwise to what running the second comes to in the state that the
first leaves. -/
theorem runsTo_lines {a b : String} {p q : List Stmt} (ha : parse a = .ok p)
    (hb : parse b = .ok q)
    (hcolumn : ∀ i j, firstColumn? a = some i → firstColumn? b = some j → i = j) :
    parse (a ++ "\n" ++ b) = .ok (p ++ q) ∧
      ∀ s failure? s'', RunsTo (a ++ "\n" ++ b) s failure? s'' ↔
        (failure?.isSome = true ∧ RunsTo a s failure? s'') ∨
          ∃ s', RunsTo a s none s' ∧ RunsTo b s' failure? s'' := by
  have hlines := parse_lines ha hb hcolumn
  refine ⟨hlines, fun s failure? s'' => ?_⟩
  rw [runsTo_iff hlines, effects_append_iff, runsTo_iff ha]
  simp only [runsTo_iff ha, runsTo_iff hb]

/-- A name starts at the first column. -/
theorem eq_zero_of_firstColumn? {x : String} (hx : isIdentifier x = true) {i : Nat}
    (h : firstColumn? x = some i) : i = 0 := by
  unfold isIdentifier at hx
  split at hx
  · cases hx
  · next c cs htext =>
    obtain ⟨hc, hcs⟩ := Bool.and_eq_true_iff.mp hx
    have hcut := Lexeme.cut_identifier hc hcs
    have hscan : Lexeme.scan x.toList =
        .ok [⟨Lexeme.wordToken (String.ofList (c :: cs)), c :: cs, 0, false⟩] := by
      rw [htext, Lexeme.scan, Lexeme.scanFrom, hcut]
      dsimp only
      rw [Lexeme.scanFrom]
      rfl
    have hword : Lexeme.wordToken (String.ofList (c :: cs)) ≠ .newline := by
      unfold Lexeme.wordToken
      split <;> simp
    rw [firstColumn?, hscan] at h
    change Lexeme.firstColumn? 0 _ = some i at h
    rw [Lexeme.firstColumn?] at h
    split at h
    · next hfeed => exact absurd hfeed hword
    · cases h
      rfl

/-- Two names on lines of their own. -/
theorem runsTo_lines_names :
    parse "x" = .ok [.expr (.name "x")] ∧ parse "y" = .ok [.expr (.name "y")] ∧
      parse ("x" ++ "\n" ++ "y") = .ok ([.expr (.name "x")] ++ [.expr (.name "y")]) ∧
      ∀ s failure? s'', RunsTo ("x" ++ "\n" ++ "y") s failure? s'' ↔
        (failure?.isSome = true ∧ RunsTo "x" s failure? s'') ∨
          ∃ s', RunsTo "x" s none s' ∧ RunsTo "y" s' failure? s'' := by
  have hx : parse "x" = .ok [.expr (.name "x")] :=
    parse_of_parseExpression (parseExpression_of_isIdentifier rfl rfl)
  have hy : parse "y" = .ok [.expr (.name "y")] :=
    parse_of_parseExpression (parseExpression_of_isIdentifier rfl rfl)
  refine ⟨hx, hy, runsTo_lines hx hy fun i j hi hj => ?_⟩
  rw [eq_zero_of_firstColumn? rfl hi, eq_zero_of_firstColumn? rfl hj]

end ScriptShell
