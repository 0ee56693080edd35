import ScriptShell.Proofs.Command.CallSyntax
import ScriptShell.Proofs.Command.FrameDiscipline
import ScriptShell.Proofs.Evaluation.BoundNames
import ScriptShell.Proofs.Script.Acceptance

/-!
# Names of a session

What a command does to what is bound it does by running a text as a script, and a script binds names
that stand in it. A keyword is never read as a name, so no sequence of commands binds one.
-/

namespace ScriptShell

/-! ### Names in scripts -/

/-- A name that is cut off is no keyword. -/
theorem Lexeme.ofText?_of_cut {c : Char} {cs : List Char} {x : String}
    (h : (cut c cs).reading = .token (.identifier x)) : Keyword.ofText? x = none := by
  have hinteger : ∀ digits left,
      (cutNumber.cutInteger digits left).reading ≠ .token (.identifier x) := by
    intro digits left hread
    unfold cutNumber.cutInteger at hread
    split at hread <;> cases hread
  unfold cut at h
  split at h
  · cases h
  split at h
  · cases h
  split at h
  · cases h
  split at h
  · unfold cutString at h
    split at h <;> cases h
  split at h
  · unfold cutNumber at h
    dsimp only at h
    split at h
    · split at h
      · cases h
      · exact absurd h (hinteger _ _)
    · exact absurd h (hinteger _ _)
  split at h
  · unfold wordToken at h
    split at h
    · cases h
    · next hnone =>
      cases h
      exact hnone
  · unfold cutSymbol at h
    split at h
    · cases h
    · split at h <;> cases h

/-- Among the tokens that a text is cut into a name is no keyword. -/
theorem Lexeme.ofText?_of_mem_lexed {cs : List Char} {ts : List Token} (h : lexed cs = some ts)
    {x : String} (hx : .identifier x ∈ ts) : Keyword.ofText? x = none := by
  fun_induction lexed cs generalizing ts with
  | case1 =>
    cases h
    cases hx
  | case2 => cases h
  | case3 c cs _ ih => exact ih h hx
  | case4 c cs t hread ih =>
    obtain ⟨ts', hts', rfl⟩ := Option.map_eq_some_iff.mp h
    rcases List.mem_cons.mp hx with rfl | hx
    · exact ofText?_of_cut hread
    · exact ih hts' hx

/-- A name that a script binds is no keyword. -/
theorem bindsOnly_of_parse {text : String} {p : List Stmt} (h : parse text = .ok p) :
    ∀ st ∈ p, Stmt.BindsOnly (fun x => Keyword.ofText? x = none) st := by
  obtain ⟨placed, hplaced, hread⟩ := (readSource_eq_ok_iff _ _ _).mp h
  have hd := (script_iff_derives _ _).mp hread
  obtain ⟨ls, hls, hrun⟩ := exists_run_of_tokenize hplaced fun t ht =>
    hd.isNoFlag _ (List.mem_map_of_mem ht)
  refine hd.bindsOnly fun x hx => Lexeme.ofText?_of_mem_lexed hls ?_
  have hcontent : .identifier x ∈ Token.content (placed.map PlacedToken.token) :=
    List.mem_filter.mpr ⟨hx, rfl⟩
  rw [Layout.content_of_run hrun] at hcontent
  exact (List.mem_filter.mp hcontent).1

/-! ### What a command does -/

/-- A text that is run as a script binds no keyword for the session. -/
theorem gains_runNative {fuel : Nat} {text : String} {s s' : State} {outcome : Outcome}
    (h : runNative fuel text s = some (outcome, s')) :
    Gains (fun x => Keyword.ofText? x = none) s.env s'.env := by
  rcases cases_of_runNative h with rfl | ⟨e, r, _, hrun⟩ | ⟨p, r, hparse, hrun⟩
  · exact .refl _
  · exact .of_kept ((keepsWith fuel).eval e s r s' hrun)
  · exact gains_runScript (bindsOnly_of_parse hparse) s r s' hrun

namespace Session

variable {σ : Type} {runner : Runner σ} {c : Config} {fuel : Nat} {command : String}
  {s s' : Session σ} {report : Report}

/-- A dispatched command binds no keyword for the session. -/
theorem gains_dispatch (h : s.dispatch runner c fuel command = some (report, s')) :
    Gains (fun x => Keyword.ofText? x = none) s.state.env s'.state.env := by
  rcases exists_runNative_of_dispatch h with henv | ⟨text, outcome, state, hrun, henv⟩
  · rw [henv]
    exact .refl _
  · rw [henv]
    exact gains_runNative hrun

/-- A sequence of commands binds no keyword for the session. -/
theorem Reaches.gains (h : Reaches runner s s') :
    Gains (fun x => Keyword.ofText? x = none) s.state.env s'.state.env := by
  induction h with
  | refl => exact .refl _
  | dispatch _ hstep ih => exact ih.trans (gains_dispatch hstep)

end Session

/-! ### The environments of a session -/

/-- An environment that some sequence of commands leads to from the start of a session. -/
def Environment.Reachable (env : Environment) : Prop :=
  ∃ (σ : Type) (runner : Runner σ) (start s : Session σ),
    start.state.env = .withBuiltins ∧ Session.Reaches runner start s ∧ s.state.env = env

theorem Keyword.ofText?_text (k : Keyword) : Keyword.ofText? k.text = some k := by
  cases k <;> rfl

/-- No sequence of commands binds a keyword. -/
theorem Environment.Reachable.binds_keyword {env : Environment} (h : env.Reachable)
    (k : Keyword) : env.binds k.text = false := by
  obtain ⟨σ, runner, start, s, hstart, hreach, rfl⟩ := h
  have hkept := hreach.kept
  have hgains := hreach.gains
  rw [hstart] at hkept hgains
  have hframes : s.state.env.frames = [] := List.eq_nil_of_length_eq_zero hkept.depth
  have hglobals := hkept.globals.eq_of_builtins globalsBuiltin_withBuiltins
  have hlocals : s.state.env.locals.find? k.text = none := by
    rw [← Option.not_isSome_iff_eq_none]
    intro hhas
    rcases hgains k.text (Entries.has_iff_mem_keys.mp hhas) with hmem | hname
    · cases hmem
    · rw [Keyword.ofText?_text] at hname
      cases hname
  have hstartUnbound := withBuiltins_binds_keyword k
  unfold Environment.binds Environment.get? at hstartUnbound ⊢
  rw [hframes, hlocals, hglobals]
  exact hstartUnbound

end ScriptShell
