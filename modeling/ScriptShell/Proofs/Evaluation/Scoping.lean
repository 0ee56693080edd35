import ScriptShell.Program.Installed
import ScriptShell.Proofs.Evaluation.Departures
import ScriptShell.Proofs.Evaluation.Discipline
import ScriptShell.Proofs.Value.Functions

/-!
# Scoping

A script is well scoped if `break` and `continue` stand only in loops and `return` only in
functions. Such a script, run where all functions are well scoped, never fails because a departure
is out of place: what may end the statements at a place is what a loop or function around the place
takes up.
-/

namespace ScriptShell

/-- Whether a departure has what takes it up around a place. -/
def Place.admits (p : Place) : Departure → Bool
  | .leave | .next => p.inLoop
  | .giveBack => p.inFunction

/-- In a statement at a place `break` and `continue` stand only in loops of the same function, and
`return` stands only in functions. -/
inductive Stmt.WellScoped : Place → Stmt → Prop where
  | expr (p : Place) (e : Expr) : WellScoped p (.expr e)
  | assign (p : Place) (name : String) (op : Option Operator) (e : Expr) :
      WellScoped p (.assign name op e)
  | setItem (p : Place) (name : String) (i e : Expr) : WellScoped p (.setItem name i e)
  | define (p : Place) (name : String) (params : List String) {body : List Stmt}
      (inside : ∀ st ∈ body, WellScoped .body st) : WellScoped p (.define name params body)
  | choose {p : Place} {branches : List (Expr × List Stmt)} {otherwise : Option (List Stmt)}
      (inside : ∀ branch ∈ branches, ∀ st ∈ branch.2, WellScoped p st)
      (insideOtherwise : ∀ body, otherwise = some body → ∀ st ∈ body, WellScoped p st) :
      WellScoped p (.choose branches otherwise)
  | loopWhile {p : Place} (c : Expr) {body : List Stmt}
      (inside : ∀ st ∈ body, WellScoped p.loop st) : WellScoped p (.loopWhile c body)
  | loopFor {p : Place} (name : String) (e : Expr) {body : List Stmt}
      (inside : ∀ st ∈ body, WellScoped p.loop st) : WellScoped p (.loopFor name e body)
  | giveBack {p : Place} (value : Option Expr) (placed : p.admits .giveBack = true) :
      WellScoped p (.giveBack value)
  | leave {p : Place} (placed : p.admits .leave = true) : WellScoped p .leave
  | next {p : Place} (placed : p.admits .next = true) : WellScoped p .next
  | pass (p : Place) : WellScoped p .pass

/-- A function whose body is well scoped. -/
def Function.WellScoped (f : Function) : Prop := ∀ st ∈ f.body, st.WellScoped .body

/-- The discipline of well-scoped statements: only departures that are admitted end them, and no
departure is out of place. -/
def scoping : Discipline (Value.IsOf Function.WellScoped) where
  allows := Stmt.WellScoped
  departs p d := p.admits d = true
  fails e := e.category ≠ .syntaxError
  stable := Value.stable_isOf
  leave h := by cases h with | leave placed => exact placed
  next h := by cases h with | next placed => exact placed
  giveBack h := by cases h with | giveBack _ placed => exact placed
  define h serial := by
    cases h with
    | define _ _ _ inside =>
      rintro _ _ ⟨⟩
      exact inside
  branch h := by cases h with | choose inside _ => exact inside
  otherwise h := by cases h with | choose _ insideOtherwise => exact insideOtherwise _ rfl
  loopWhile h := by cases h with | loopWhile _ inside => exact inside
  loopFor h := by cases h with | loopFor _ _ inside => exact inside
  handOn h := h
  called h := h _ _ rfl
  ordinary h := h
  leftBody {d} h hne := by
    cases d with
    | giveBack => exact absurd rfl hne
    | leave | next => cases h
  leftScript {d} h := by cases d <;> cases h

/-! ### Where departures go -/

/-- Each departure is taken up by the innermost loop or call around it, if that takes it up. -/
structure TakenUpInnermost : Prop where
  /-- A departure ends the statements that it stands among. -/
  block : ∀ script s flow s', flow ≠ .normal →
    (ComesTo (fun fuel => block fuel script s) (.ok flow) s' ↔
      ∃ before st after t, script = before ++ st :: after ∧
        ComesTo (fun fuel => ScriptShell.block fuel before s) (.ok .normal) t ∧
          ComesTo (fun fuel => exec fuel st t) (.ok flow) s')
  /-- A choice hands on what ends its branch. -/
  choose : ∀ branches otherwise s flow s',
    ComesTo (fun fuel => exec fuel (.choose branches otherwise) s) (.ok flow) s' ↔
      ∃ body t, Chosen branches otherwise s body t ∧
        ComesTo (fun fuel => ScriptShell.block fuel body t) (.ok flow) s'
  /-- A `while` loop takes up `break` and `continue` from its rounds and hands on `return`. -/
  loopWhile : ∀ c body s flow s',
    ComesTo (fun fuel => exec fuel (.loopWhile c body) s) (.ok flow) s' ↔
      LoopEnds (WhileOver c) (WhileRound c body) id s flow s'
  /-- A `for` loop takes up `break` and `continue` from its rounds and hands on `return`. -/
  loopFor : ∀ x e body s flow s',
    ComesTo (fun fuel => exec fuel (.loopFor x e body) s) (.ok flow) s' ↔
      ∃ v items t, ComesTo (fun fuel => eval fuel e s) (.ok v) t ∧ v.iterate = .ok items ∧
        LoopEnds ForOver (ForRound x body) Prod.snd (items, t) flow s'
  /-- What ends a loop is never `break` nor `continue`. -/
  looped : ∀ st, (∃ c body, st = .loopWhile c body) ∨ (∃ x e body, st = .loopFor x e body) →
    ∀ s flow s', ComesTo (fun fuel => exec fuel st s) (.ok flow) s' →
      flow = .normal ∨ ∃ v, flow = .giveBack v
  /-- A call takes up `return` from the body of its function. -/
  call : ∀ f args s v s',
    ComesTo (fun fuel => callFunction fuel f args s) (.ok v) s' ↔
      args.length = f.params.length ∧ s.env.depth < greatestDepth ∧
        ∃ flow t,
          ComesTo (fun fuel => ScriptShell.block fuel f.body (f.entered args s)) (.ok flow) t ∧
          (flow = .giveBack v ∨ flow = .normal ∧ v = .none) ∧
          s' = { t with env := t.env.popFrame }

theorem loopFor_ends_iff {x : String} {e : Expr} {body : List Stmt} {s s' : State} {flow : Flow} :
    ComesTo (fun fuel => exec fuel (.loopFor x e body) s) (.ok flow) s' ↔
      ∃ v items t, ComesTo (fun fuel => eval fuel e s) (.ok v) t ∧ v.iterate = .ok items ∧
        LoopEnds ForOver (ForRound x body) Prod.snd (items, t) flow s' := by
  refine (comesTo_succ rfl).trans ((comesTo_andThen (eval_lasts e s) fun v t => ?_).trans ?_)
  · cases v.iterate with
    | ok items => exact loopFor_lasts x items body t
    | error e => exact .const _
  constructor
  · rintro ⟨v, t, hvalue, hloop⟩
    cases hitems : v.iterate with
    | ok items =>
      simp only [hitems] at hloop
      exact ⟨v, items, t, hvalue, hitems, loopFor_comesTo_iff.mp hloop⟩
    | error e =>
      simp only [hitems] at hloop
      exact absurd hloop comesTo_fault
  · rintro ⟨v, items, t, hvalue, hitems, hloop⟩
    refine ⟨v, t, hvalue, ?_⟩
    simp only [hitems]
    exact loopFor_comesTo_iff.mpr hloop

theorem loopWhile_ends_iff {c : Expr} {body : List Stmt} {s s' : State} {flow : Flow} :
    ComesTo (fun fuel => exec fuel (.loopWhile c body) s) (.ok flow) s' ↔
      LoopEnds (WhileOver c) (WhileRound c body) id s flow s' :=
  (comesTo_succ rfl).trans loopWhile_comesTo_iff

theorem takenUpInnermost : TakenUpInnermost where
  block _ _ _ _ hflow := block_departs_iff hflow
  choose _ _ _ _ _ := (comesTo_succ rfl).trans choose_comesTo_iff
  loopWhile _ _ _ _ _ := loopWhile_ends_iff
  loopFor _ _ _ _ _ _ := loopFor_ends_iff
  looped st hst s flow s' h := by
    rcases hst with ⟨c, body, rfl⟩ | ⟨x, e, body, rfl⟩
    · exact (loopWhile_ends_iff.mp h).normal_or_giveBack
    · obtain ⟨v, items, t, -, -, hloop⟩ := loopFor_ends_iff.mp h
      exact hloop.normal_or_giveBack
  call _ _ _ _ _ := callFunction_comesTo_iff

/-- A well-scoped script that is run where all functions are well scoped never fails because a
departure is out of place, and all functions that it leaves behind are well scoped. Only a departure
that something around their place takes up ends well-scoped statements; and `break`, `continue` and
`return` are taken up by the innermost loop or call around them. -/
theorem wellScoped_never_misplaced {script : List Stmt} {s : State}
    (hscript : ∀ st ∈ script, st.WellScoped .top) (hs : s.env.HoldsOnly Function.WellScoped) :
    (∀ fuel r s', runScript fuel script s = .done r s' →
      (∀ e, r = .error e → e.category ≠ .syntaxError) ∧
        s'.env.HoldsOnly Function.WellScoped) ∧
      (∀ p body t, (∀ st ∈ body, st.WellScoped p) → t.env.HoldsOnly Function.WellScoped →
        ∀ flow t', ComesTo (fun fuel => block fuel body t) (.ok flow) t' →
          ∀ d, flow.departure? = some d → p.admits d = true) ∧
      TakenUpInnermost := by
  refine ⟨fun fuel r s' hrun => ?_, fun p body t hbody ht flow t' hends d hd => ?_,
    takenUpInnermost⟩
  · obtain ⟨hleft, -, hfails⟩ := obeys_runScript scoping fuel hscript
      (Environment.holdsOnly_iff.mp hs) r s' hrun
    exact ⟨hfails, Environment.holdsOnly_iff.mpr hleft⟩
  · obtain ⟨fuel, hrun⟩ := hends
    obtain ⟨-, hgives, -⟩ := (obeysWith scoping fuel).block p body t hbody
      (Environment.holdsOnly_iff.mp ht) _ _ hrun
    exact (hgives flow rfl).departs d hd

/-- A function that is defined in a loop and gives back a value out of a loop, and a loop that is
left from a branch. -/
theorem wellScoped_never_misplaced_first :
    let first : Function :=
      ⟨"first", ["xs"], [.loopFor "x" (.name "xs") [.giveBack (some (.name "x"))]]⟩
    let script : List Stmt := [.loopWhile (.bool true) [.define first.name first.params first.body,
      .choose [(.call (.name "first") [.list [.int 1]], [.leave])] (some [.next])]]
    let s : State := ⟨.withBuiltins, .installed 0 "/"⟩
    (∀ st ∈ script, st.WellScoped .top) ∧ s.env.HoldsOnly Function.WellScoped ∧
      ∀ fuel r s', runScript fuel script s = .done r s' →
        (∀ e, r = .error e → e.category ≠ .syntaxError) ∧
          s'.env.HoldsOnly Function.WellScoped := by
  intro first script s
  have hfirst : first.WellScoped := List.forall_mem_singleton.mpr
    (.loopFor _ _ (List.forall_mem_singleton.mpr (.giveBack _ rfl)))
  have hscript : ∀ st ∈ script, st.WellScoped .top := by
    refine List.forall_mem_singleton.mpr (.loopWhile _ (List.forall_mem_cons.mpr
      ⟨.define _ _ _ hfirst, List.forall_mem_singleton.mpr (.choose ?_ ?_)⟩))
    · exact List.forall_mem_singleton.mpr (List.forall_mem_singleton.mpr (.leave rfl))
    · rintro _ ⟨⟩
      exact List.forall_mem_singleton.mpr (.next rfl)
  have hs : s.env.HoldsOnly Function.WellScoped :=
    Environment.holdsOnly_iff.mpr Value.stable_isOf.withBuiltins
  exact ⟨hscript, hs, (wellScoped_never_misplaced hscript hs).1⟩

end ScriptShell
