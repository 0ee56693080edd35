import ScriptShell.Program.Installed
import ScriptShell.Proofs.Command.FrameDiscipline
import ScriptShell.Proofs.Evaluation.DictBuilding
import ScriptShell.Proofs.Evaluation.Discipline
import ScriptShell.Session.Interaction

/-!
# Dicts of a session

Whatever a session runs, no key stands twice in a dict, in what is bound and in what commands come
to. So the dicts of a session are maps that remember the order of their keys, and a display and a
series of assignments that give the same entries build the same one.
-/

namespace ScriptShell

section

variable {Q : Value → Prop}

/-- The discipline that allows everything, for a class of values that has all functions. -/
def Discipline.free (stable : Value.Stable Q) (functions : ∀ serial f, Q (.function serial f)) :
    Discipline Q where
  allows _ _ := True
  departs _ _ := True
  fails _ := True
  stable := stable
  leave _ := trivial
  next _ := trivial
  giveBack _ := trivial
  define _ serial := functions serial _
  branch _ _ _ _ _ := trivial
  otherwise _ _ _ := trivial
  loopWhile _ _ _ := trivial
  loopFor _ _ _ := trivial
  handOn _ := trivial
  called _ _ _ := trivial
  ordinary _ := trivial
  leftBody _ _ := trivial
  leftScript _ := trivial

/-! ### Running commands -/

/-- What is bound is of a class throughout, and so is the value of an outcome, if it is one. -/
def KeepsValues (Q : Value → Prop) (outcome : Outcome) (s : State) : Prop :=
  s.env.Throughout Q ∧ ∀ v, outcome = .value v → v.Throughout Q

variable (stable : Value.Stable Q) (functions : ∀ serial f, Q (.function serial f))
include stable functions

theorem keepsValues_runNative {fuel : Nat} {text : String} {s s' : State} {outcome : Outcome}
    (h : runNative fuel text s = some (outcome, s')) (hs : s.env.Throughout Q) :
    KeepsValues Q outcome s' := by
  have hobeys := obeysWith (.free stable functions) fuel
  unfold runNative at h
  split at h
  · next e _ =>
    cases hrun : eval fuel e s with
    | unfinished =>
      rw [hrun] at h
      cases h
    | done r left =>
      obtain ⟨hleft, hgives, -⟩ := hobeys.eval e s hs r left hrun
      rw [hrun] at h
      cases r with
      | error e =>
        cases h
        exact ⟨hleft, nofun⟩
      | ok v =>
        cases h
        refine ⟨hleft, fun w hw => ?_⟩
        cases hw
        exact hgives v rfl
  · split at h
    · next p _ =>
      cases hrun : runScript fuel p s with
      | unfinished =>
        rw [hrun] at h
        cases h
      | done r left =>
        obtain ⟨hleft, -, -⟩ := obeys_runScript (.free stable functions) fuel
          (fun _ _ => trivial) hs r left hrun
        rw [hrun] at h
        cases r <;> cases h <;> exact ⟨hleft, nofun⟩
    · cases h
      exact ⟨hs, nofun⟩

omit stable functions in
theorem runShell_ne_value {σ : Type} (runner : Runner σ) (c : Config) (command : String)
    (w : World) (memory : σ) (v : Value) :
    (runShell runner c command w memory).1 ≠ .value v := by
  unfold runShell
  cases Piece.textsOfLine (Alias.apply c.aliases command) with
  | nil => exact nofun
  | cons name args =>
    dsimp only
    generalize runner.run (name :: args) c.captureOutput w memory = answer
    obtain ⟨result, world, memory⟩ := answer
    cases result <;> exact nofun

namespace Session

variable {σ : Type} {runner : Runner σ} {c : Config} {command : String} {s s' : Session σ}

omit stable functions in
/-- The command of a program comes to no value, and it binds nothing. -/
theorem keepsValues_runShell (hs : s.state.env.Throughout Q) :
    KeepsValues Q (s.runShell runner c command).1 (s.runShell runner c command).2.state :=
  ⟨hs, fun v hv => absurd hv (runShell_ne_value runner c command s.state.world s.memory v)⟩

omit stable functions in
theorem keepsValues_retry {outcome : Outcome} (h : KeepsValues Q outcome s.state) :
    KeepsValues Q (s.retry runner c command outcome).1
      (s.retry runner c command outcome).2.state := by
  obtain ⟨hstate, hvalue⟩ : KeepsValues Q (s.runShell runner c command).1
      (s.runShell runner c command).2.state := keepsValues_runShell h.1
  refine ⟨hstate, fun v hv => ?_⟩
  unfold retry at hv
  dsimp only at hv
  split at hv
  · exact h.2 v hv
  · exact hvalue v hv

theorem keepsValues_dispatch {fuel : Nat} {report : Report}
    (h : s.dispatch runner c fuel command = some (report, s')) (hs : s.state.env.Throughout Q) :
    KeepsValues Q report.outcome s'.state := by
  have hattempt : ∀ {route : Route} {outcome state},
      route.attempt? fuel command s.state = some (some (outcome, state)) →
        KeepsValues Q outcome state := by
    intro route outcome state hrun
    rcases Route.runNative_of_attempt? hrun with ⟨rfl, f, rfl⟩ | ⟨text, hrun⟩
    · exact ⟨hs, nofun⟩
    · exact keepsValues_runNative stable functions hrun hs
  cases dispatched_of_dispatch h with
  | program _ answer =>
    cases answer
    exact keepsValues_runShell hs
  | script _ attempt _ => exact hattempt attempt
  | again _ _ attempt _ answer =>
    cases answer
    exact keepsValues_retry (s := ⟨_, s.memory⟩) (hattempt attempt)

/-- What is bound after a sequence of commands is of the class. -/
theorem Reaches.throughout (h : Reaches runner s s') (hs : s.state.env.Throughout Q) :
    s'.state.env.Throughout Q := by
  induction h with
  | refl => exact hs
  | dispatch _ hstep ih => exact (keepsValues_dispatch stable functions hstep ih).1

end Session

end

/-! ### Distinct keys -/

theorem hasDistinctKeys_function (serial : Nat) (f : Function) :
    Value.HasDistinctKeys (.function serial f) := nofun

/-- In every environment that commands lead to from the start of a session, and in every value that
they come to, no key stands twice in a dict, at any depth. The display of entries with string keys
and the assignments of them as items to a dict that is empty at first build the same dict: its keys
stand in the order of their first occurrence, each with its last value, and by all ways to ask for
its entries it answers so. -/
theorem dicts_are_maps :
    (∀ {σ : Type} (runner : Runner σ) (start s : Session σ),
      start.state.env = .withBuiltins → Session.Reaches runner start s →
        s.state.env.Throughout Value.HasDistinctKeys ∧
          ∀ c fuel command report s', s.dispatch runner c fuel command = some (report, s') →
            ∀ v, report.outcome = .value v → v.Throughout Value.HasDistinctKeys) ∧
      ∀ entries : Entries Value, ∃ es : Entries Value,
        (Value.dict es).AnswersAs entries.keys.eraseDups
            (fun key => Entries.find? key entries.reverse) ∧
          es.keys = entries.keys.eraseDups ∧
          ∀ (d : String) (s : State) (pairs : List (Expr × Expr)),
            List.Forall₂ (fun pair entry => Expr.PairEvaluatesTo s pair entry ∧
              ∀ w, Expr.PairEvaluatesTo (s.bind d w) pair entry) pairs entries →
            Expr.EvaluatesTo (.dict pairs) (.dict es) s ∧
              ComesTo (fun fuel => runScript fuel (.assign d none (.dict []) ::
                pairs.map fun pair => .setItem d pair.1 pair.2) s) (.ok ())
                (s.bind d (.dict es)) := by
  refine ⟨fun runner start s hstart hreaches => ?_, fun entries =>
    ⟨Entries.insertAll [] entries, ?_, Entries.keys_insertAll_nil entries,
      fun d s pairs hpairs => ⟨?_, ?_⟩⟩⟩
  · have hs : s.state.env.Throughout Value.HasDistinctKeys := by
      refine hreaches.throughout Value.stable_hasDistinctKeys hasDistinctKeys_function ?_
      rw [hstart]
      exact Value.stable_hasDistinctKeys.withBuiltins
    exact ⟨hs, fun c fuel command report s' hdispatch =>
      (Session.keepsValues_dispatch Value.stable_hasDistinctKeys hasDistinctKeys_function hdispatch
        hs).2⟩
  · have hanswers := Value.answersAs_dict (Entries.insertAll [] entries)
    simp only [Entries.keys_insertAll_nil, Entries.find?_insertAll_nil] at hanswers
    exact hanswers
  · exact comesTo_display (hpairs.imp fun _ _ h => h.1)
  · exact comesTo_assignments (hpairs.imp fun _ _ h => h.2)

/-- The environment at the start, and a dict with one key given twice. -/
theorem dicts_are_maps_twice :
    let start : Session Unit := .start (.installed 0 "/")
    let pairs : List (Expr × Expr) :=
      [(.str "a", .int 1), (.str "b", .none), (.str "a", .bool true)]
    start.state.env.Throughout Value.HasDistinctKeys ∧
      ∃ es : Entries Value, es.keys = ["a", "b"] ∧
        (Value.dict es).get? "a" = some (.bool true) ∧
        Expr.EvaluatesTo (.dict pairs) (.dict es) start.state ∧
        ComesTo (fun fuel => runScript fuel (.assign "d" none (.dict []) ::
          pairs.map fun pair => .setItem "d" pair.1 pair.2) start.state) (.ok ())
          (start.state.bind "d" (.dict es)) := by
  intro start pairs
  refine ⟨(dicts_are_maps.1 .system start start rfl (.refl start)).1, ?_⟩
  obtain ⟨es, hanswers, hkeys, hbuild⟩ :=
    dicts_are_maps.2 [("a", .int 1), ("b", .none), ("a", .bool true)]
  have hpair : ∀ (k : String) (e : Expr) (v : Value),
      (∀ t, eval 1 e t = .value v t) → ∀ t, Expr.PairEvaluatesTo t (.str k, e) (k, v) :=
    fun k e v heval t => ⟨⟨1, rfl⟩, 1, heval t⟩
  obtain ⟨hdisplay, hassign⟩ := hbuild "d" start.state pairs
    (.cons ⟨hpair _ _ _ (fun _ => rfl) _, fun _ => hpair _ _ _ (fun _ => rfl) _⟩
      (.cons ⟨hpair _ _ _ (fun _ => rfl) _, fun _ => hpair _ _ _ (fun _ => rfl) _⟩
        (.cons ⟨hpair _ _ _ (fun _ => rfl) _, fun _ => hpair _ _ _ (fun _ => rfl) _⟩ .nil)))
  refine ⟨es, hkeys.trans (by decide), ?_, hdisplay, hassign⟩
  rw [hanswers.get?]
  rfl

end ScriptShell
