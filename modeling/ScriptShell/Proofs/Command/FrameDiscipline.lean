import ScriptShell.Proofs.Command.NativeRun
import ScriptShell.Proofs.Command.RunnerCalls
import ScriptShell.Proofs.Evaluation.Visited

/-!
# Frames across commands

What evaluation keeps of an environment, every way of running a command keeps, and so does any
sequence of commands: however they end, the next command starts at the level of the session, with
the built-in functions in place and every name of the session still bound.
-/

namespace ScriptShell

/-! ### Ways of running a command -/

/-- Where an attempt comes to an end, it keeps what statements keep. -/
def Attempt.Keeps (s : State) (attempt : Attempt) : Prop :=
  ∀ outcome s', attempt = some (outcome, s') → KeptOutside s.env s'.env

theorem keeps_runScript (fuel : Nat) (script : List Stmt) (s : State) :
    (runScript fuel script s).Keeps KeptOutside s := by
  refine ((keepsWith fuel).block script s).thenStmt fun flow s' => ?_
  split
  · exact keepsOutside_result _ s'
  · exact keepsOutside_result _ s'

theorem keeps_runNative (fuel : Nat) (text : String) (s : State) :
    (runNative fuel text s).Keeps s := by
  intro outcome s' h
  rcases cases_of_runNative h with rfl | ⟨e, r, _, hrun⟩ | ⟨p, r, _, hrun⟩
  · exact .refl _
  · exact ((keepsWith fuel).eval e s r s' hrun).outside
  · exact keeps_runScript fuel p s r s' hrun

/-! ### Dispatching -/

namespace Session

variable {σ : Type} (runner : Runner σ) (c : Config)

/-- A dispatched command keeps what statements keep, whichever route it goes and however it ends. -/
theorem keeps_dispatch {fuel : Nat} {command : String} {s s' : Session σ} {report : Report}
    (h : s.dispatch runner c fuel command = some (report, s')) :
    KeptOutside s.state.env s'.state.env := by
  rcases exists_runNative_of_dispatch h with henv | ⟨text, outcome, state, hrun, henv⟩
  · rw [henv]
    exact .refl _
  · rw [henv]
    exact keeps_runNative fuel text s.state outcome state hrun

/-- A session is reached from another one by dispatching commands, each with any configuration and
any fuel with which it comes to an end. -/
inductive Reaches (runner : Runner σ) : Session σ → Session σ → Prop where
  | refl (s : Session σ) : Reaches runner s s
  | dispatch {s s' s'' : Session σ} {c : Config} {fuel : Nat} {command : String}
      {report : Report} : Reaches runner s s' →
      s'.dispatch runner c fuel command = some (report, s'') → Reaches runner s s''

/-- A sequence of commands keeps what statements keep. -/
theorem Reaches.kept {runner : Runner σ} {s s' : Session σ} (h : Reaches runner s s') :
    KeptOutside s.state.env s'.state.env := by
  induction h with
  | refl => exact .refl _
  | dispatch _ hstep ih => exact ih.trans (keeps_dispatch runner _ hstep)

end Session

/-! ### The session from its start -/

/-- The globals are built-in functions. -/
def Environment.GlobalsBuiltin (env : Environment) : Prop :=
  ∀ x ∈ env.globals, ∃ b, x.2 = .builtin b

/-- In the environment that a session starts with the globals are built-in functions. -/
theorem globalsBuiltin_withBuiltins : Environment.withBuiltins.GlobalsBuiltin := by
  unfold Environment.withBuiltins
  have hempty : Environment.empty.GlobalsBuiltin := nofun
  revert hempty
  generalize Environment.empty = env
  induction Builtin.all generalizing env with
  | nil => exact id
  | cons b bs ih =>
    intro henv
    refine ih _ fun x hx => ?_
    rcases Entries.mem_insert hx with hx | hx
    · exact henv x hx
    · exact ⟨b, hx⟩

/-- Evaluating an expression, whether to a value or to a fault, leaves the frames as they were, and
so the depth; binds and unbinds no name of the session and changes values of the session in place
only; leaves globals that are built-in functions as they are; and does not take back a request to
end the session. The runs that a task is said to start are those that the evaluator starts for it:
the task comes to an end exactly if all of them do, each in its state and with one unit of fuel less.
The evaluation goes only through states with no more calls under way than there may be: every task
that it starts, directly or not, starts in one and ends in one, and where the most calls are under
way no body of a function is started, but the call is refused. And from the start of a session every
sequence of commands comes back to its level, with the same globals, and with every name still bound
that was bound on the way. -/
theorem frame_discipline :
    (∀ fuel e (s s' : State) r, eval fuel e s = .done r s' →
      s'.env.depth = s.env.depth ∧ s'.env.frames = s.env.frames ∧
        s'.env.locals.keys = s.env.locals.keys ∧ ScopeKept s.env.locals s'.env.locals ∧
        (s.env.GlobalsBuiltin → s'.env.globals = s.env.globals) ∧
        (s.env.exitRequested = true → s'.env.exitRequested = true)) ∧
    (∀ fuel task s, (task.end? (fuel + 1) s).isSome = true ↔
      ∀ task' s', Task.Starts fuel task s task' s' → (task'.end? fuel s').isSome = true) ∧
    (∀ fuel f args (s : State), greatestDepth ≤ s.env.depth →
      ∃ e, callFunction (fuel + 1) f args s = .fault e s) ∧
    (∀ fuel e (s : State), s.env.depth ≤ greatestDepth →
      ∀ fuel' task s', Task.Visits fuel (.expr e) s fuel' task s' →
        s'.env.depth ≤ greatestDepth ∧
          ∀ s'', task.end? fuel' s' = some s'' → s''.env.depth ≤ greatestDepth) ∧
    (∀ (σ : Type) (runner : Runner σ) (start s s' : Session σ),
      start.state.env = .withBuiltins → Session.Reaches runner start s →
      Session.Reaches runner s s' →
        s.state.env.depth = 0 ∧ s.state.env.globals = Environment.withBuiltins.globals ∧
          s.state.env.locals.keys <+: s'.state.env.locals.keys) := by
  refine ⟨fun fuel e s s' r h => ?_, fun fuel task s => Task.isSome_end?_succ_iff,
    fun fuel f args s hdeep => exists_callFunction_fault hdeep fuel f args,
    fun fuel e s hs fuel' task s' h => ?_, fun σ runner start s s' hstart h h' => ?_⟩
  · have hkept := (keepsWith fuel).eval e s r s' h
    exact ⟨hkept.outside.depth, hkept.frames, hkept.locals.keys_eq, hkept.locals,
      hkept.globals.eq_of_builtins, hkept.exit⟩
  · have hdepth := h.depth_le hs
    refine ⟨hdepth, fun s'' hend => ?_⟩
    rw [Task.depth_of_end? hend]
    exact hdepth
  · have hkept := h.kept
    rw [hstart] at hkept
    exact ⟨hkept.depth, hkept.globals.eq_of_builtins globalsBuiltin_withBuiltins, h'.kept.bound⟩

end ScriptShell
