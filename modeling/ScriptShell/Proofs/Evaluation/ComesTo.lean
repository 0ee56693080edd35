import ScriptShell.Proofs.Evaluation.MoreFuel

/-!
# What runs come to

A run that is given fuel comes to an end if it does so with some amount. What an evaluator comes to
is then told by what those that it uses come to, without a word about fuel.
-/

namespace ScriptShell

/-- A run comes to an end with some amount of fuel. -/
def ComesTo {α : Type} (run : Nat → Run α) (r : Except EvalError α) (s : State) : Prop :=
  ∃ fuel, run fuel = .done r s

/-- A run that comes to an end comes to the same end with more fuel. -/
def Lasts {α : Type} (run : Nat → Run α) : Prop := ∀ n, (run n).EndsAs (run (n + 1))

section

variable {α β : Type} {run : Nat → Run α} {next : Nat → α → State → Run β}

/-- A run that needs no fuel lasts. -/
theorem Lasts.const (run : Run α) : Lasts fun _ => run := fun _ => .refl run

/-- Two runs that last do so one after the other. -/
theorem Lasts.andThen (hrun : Lasts run) (hnext : ∀ a s, Lasts fun n => next n a s) :
    Lasts fun n => (run n).andThen (next n) := fun n => (hrun n).andThen fun a s => hnext a s n

theorem Lasts.mapEnv (hrun : Lasts run) (f : Environment → Environment) :
    Lasts fun n => (run n).mapEnv f := fun n => (hrun n).mapEnv f

theorem Lasts.ite {condition : Prop} [Decidable condition] {run' : Nat → Run α}
    (hrun : Lasts run) (hrun' : Lasts run') :
    Lasts fun n => if condition then run n else run' n := by
  by_cases hc : condition
  · simpa only [if_pos hc] using hrun
  · simpa only [if_neg hc] using hrun'

/-- An end of what lasts is its end with more fuel. -/
theorem Lasts.of_le (hrun : Lasts run) {fuel more : Nat} (hle : fuel ≤ more)
    {r : Except EvalError α} {s : State} (h : run fuel = .done r s) : run more = .done r s :=
  Run.EndsAs.of_le hrun hle r s h

/-- However much fuel there is, a run comes to one end. -/
theorem ComesTo.unique (hrun : Lasts run) {r r' : Except EvalError α} {s s' : State}
    (h : ComesTo run r s) (h' : ComesTo run r' s') : r = r' ∧ s = s' := by
  obtain ⟨fuel, h⟩ := h
  obtain ⟨fuel', h'⟩ := h'
  have hboth := hrun.of_le (Nat.le_max_left fuel fuel') h
  rw [hrun.of_le (Nat.le_max_right fuel fuel') h'] at hboth
  cases hboth
  exact ⟨rfl, rfl⟩

/-! ### Laws -/

/-- A run that is done comes to its end only. -/
theorem comesTo_done {r r' : Except EvalError α} {s s' : State} :
    ComesTo (fun _ => .done r s) r' s' ↔ r = r' ∧ s = s' := by
  constructor
  · rintro ⟨_, h⟩
    cases h
    exact ⟨rfl, rfl⟩
  · rintro ⟨rfl, rfl⟩
    exact ⟨0, rfl⟩

/-- A run that has a value comes to that value only. -/
theorem comesTo_value {a a' : α} {s s' : State} :
    ComesTo (fun _ => .value a s) (.ok a') s' ↔ a = a' ∧ s = s' := by
  refine comesTo_done.trans ?_
  rw [Except.ok.injEq]

/-- A run that is at fault comes to no value. -/
theorem comesTo_fault {e : EvalError} {a : α} {s s' : State} :
    ¬ComesTo (fun _ => .fault e s) (.ok a) s' := by
  rintro ⟨_, h⟩
  cases h

/-- The unit of fuel that an evaluator takes for itself. -/
theorem comesTo_succ (hzero : run 0 = .unfinished) {r : Except EvalError α} {s : State} :
    ComesTo run r s ↔ ComesTo (fun n => run (n + 1)) r s := by
  constructor
  · rintro ⟨fuel, h⟩
    cases fuel with
    | zero =>
      rw [hzero] at h
      cases h
    | succ fuel => exact ⟨fuel, h⟩
  · rintro ⟨fuel, h⟩
    exact ⟨fuel + 1, h⟩

/-- One run after another. -/
theorem comesTo_andThen (hrun : Lasts run) (hnext : ∀ a s, Lasts fun n => next n a s) {b : β}
    {s' : State} :
    ComesTo (fun n => (run n).andThen (next n)) (.ok b) s' ↔
      ∃ a t, ComesTo run (.ok a) t ∧ ComesTo (fun n => next n a t) (.ok b) s' := by
  constructor
  · rintro ⟨fuel, h⟩
    dsimp only at h
    cases hfirst : run fuel with
    | unfinished =>
      rw [hfirst] at h
      cases h
    | done r t =>
      rw [hfirst] at h
      cases r with
      | error e => cases h
      | ok a => exact ⟨a, t, ⟨fuel, hfirst⟩, fuel, h⟩
  · rintro ⟨a, t, ⟨fuel, hfirst⟩, fuel', hsecond⟩
    refine ⟨max fuel fuel', ?_⟩
    dsimp only
    rw [hrun.of_le (Nat.le_max_left fuel fuel') hfirst]
    exact (hnext a t).of_le (Nat.le_max_right fuel fuel') hsecond

/-- What is done to the environment at the end is done to the state that was come to. -/
theorem comesTo_mapEnv {f : Environment → Environment} {r : Except EvalError α} {s' : State} :
    ComesTo (fun n => (run n).mapEnv f) r s' ↔
      ∃ t, ComesTo run r t ∧ s' = { t with env := f t.env } := by
  constructor
  · rintro ⟨fuel, h⟩
    dsimp only at h
    cases hrun : run fuel with
    | unfinished =>
      rw [hrun] at h
      cases h
    | done result t =>
      rw [hrun] at h
      cases h
      exact ⟨t, ⟨fuel, hrun⟩, rfl⟩
  · rintro ⟨t, ⟨fuel, h⟩, rfl⟩
    refine ⟨fuel, ?_⟩
    dsimp only
    rw [h]
    rfl

end

/-! ### The evaluators -/

/-- An end of an expression stays its end with more fuel. -/
theorem eval_lasts (e : Expr) (s : State) : Lasts fun n => eval n e s :=
  fun n => (lastsWith n).eval e s

/-- An end of the pairs of a dict stays their end with more fuel. -/
theorem evalPairs_lasts (pairs : List (Expr × Expr)) (es : Entries Value) (s : State) :
    Lasts fun n => evalPairs n pairs es s := fun n => (lastsWith n).evalPairs pairs es s

/-- An end of statements in a row stays their end with more fuel. -/
theorem block_lasts (script : List Stmt) (s : State) : Lasts fun n => block n script s :=
  fun n => (lastsWith n).block script s

/-- An end of a choice stays its end with more fuel. -/
theorem choose_lasts (branches : List (Expr × List Stmt)) (otherwise : Option (List Stmt))
    (s : State) : Lasts fun n => choose n branches otherwise s :=
  fun n => (lastsWith n).choose branches otherwise s

/-- An end of a loop stays its end with more fuel. -/
theorem loopWhile_lasts (c : Expr) (body : List Stmt) (s : State) :
    Lasts fun n => loopWhile n c body s := fun n => (lastsWith n).loopWhile c body s

/-- An end of a loop over items stays its end with more fuel. -/
theorem loopFor_lasts (x : String) (items : Value.Items) (body : List Stmt) (s : State) :
    Lasts fun n => loopFor n x items body s := fun n => (lastsWith n).loopFor x items body s

/-- An end of a statement stays its end with more fuel. -/
theorem exec_lasts (st : Stmt) (s : State) : Lasts fun n => exec n st s :=
  fun n => (lastsWith n).exec st s

end ScriptShell
