import Mathlib.Data.List.Forall2
import ScriptShell.Proofs.Evaluation.ComesTo
import ScriptShell.Proofs.Value.Keys

/-!
# Building dicts

A dict display and the assignments of items to a dict that is empty at first insert the same entries
in the same order, so they build the same dict.
-/

namespace ScriptShell

/-! ### Names that are bound again -/

namespace Environment

theorem get?_set (name : String) (v : Value) (env : Environment) :
    (env.set name v).get? name = some v := by
  unfold set get?
  split
  · simp
  · next hframes => simp [hframes]

/-- A name that was just bound is bound again in the same scope. -/
theorem replace_set (name : String) (v w : Value) (env : Environment) :
    (env.set name v).replace name w = env.set name w := by
  have hhas : ∀ scope : Scope, (scope.insert name v).has name = true := fun scope => by
    rw [Entries.has, Entries.find?_insert_self, Option.isSome_some]
  unfold set
  split
  · simp [replace, hhas, Entries.insert_insert]
  · next hframes => simp [replace, replace.replaceOutside, hframes, hhas, Entries.insert_insert]

end Environment

/-! ### Entries of displays and assignments -/

/-- An expression evaluates to a value in a state and leaves the state as it is. -/
def Expr.EvaluatesTo (e : Expr) (v : Value) (s : State) : Prop :=
  ComesTo (fun fuel => eval fuel e s) (.ok v) s

/-- A pair of expressions evaluates to a key and its item in a state. -/
def Expr.PairEvaluatesTo (s : State) (pair : Expr × Expr) (entry : String × Value) : Prop :=
  pair.1.EvaluatesTo (.str entry.1) s ∧ pair.2.EvaluatesTo entry.2 s

/-- The pairs of a display insert their entries. -/
theorem comesTo_evalPairs {s : State} {pairs : List (Expr × Expr)} {entries : Entries Value}
    (h : List.Forall₂ (Expr.PairEvaluatesTo s) pairs entries) (es : Entries Value) :
    ComesTo (fun fuel => evalPairs fuel pairs es s) (.ok (es.insertAll entries)) s := by
  induction h generalizing es with
  | nil => exact ⟨1, rfl⟩
  | @cons pair entry pairs entries hpair _ ih =>
    refine (comesTo_succ rfl).mpr ?_
    refine (comesTo_andThen (eval_lasts _ _) fun k s => ?_).mpr ⟨_, s, hpair.1, ?_⟩
    · cases k with
      | str key => exact (eval_lasts _ _).andThen fun v s => evalPairs_lasts _ _ s
      | _ => exact .const _
    · exact (comesTo_andThen (eval_lasts _ _) fun v s => evalPairs_lasts _ _ s).mpr
        ⟨_, s, hpair.2, ih _⟩

/-- The value of a display. -/
theorem comesTo_display {s : State} {pairs : List (Expr × Expr)} {entries : Entries Value}
    (h : List.Forall₂ (Expr.PairEvaluatesTo s) pairs entries) :
    Expr.EvaluatesTo (.dict pairs) (.dict (Entries.insertAll [] entries)) s := by
  refine (comesTo_succ rfl).mpr ?_
  refine (comesTo_andThen (evalPairs_lasts _ _ _) fun es s => ?_).mpr
    ⟨_, s, comesTo_evalPairs h [], comesTo_value.mpr ⟨rfl, rfl⟩⟩
  exact .const _

/-- An item that is assigned to a dict is inserted. -/
theorem assignItem_bind (d key : String) (v : Value) (es : Entries Value) (s : State) :
    assignItem d (.str key) v (s.bind d (.dict es)) =
      .value .normal (s.bind d (.dict (es.insert key v))) := by
  have hlookUp : lookUp d (s.bind d (.dict es)) = .ok (.dict es) := by
    simp only [lookUp, State.bind, Environment.get?_set]
  simp only [assignItem, hlookUp, Value.withItem]
  simp only [State.bind, Environment.replace_set]

/-- Assignments of items insert their entries. -/
theorem comesTo_setItems {d : String} {s : State} {pairs : List (Expr × Expr)}
    {entries : Entries Value}
    (h : List.Forall₂ (fun pair entry => ∀ w, Expr.PairEvaluatesTo (s.bind d w) pair entry) pairs
      entries) (es : Entries Value) :
    ComesTo (fun fuel => block fuel (pairs.map fun pair => .setItem d pair.1 pair.2)
      (s.bind d (.dict es))) (.ok .normal) (s.bind d (.dict (es.insertAll entries))) := by
  induction h generalizing es with
  | nil => exact ⟨1, rfl⟩
  | @cons pair entry pairs entries hpair _ ih =>
    have hassign : ComesTo (fun fuel => exec fuel (.setItem d pair.1 pair.2) (s.bind d (.dict es)))
        (.ok .normal) (s.bind d (.dict (es.insert entry.1 entry.2))) := by
      refine (comesTo_succ rfl).mpr ?_
      refine (comesTo_andThen (eval_lasts _ _) fun i s => ?_).mpr ⟨_, _, (hpair _).1, ?_⟩
      · exact (eval_lasts _ _).andThen fun v s => .const _
      refine (comesTo_andThen (eval_lasts _ _) fun v s => ?_).mpr ⟨_, _, (hpair _).2, ?_⟩
      · exact .const _
      rw [assignItem_bind]
      exact comesTo_value.mpr ⟨rfl, rfl⟩
    refine (comesTo_succ rfl).mpr ?_
    refine (comesTo_andThen (exec_lasts _ _) fun flow s => ?_).mpr ⟨_, _, hassign, ih _⟩
    cases flow with
    | normal => exact block_lasts _ s
    | _ => exact .const _

/-- The assignments of items to a dict that is empty at first. -/
theorem comesTo_assignments {d : String} {s : State} {pairs : List (Expr × Expr)}
    {entries : Entries Value}
    (h : List.Forall₂ (fun pair entry => ∀ w, Expr.PairEvaluatesTo (s.bind d w) pair entry) pairs
      entries) :
    ComesTo (fun fuel => runScript fuel
      (.assign d none (.dict []) :: pairs.map fun pair => .setItem d pair.1 pair.2) s) (.ok ())
      (s.bind d (.dict (Entries.insertAll [] entries))) := by
  have hempty : ComesTo (fun fuel => exec fuel (.assign d none (.dict [])) s) (.ok .normal)
      (s.bind d (.dict [])) := ⟨3, rfl⟩
  have hblock : ComesTo (fun fuel => block fuel
      (.assign d none (.dict []) :: pairs.map fun pair => .setItem d pair.1 pair.2) s)
      (.ok .normal) (s.bind d (.dict (Entries.insertAll [] entries))) := by
    refine (comesTo_succ rfl).mpr ?_
    refine (comesTo_andThen (exec_lasts _ _) fun flow s => ?_).mpr
      ⟨_, _, hempty, comesTo_setItems h []⟩
    cases flow with
    | normal => exact block_lasts _ s
    | _ => exact .const _
  refine (comesTo_andThen (block_lasts _ _) fun flow s => ?_).mpr
    ⟨_, _, hblock, comesTo_value.mpr ⟨rfl, rfl⟩⟩
  exact .const _

end ScriptShell
