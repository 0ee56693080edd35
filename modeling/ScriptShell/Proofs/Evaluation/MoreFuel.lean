import ScriptShell.Evaluation.Evaluator

/-!
# More fuel

A run that comes to an end with some fuel comes to the same end with more: the fuel decides whether
there is an answer, and never which one. The proof compares each evaluator with itself, given one
unit more, by an induction on fuel over all of them at once.
-/

namespace ScriptShell

/-! ### Runs that go further -/

/-- Where a run comes to an end another one comes to the same end. -/
def Run.EndsAs {α : Type} (run further : Run α) : Prop :=
  ∀ r s, run = .done r s → further = .done r s

namespace Run.EndsAs

variable {α β : Type}

theorem refl (run : Run α) : run.EndsAs run := fun _ _ => id

theorem trans {a b c : Run α} (h : a.EndsAs b) (h' : b.EndsAs c) : a.EndsAs c :=
  fun r s heq => h' r s (h r s heq)

/-- A run without an end may end in any way with more fuel. -/
theorem unfinished (run : Run α) : (Run.unfinished : Run α).EndsAs run := by
  intro r s heq
  cases heq

/-- One run after another. -/
theorem andThen {run further : Run α} (h : run.EndsAs further)
    {next nextFurther : α → State → Run β}
    (hnext : ∀ a s, (next a s).EndsAs (nextFurther a s)) :
    (run.andThen next).EndsAs (further.andThen nextFurther) := by
  intro r s heq
  cases run with
  | unfinished => cases heq
  | done result left =>
    rw [h result left rfl]
    cases result with
    | error e => exact heq
    | ok a => exact hnext a left r s heq

/-- What is done to the environment at the end changes nothing else. -/
theorem mapEnv {run further : Run α} (h : run.EndsAs further) (f : Environment → Environment) :
    (run.mapEnv f).EndsAs (further.mapEnv f) := by
  intro r s heq
  cases run with
  | unfinished => cases heq
  | done result left =>
    rw [h result left rfl]
    exact heq

end Run.EndsAs

/-! ### One unit more -/

/-- Every evaluator that comes to an end with a given amount of fuel comes to the same end with one
unit more. -/
structure LastsWith (fuel : Nat) : Prop where
  eval : ∀ e s, (eval fuel e s).EndsAs (ScriptShell.eval (fuel + 1) e s)
  evalAll : ∀ es s, (evalAll fuel es s).EndsAs (ScriptShell.evalAll (fuel + 1) es s)
  evalPairs : ∀ pairs es s,
    (evalPairs fuel pairs es s).EndsAs (ScriptShell.evalPairs (fuel + 1) pairs es s)
  call : ∀ f args s, (call fuel f args s).EndsAs (ScriptShell.call (fuel + 1) f args s)
  thread : ∀ v fs s, (thread fuel v fs s).EndsAs (ScriptShell.thread (fuel + 1) v fs s)
  callFunction : ∀ f args s,
    (callFunction fuel f args s).EndsAs (ScriptShell.callFunction (fuel + 1) f args s)
  block : ∀ script s, (block fuel script s).EndsAs (ScriptShell.block (fuel + 1) script s)
  exec : ∀ st s, (exec fuel st s).EndsAs (ScriptShell.exec (fuel + 1) st s)
  choose : ∀ branches otherwise s,
    (choose fuel branches otherwise s).EndsAs
      (ScriptShell.choose (fuel + 1) branches otherwise s)
  loopWhile : ∀ c body s,
    (loopWhile fuel c body s).EndsAs (ScriptShell.loopWhile (fuel + 1) c body s)
  loopFor : ∀ x items body s,
    (loopFor fuel x items body s).EndsAs (ScriptShell.loopFor (fuel + 1) x items body s)

section Step

variable {fuel : Nat} (ih : LastsWith fuel)
include ih

/-- One step of fuel more changes no end of an expression. -/
theorem lasts_eval (e : Expr) (s : State) :
    (eval (fuel + 1) e s).EndsAs (eval (fuel + 2) e s) := by
  cases e with
  | none | bool | int | float | str | name => exact .refl _
  | list items => exact (ih.evalAll items s).andThen fun vs s => .refl _
  | dict pairs => exact (ih.evalPairs pairs [] s).andThen fun es s => .refl _
  | neg e => exact (ih.eval e s).andThen fun v s => .refl _
  | not e => exact (ih.eval e s).andThen fun v s => .refl _
  | binary op l r =>
    exact (ih.eval l s).andThen fun a s => (ih.eval r s).andThen fun b s => .refl _
  | and l r =>
    refine (ih.eval l s).andThen fun a s => ?_
    split
    · exact ih.eval r s
    · exact .refl _
  | or l r =>
    refine (ih.eval l s).andThen fun a s => ?_
    split
    · exact .refl _
    · exact ih.eval r s
  | call f args =>
    exact (ih.eval f s).andThen fun f s =>
      (ih.evalAll args s).andThen fun args s => ih.call f args s
  | index t i =>
    exact (ih.eval t s).andThen fun t s => (ih.eval i s).andThen fun i s => .refl _

/-- One step of fuel more changes no end of a list of expressions. -/
theorem lasts_evalAll (es : List Expr) (s : State) :
    (evalAll (fuel + 1) es s).EndsAs (evalAll (fuel + 2) es s) := by
  cases es with
  | nil => exact .refl _
  | cons e es =>
    exact (ih.eval e s).andThen fun v s => (ih.evalAll es s).andThen fun vs s => .refl _

/-- One step of fuel more changes no end of the pairs of a dict. -/
theorem lasts_evalPairs (pairs : List (Expr × Expr)) (es : Entries Value) (s : State) :
    (evalPairs (fuel + 1) pairs es s).EndsAs (evalPairs (fuel + 2) pairs es s) := by
  cases pairs with
  | nil => exact .refl _
  | cons pair pairs =>
    refine (ih.eval pair.1 s).andThen fun k s => ?_
    split
    · exact (ih.eval pair.2 s).andThen fun v s => ih.evalPairs pairs _ s
    · exact .refl _

/-- One step of fuel more changes no end of a call. -/
theorem lasts_call (f : Value) (args : List Value) (s : State) :
    (call (fuel + 1) f args s).EndsAs (call (fuel + 2) f args s) := by
  rw [call.eq_def (fuel + 1), call.eq_def (fuel + 2)]
  dsimp only
  split
  · split
    · exact .refl _
    · exact ih.thread _ _ s
  · exact .refl _
  · exact ih.callFunction _ args s
  · exact .refl _

/-- One step of fuel more changes no end of values that are threaded through functions. -/
theorem lasts_thread (v : Value) (fs : List Value) (s : State) :
    (thread (fuel + 1) v fs s).EndsAs (thread (fuel + 2) v fs s) := by
  cases fs with
  | nil => exact .refl _
  | cons f fs => exact (ih.call f [v] s).andThen fun v s => ih.thread v fs s

/-- One step of fuel more changes no end of a body, since the guard against deep calls does not look
at fuel. -/
theorem lasts_callFunction (f : Function) (args : List Value) (s : State) :
    (callFunction (fuel + 1) f args s).EndsAs (callFunction (fuel + 2) f args s) := by
  rw [callFunction, callFunction]
  split
  · exact .refl _
  · exact ((ih.block f.body _).mapEnv _).andThen fun flow s => .refl _

/-- One step of fuel more changes no end of statements in a row. -/
theorem lasts_block (script : List Stmt) (s : State) :
    (block (fuel + 1) script s).EndsAs (block (fuel + 2) script s) := by
  cases script with
  | nil => exact .refl _
  | cons st rest =>
    refine (ih.exec st s).andThen fun flow s => ?_
    split
    · exact ih.block rest s
    · exact .refl _

/-- One step of fuel more changes no end of a statement. -/
theorem lasts_exec (st : Stmt) (s : State) :
    (exec (fuel + 1) st s).EndsAs (exec (fuel + 2) st s) := by
  cases st with
  | expr e => exact (ih.eval e s).andThen fun v s => .refl _
  | assign name op e => exact (ih.eval e s).andThen fun v s => .refl _
  | setItem name i e =>
    exact (ih.eval i s).andThen fun i s => (ih.eval e s).andThen fun v s => .refl _
  | define name params body => exact .refl _
  | choose branches otherwise => exact ih.choose branches otherwise s
  | loopWhile c body => exact ih.loopWhile c body s
  | loopFor name e body =>
    refine (ih.eval e s).andThen fun v s => ?_
    split
    · exact ih.loopFor name _ body s
    · exact .refl _
  | giveBack value =>
    cases value with
    | none => exact .refl _
    | some e => exact (ih.eval e s).andThen fun v s => .refl _
  | leave | next | pass => exact .refl _

/-- One step of fuel more changes no end of a choice. -/
theorem lasts_choose (branches : List (Expr × List Stmt)) (otherwise : Option (List Stmt))
    (s : State) : (choose (fuel + 1) branches otherwise s).EndsAs
      (choose (fuel + 2) branches otherwise s) := by
  cases branches with
  | nil =>
    cases otherwise with
    | none => exact .refl _
    | some body => exact ih.block body s
  | cons branch branches =>
    refine (ih.eval branch.1 s).andThen fun v s => ?_
    split
    · exact ih.block branch.2 s
    · exact ih.choose branches otherwise s

/-- One step of fuel more changes no end of a loop. -/
theorem lasts_loopWhile (c : Expr) (body : List Stmt) (s : State) :
    (loopWhile (fuel + 1) c body s).EndsAs (loopWhile (fuel + 2) c body s) := by
  refine (ih.eval c s).andThen fun v s => ?_
  split
  · refine (ih.block body s).andThen fun flow s => ?_
    split
    · exact .refl _
    · exact .refl _
    · exact ih.loopWhile c body s
  · exact .refl _

/-- One step of fuel more changes no end of a loop over items. -/
theorem lasts_loopFor (x : String) (items : Value.Items) (body : List Stmt) (s : State) :
    (loopFor (fuel + 1) x items body s).EndsAs (loopFor (fuel + 2) x items body s) := by
  rw [loopFor, loopFor]
  split
  · exact .refl _
  · next v items _ =>
    refine (ih.block body _).andThen fun flow s => ?_
    split
    · exact .refl _
    · exact .refl _
    · exact ih.loopFor x items body s

end Step

/-- Every evaluator that comes to an end comes to the same end with one unit of fuel more. -/
theorem lastsWith (fuel : Nat) : LastsWith fuel := by
  induction fuel with
  | zero => constructor <;> intros <;> exact .unfinished _
  | succ fuel ih =>
    exact ⟨lasts_eval ih, lasts_evalAll ih, lasts_evalPairs ih, lasts_call ih, lasts_thread ih,
      lasts_callFunction ih, lasts_block ih, lasts_exec ih, lasts_choose ih, lasts_loopWhile ih,
      lasts_loopFor ih⟩

/-! ### Any amount more -/

/-- What comes to the same end with each unit more comes to the same end with any amount more. -/
theorem Run.EndsAs.of_le {α : Type} {run : Nat → Run α} (h : ∀ n, (run n).EndsAs (run (n + 1)))
    {fuel more : Nat} (hle : fuel ≤ more) : (run fuel).EndsAs (run more) := by
  induction hle with
  | refl => exact .refl _
  | step _ ih => exact ih.trans (h _)

/-- More fuel changes no end of an expression. -/
theorem eval_endsAs {fuel more : Nat} (hle : fuel ≤ more) (e : Expr) (s : State) :
    (eval fuel e s).EndsAs (eval more e s) := .of_le (fun n => (lastsWith n).eval e s) hle

/-- More fuel changes no end of statements in a row. -/
theorem block_endsAs {fuel more : Nat} (hle : fuel ≤ more) (script : List Stmt) (s : State) :
    (block fuel script s).EndsAs (block more script s) :=
  .of_le (fun n => (lastsWith n).block script s) hle

/-- More fuel changes no end of a script. -/
theorem runScript_endsAs {fuel more : Nat} (hle : fuel ≤ more) (script : List Stmt) (s : State) :
    (runScript fuel script s).EndsAs (runScript more script s) :=
  (block_endsAs hle script s).andThen fun _ _ => .refl _

end ScriptShell
