import ScriptShell.Proofs.Evaluation.Kept

/-!
# Evaluation keeps the frames

Evaluation comes back to the frames it started with, whether with a value or a fault: the frame of
a call is gone when the call ends, and what a function does outside its own frame is at most a
change in place. The proof is an induction on fuel over all evaluators at once.
-/

namespace ScriptShell

/-! ### Runs that keep a relation -/

/-- Where a run comes to an end, with a value or a fault, the environment it leaves is related to
the one it started with. -/
def Run.Keeps {α : Type} (R : Environment → Environment → Prop) (s : State) (run : Run α) : Prop :=
  ∀ r s', run = .done r s' → R s.env s'.env

namespace Run.Keeps

variable {α β : Type} {R : Environment → Environment → Prop} {s : State}

/-- A run that comes to an end in a given state. -/
theorem done {s' : State} (h : R s.env s'.env) (r : Except EvalError α) :
    (Run.done r s').Keeps R s := by
  intro r' s'' heq
  obtain ⟨_, rfl⟩ := Run.done.inj heq
  exact h

/-- A run that does not come to an end. -/
theorem unfinished : (Run.unfinished : Run α).Keeps R s := by
  intro r s' heq
  cases heq

theorem mono {R' : Environment → Environment → Prop} {run : Run α} (h : run.Keeps R s)
    (hR : ∀ {a b}, R a b → R' a b) : run.Keeps R' s := fun r s' heq => hR (h r s' heq)

/-- One run after another. -/
theorem andThen {run : Run α} (h : run.Keeps R s) (htrans : ∀ a b c, R a b → R b c → R a c)
    {next : α → State → Run β} (hnext : ∀ a s', (next a s').Keeps R s') :
    (run.andThen next).Keeps R s := by
  intro r s' heq
  cases run with
  | unfinished => cases heq
  | done result left =>
    have hleft := h result left rfl
    cases result with
    | error e =>
      cases heq
      exact hleft
    | ok a => exact htrans _ _ _ hleft (hnext a left r s' heq)

end Run.Keeps

/-- An expression evaluated first. -/
theorem Run.Keeps.thenExpr {α β : Type} {s : State} {run : Run α} (h : run.Keeps Kept s)
    {next : α → State → Run β} (hnext : ∀ a s', (next a s').Keeps Kept s') :
    (run.andThen next).Keeps Kept s := h.andThen (fun _ _ _ => Kept.trans) hnext

/-- Statements run first. -/
theorem Run.Keeps.thenStmt {α β : Type} {s : State} {run : Run α} (h : run.Keeps KeptOutside s)
    {next : α → State → Run β} (hnext : ∀ a s', (next a s').Keeps KeptOutside s') :
    (run.andThen next).Keeps KeptOutside s := h.andThen (fun _ _ _ => KeptOutside.trans) hnext

/-- Statements run after a name is bound. -/
theorem Run.Keeps.bound {α : Type} {s : State} {run : Run α} (x : String) (v : Value)
    (h : run.Keeps KeptOutside (s.bind x v)) : run.Keeps KeptOutside s :=
  fun r s' heq => (KeptOutside.set x v s.env).trans (h r s' heq)

/-- Statements run in a frame of their own, which is then left. -/
theorem Run.Keeps.popped {α : Type} {s inside : State} {frame : Scope} {run : Run α}
    (henv : inside.env = { s.env with frames := frame :: s.env.frames })
    (h : run.Keeps KeptOutside inside) : (run.mapEnv Environment.popFrame).Keeps Kept s := by
  intro r s' heq
  cases run with
  | unfinished => cases heq
  | done result left =>
    have hleft := h result left rfl
    cases heq
    rw [henv] at hleft
    exact hleft.popFrame

/-- A result where an expression is evaluated. -/
theorem keeps_result {α : Type} (r : Except EvalError α) (s : State) :
    (Run.result r s).Keeps Kept s := .done (Kept.refl s.env) r

/-- An end of statements. -/
theorem keepsOutside_result {α : Type} (r : Except EvalError α) (s : State) :
    (Run.result r s).Keeps KeptOutside s := .done (KeptOutside.refl s.env) r

/-! ### Assignments and calls -/

/-- Binding parameters changes the innermost frame only. -/
theorem exists_bindAll {s : State} {frame : Scope} {outer : List Scope}
    (hf : s.env.frames = frame :: outer) (names : List String) (vs : List Value) :
    ∃ frame', (s.bindAll names vs).env = { s.env with frames := frame' :: outer } := by
  induction names generalizing s frame vs with
  | nil => exact ⟨frame, by rw [State.bindAll, ← hf]; exact nofun⟩
  | cons name names ih =>
    cases vs with
    | nil => exact ⟨frame, by rw [State.bindAll, ← hf]; exact nofun⟩
    | cons v vs =>
      rw [State.bindAll]
      have hset : (s.bind name v).env = { s.env with frames := frame.insert name v :: outer } := by
        simp only [State.bind, Environment.set, hf]
      have hframes : (s.bind name v).env.frames = frame.insert name v :: outer := by rw [hset]
      obtain ⟨frame', henv⟩ := ih hframes vs
      exact ⟨frame', by rw [henv, hset]⟩

/-- An assignment changes the innermost frame or the globals, and no frame around it. -/
theorem keeps_assign (name : String) (op : Option Operator) (v : Value) (s : State) :
    (assign name op v s).Keeps KeptOutside s := by
  unfold assign
  split
  · exact .done (.set name v s.env) _
  · split
    · exact keepsOutside_result _ s
    · split
      · exact keepsOutside_result _ s
      · exact .done (.set name _ s.env) _

/-- An assignment to an item changes the innermost frame or the globals, and no frame around it. -/
theorem keeps_assignItem (name : String) (index v : Value) (s : State) :
    (assignItem name index v s).Keeps KeptOutside s := by
  unfold assignItem
  split
  · exact keepsOutside_result _ s
  · next target ht =>
    split
    · exact keepsOutside_result _ s
    · next after hafter =>
      have hget : s.env.get? name = some target := by
        unfold lookUp at ht
        split at ht
        · next heq =>
          cases ht
          exact heq
        · cases ht
      exact .done (.replace hget (reshaped_of_withItem hafter)) _

/-- A builtin changes no frame. -/
theorem keeps_callBuiltin (b : Builtin) (args : List Value) (s : State) :
    (callBuiltin b args s).Keeps Kept s := by
  unfold callBuiltin
  split
  · split
    · exact .done (.requestExit s.env) _
    · exact keeps_result _ s
  · obtain ⟨r, world⟩ := b.call args s.world
    intro r' s' heq
    cases heq
    exact Kept.refl s.env

/-! ### The induction on fuel -/

/-- Every evaluator keeps what it should with a given amount of fuel. -/
structure KeepsWith (fuel : Nat) : Prop where
  eval : ∀ e s, (eval fuel e s).Keeps Kept s
  evalAll : ∀ es s, (evalAll fuel es s).Keeps Kept s
  evalPairs : ∀ pairs es s, (evalPairs fuel pairs es s).Keeps Kept s
  call : ∀ f args s, (call fuel f args s).Keeps Kept s
  thread : ∀ v fs s, (thread fuel v fs s).Keeps Kept s
  callFunction : ∀ f args s, (callFunction fuel f args s).Keeps Kept s
  block : ∀ script s, (block fuel script s).Keeps KeptOutside s
  exec : ∀ st s, (exec fuel st s).Keeps KeptOutside s
  choose : ∀ branches otherwise s, (choose fuel branches otherwise s).Keeps KeptOutside s
  loopWhile : ∀ c body s, (loopWhile fuel c body s).Keeps KeptOutside s
  loopFor : ∀ x items body s, (loopFor fuel x items body s).Keeps KeptOutside s

section Step

variable {fuel : Nat} (ih : KeepsWith fuel)
include ih

/-- One step of fuel more keeps the frames for expressions. -/
theorem keeps_eval (e : Expr) (s : State) : (eval (fuel + 1) e s).Keeps Kept s := by
  cases e with
  | none | bool | int | float | str | name => exact keeps_result _ s
  | list items => exact (ih.evalAll items s).thenExpr fun vs s => keeps_result _ s
  | dict pairs => exact (ih.evalPairs pairs [] s).thenExpr fun es s => keeps_result _ s
  | neg e => exact (ih.eval e s).thenExpr fun v s => keeps_result _ s
  | not e => exact (ih.eval e s).thenExpr fun v s => keeps_result _ s
  | binary op l r =>
    exact (ih.eval l s).thenExpr fun a s => (ih.eval r s).thenExpr fun b s => keeps_result _ s
  | and l r =>
    refine (ih.eval l s).thenExpr fun a s => ?_
    split
    · exact ih.eval r s
    · exact keeps_result _ s
  | or l r =>
    refine (ih.eval l s).thenExpr fun a s => ?_
    split
    · exact keeps_result _ s
    · exact ih.eval r s
  | call f args =>
    exact (ih.eval f s).thenExpr fun f s =>
      (ih.evalAll args s).thenExpr fun args s => ih.call f args s
  | index t i =>
    exact (ih.eval t s).thenExpr fun t s => (ih.eval i s).thenExpr fun i s => keeps_result _ s

/-- One step of fuel more keeps the frames for lists of expressions. -/
theorem keeps_evalAll (es : List Expr) (s : State) :
    (evalAll (fuel + 1) es s).Keeps Kept s := by
  cases es with
  | nil => exact keeps_result _ s
  | cons e es =>
    exact (ih.eval e s).thenExpr fun v s =>
      (ih.evalAll es s).thenExpr fun vs s => keeps_result _ s

/-- One step of fuel more keeps the frames for the pairs of a dict. -/
theorem keeps_evalPairs (pairs : List (Expr × Expr)) (es : Entries Value) (s : State) :
    (evalPairs (fuel + 1) pairs es s).Keeps Kept s := by
  cases pairs with
  | nil => exact keeps_result _ s
  | cons pair pairs =>
    refine (ih.eval pair.1 s).thenExpr fun k s => ?_
    split
    · exact (ih.eval pair.2 s).thenExpr fun v s => ih.evalPairs pairs _ s
    · exact keeps_result _ s

/-- One step of fuel more keeps the frames for calls. -/
theorem keeps_call (f : Value) (args : List Value) (s : State) :
    (call (fuel + 1) f args s).Keeps Kept s := by
  rw [call.eq_def]
  dsimp only
  split
  · split
    · exact keeps_result _ s
    · exact ih.thread _ _ s
  · exact keeps_callBuiltin _ args s
  · exact ih.callFunction _ args s
  · exact keeps_result _ s

/-- One step of fuel more keeps the frames for values that are threaded through functions. -/
theorem keeps_thread (v : Value) (fs : List Value) (s : State) :
    (thread (fuel + 1) v fs s).Keeps Kept s := by
  cases fs with
  | nil => exact keeps_result _ s
  | cons f fs => exact (ih.call f [v] s).thenExpr fun v s => ih.thread v fs s

/-- The frame of a call is gone when the call ends, whether its body ended with a fault or not. -/
theorem keeps_callFunction (f : Function) (args : List Value) (s : State) :
    (callFunction (fuel + 1) f args s).Keeps Kept s := by
  rw [callFunction]
  split
  · exact keeps_result _ s
  · refine Run.Keeps.thenExpr ?_ fun flow s => keeps_result _ s
    let entered : State := { s with env := s.env.pushFrame }
    obtain ⟨frame, henv⟩ := exists_bindAll (s := entered) rfl f.params args
    exact (ih.block f.body _).popped henv

/-- One step of fuel more keeps the frames around the innermost one for statements in a row. -/
theorem keeps_block (script : List Stmt) (s : State) :
    (block (fuel + 1) script s).Keeps KeptOutside s := by
  cases script with
  | nil => exact keepsOutside_result _ s
  | cons st rest =>
    refine (ih.exec st s).thenStmt fun flow s => ?_
    split
    · exact ih.block rest s
    · exact keepsOutside_result _ s

/-- One step of fuel more keeps the frames around the innermost one for a statement. -/
theorem keeps_exec (st : Stmt) (s : State) : (exec (fuel + 1) st s).Keeps KeptOutside s := by
  have heval : ∀ e s, (ScriptShell.eval fuel e s).Keeps KeptOutside s :=
    fun e s => (ih.eval e s).mono Kept.outside
  cases st with
  | expr e => exact (heval e s).thenStmt fun v s => keepsOutside_result _ s
  | assign name op e => exact (heval e s).thenStmt fun v s => keeps_assign name op v s
  | setItem name i e =>
    exact (heval i s).thenStmt fun i s =>
      (heval e s).thenStmt fun v s => keeps_assignItem name i v s
  | define name params body =>
    exact .done ((KeptOutside.nextSerial s.env).trans (.set name _ _)) _
  | choose branches otherwise => exact ih.choose branches otherwise s
  | loopWhile c body => exact ih.loopWhile c body s
  | loopFor name e body =>
    refine (heval e s).thenStmt fun v s => ?_
    split
    · exact ih.loopFor name _ body s
    · exact keepsOutside_result _ s
  | giveBack value =>
    cases value with
    | none => exact keepsOutside_result _ s
    | some e => exact (heval e s).thenStmt fun v s => keepsOutside_result _ s
  | leave | next | pass => exact keepsOutside_result _ s

/-- One step of fuel more keeps the frames around the innermost one for a choice. -/
theorem keeps_choose (branches : List (Expr × List Stmt)) (otherwise : Option (List Stmt))
    (s : State) : (choose (fuel + 1) branches otherwise s).Keeps KeptOutside s := by
  cases branches with
  | nil =>
    cases otherwise with
    | none => exact keepsOutside_result _ s
    | some body => exact ih.block body s
  | cons branch branches =>
    refine ((ih.eval branch.1 s).mono Kept.outside).thenStmt fun v s => ?_
    split
    · exact ih.block branch.2 s
    · exact ih.choose branches otherwise s

/-- One step of fuel more keeps the frames around the innermost one for a loop. -/
theorem keeps_loopWhile (c : Expr) (body : List Stmt) (s : State) :
    (loopWhile (fuel + 1) c body s).Keeps KeptOutside s := by
  refine ((ih.eval c s).mono Kept.outside).thenStmt fun v s => ?_
  split
  · refine (ih.block body s).thenStmt fun flow s => ?_
    split
    · exact keepsOutside_result _ s
    · exact keepsOutside_result _ s
    · exact ih.loopWhile c body s
  · exact keepsOutside_result _ s

/-- One step of fuel more keeps the frames around the innermost one for a loop over items. -/
theorem keeps_loopFor (x : String) (items : Value.Items) (body : List Stmt) (s : State) :
    (loopFor (fuel + 1) x items body s).Keeps KeptOutside s := by
  rw [loopFor]
  split
  · exact keepsOutside_result _ s
  · next v items _ =>
    refine ((ih.block body _).bound x v).thenStmt fun flow s => ?_
    split
    · exact keepsOutside_result _ s
    · exact keepsOutside_result _ s
    · exact ih.loopFor x items body s

end Step

/-- Every evaluator keeps what it should, with any amount of fuel. -/
theorem keepsWith (fuel : Nat) : KeepsWith fuel := by
  induction fuel with
  | zero => constructor <;> intros <;> exact .unfinished
  | succ fuel ih =>
    exact ⟨keeps_eval ih, keeps_evalAll ih, keeps_evalPairs ih, keeps_call ih, keeps_thread ih,
      keeps_callFunction ih, keeps_block ih, keeps_exec ih, keeps_choose ih, keeps_loopWhile ih,
      keeps_loopFor ih⟩

end ScriptShell
