import ScriptShell.Proofs.Evaluation.Frames

/-!
# The states a run goes through

A run starts other runs: of the parts of an expression, of the statements of a block, of the body
of a function. Each starts in a state of its own, and together these are the states that a run goes
through. None of them has more calls under way than there may be. That no run is left out is told
by the fuel: a run that is given none does not come to an end, and so a task comes to an end exactly
if all those do that it starts.
-/

namespace ScriptShell

/-- What can be evaluated or run. -/
inductive Task where
  | expr (e : Expr)
  | exprs (es : List Expr)
  | pairs (ps : List (Expr × Expr)) (es : Entries Value)
  | call (f : Value) (args : List Value)
  | thread (v : Value) (fs : List Value)
  | function (f : Function) (args : List Value)
  | block (script : List Stmt)
  | stmt (st : Stmt)
  | choose (branches : List (Expr × List Stmt)) (otherwise : Option (List Stmt))
  | loopWhile (c : Expr) (body : List Stmt)
  | loopFor (x : String) (items : Value.Items) (body : List Stmt)

/-- The state in which a run comes to an end, if it does. -/
def Run.end? {α : Type} : Run α → Option State
  | .done _ s => some s
  | .unfinished => none

/-- The state in which a task comes to an end with some fuel, if it does. -/
def Task.end? (fuel : Nat) (s : State) : Task → Option State
  | .expr e => (eval fuel e s).end?
  | .exprs es => (evalAll fuel es s).end?
  | .pairs ps es => (evalPairs fuel ps es s).end?
  | .call f args => (ScriptShell.call fuel f args s).end?
  | .thread v fs => (ScriptShell.thread fuel v fs s).end?
  | .function f args => (callFunction fuel f args s).end?
  | .block script => (ScriptShell.block fuel script s).end?
  | .stmt st => (exec fuel st s).end?
  | .choose branches otherwise => (ScriptShell.choose fuel branches otherwise s).end?
  | .loopWhile c body => (ScriptShell.loopWhile fuel c body s).end?
  | .loopFor x items body => (ScriptShell.loopFor fuel x items body s).end?

/-- A task starts another one, in a state of its own; each is given `fuel`, and the one that starts
them one unit more. -/
inductive Task.Starts (fuel : Nat) : Task → State → Task → State → Prop where
  | items {es s} : Starts fuel (.expr (.list es)) s (.exprs es) s
  | entries {ps s} : Starts fuel (.expr (.dict ps)) s (.pairs ps []) s
  | negated {e s} : Starts fuel (.expr (.neg e)) s (.expr e) s
  | denied {e s} : Starts fuel (.expr (.not e)) s (.expr e) s
  | left {op l r s} : Starts fuel (.expr (.binary op l r)) s (.expr l) s
  | right {op l r s a s'} : eval fuel l s = .done (.ok a) s' →
      Starts fuel (.expr (.binary op l r)) s (.expr r) s'
  | conjLeft {l r s} : Starts fuel (.expr (.and l r)) s (.expr l) s
  | conjRight {l r s a s'} : eval fuel l s = .done (.ok a) s' → a.isTruthy = true →
      Starts fuel (.expr (.and l r)) s (.expr r) s'
  | disjLeft {l r s} : Starts fuel (.expr (.or l r)) s (.expr l) s
  | disjRight {l r s a s'} : eval fuel l s = .done (.ok a) s' → a.isTruthy = false →
      Starts fuel (.expr (.or l r)) s (.expr r) s'
  | callee {f args s} : Starts fuel (.expr (.call f args)) s (.expr f) s
  | arguments {f args s v s'} : eval fuel f s = .done (.ok v) s' →
      Starts fuel (.expr (.call f args)) s (.exprs args) s'
  | application {f args s v s' vs s''} : eval fuel f s = .done (.ok v) s' →
      evalAll fuel args s' = .done (.ok vs) s'' →
      Starts fuel (.expr (.call f args)) s (.call v vs) s''
  | target {t i s} : Starts fuel (.expr (.index t i)) s (.expr t) s
  | index {t i s v s'} : eval fuel t s = .done (.ok v) s' →
      Starts fuel (.expr (.index t i)) s (.expr i) s'
  | firstExpr {e es s} : Starts fuel (.exprs (e :: es)) s (.expr e) s
  | otherExprs {e es s v s'} : eval fuel e s = .done (.ok v) s' →
      Starts fuel (.exprs (e :: es)) s (.exprs es) s'
  | key {k e ps es s} : Starts fuel (.pairs ((k, e) :: ps) es) s (.expr k) s
  | item {k e ps es s key s'} : eval fuel k s = .done (.ok (.str key)) s' →
      Starts fuel (.pairs ((k, e) :: ps) es) s (.expr e) s'
  | otherPairs {k e ps es s key s' v s''} : eval fuel k s = .done (.ok (.str key)) s' →
      eval fuel e s' = .done (.ok v) s'' →
      Starts fuel (.pairs ((k, e) :: ps) es) s (.pairs ps (es.insert key v)) s''
  | pipe {v fs s} : Starts fuel (.call (.builtin .pipe) (v :: fs)) s (.thread v fs) s
  | defined {n f args s} : Starts fuel (.call (.function n f) args) s (.function f args) s
  | firstFunction {v f fs s} : Starts fuel (.thread v (f :: fs)) s (.call f [v]) s
  | otherFunctions {v f fs s w s'} : ScriptShell.call fuel f [v] s = .done (.ok w) s' →
      Starts fuel (.thread v (f :: fs)) s (.thread w fs) s'
  | body {f args s} : f.refusal? args s = none →
      Starts fuel (.function f args) s (.block f.body) (f.entered args s)
  | firstStmt {st rest s} : Starts fuel (.block (st :: rest)) s (.stmt st) s
  | otherStmts {st rest s s'} : exec fuel st s = .done (.ok .normal) s' →
      Starts fuel (.block (st :: rest)) s (.block rest) s'
  | expr {e s} : Starts fuel (.stmt (.expr e)) s (.expr e) s
  | assigned {x op e s} : Starts fuel (.stmt (.assign x op e)) s (.expr e) s
  | place {x i e s} : Starts fuel (.stmt (.setItem x i e)) s (.expr i) s
  | placed {x i e s v s'} : eval fuel i s = .done (.ok v) s' →
      Starts fuel (.stmt (.setItem x i e)) s (.expr e) s'
  | choice {branches otherwise s} :
      Starts fuel (.stmt (.choose branches otherwise)) s (.choose branches otherwise) s
  | whileLoop {c body s} : Starts fuel (.stmt (.loopWhile c body)) s (.loopWhile c body) s
  | iterable {x e body s} : Starts fuel (.stmt (.loopFor x e body)) s (.expr e) s
  | forLoop {x e body s v s' items} : eval fuel e s = .done (.ok v) s' → v.iterate = .ok items →
      Starts fuel (.stmt (.loopFor x e body)) s (.loopFor x items body) s'
  | given {e s} : Starts fuel (.stmt (.giveBack (some e))) s (.expr e) s
  | otherwise {body s} : Starts fuel (.choose [] (some body)) s (.block body) s
  | condition {c body branches otherwise s} :
      Starts fuel (.choose ((c, body) :: branches) otherwise) s (.expr c) s
  | chosen {c body branches otherwise s v s'} : eval fuel c s = .done (.ok v) s' →
      v.isTruthy = true → Starts fuel (.choose ((c, body) :: branches) otherwise) s (.block body) s'
  | otherBranches {c body branches otherwise s v s'} : eval fuel c s = .done (.ok v) s' →
      v.isTruthy = false →
      Starts fuel (.choose ((c, body) :: branches) otherwise) s (.choose branches otherwise) s'
  | whileCondition {c body s} : Starts fuel (.loopWhile c body) s (.expr c) s
  | whileBody {c body s v s'} : eval fuel c s = .done (.ok v) s' → v.isTruthy = true →
      Starts fuel (.loopWhile c body) s (.block body) s'
  | whileAgain {c body s v s' flow s''} : eval fuel c s = .done (.ok v) s' → v.isTruthy = true →
      ScriptShell.block fuel body s' = .done (.ok flow) s'' → flow = .normal ∨ flow = .next →
      Starts fuel (.loopWhile c body) s (.loopWhile c body) s''
  | forBody {x items body s v others} : items.next? = some (v, others) →
      Starts fuel (.loopFor x items body) s (.block body) (s.bind x v)
  | forAgain {x items body s v others flow s'} : items.next? = some (v, others) →
      ScriptShell.block fuel body (s.bind x v) = .done (.ok flow) s' →
      flow = .normal ∨ flow = .next →
      Starts fuel (.loopFor x items body) s (.loopFor x others body) s'

/-- A run goes through the states in which the tasks start that it starts, directly or not. -/
inductive Task.Visits : Nat → Task → State → Nat → Task → State → Prop where
  | self (fuel : Nat) (task : Task) (s : State) : Visits fuel task s fuel task s
  | step {fuel : Nat} {task task' : Task} {s s' : State} {fuel' : Nat} {later : Task}
      {left : State} : Task.Starts fuel task s task' s' → Visits fuel task' s' fuel' later left →
      Visits (fuel + 1) task s fuel' later left

/-! ### Depth -/

/-- A run that keeps what statements keep ends as deep as it started. -/
theorem Run.Keeps.depth_eq {α : Type} {s s' : State} {run : Run α} (h : run.Keeps KeptOutside s)
    (hend : run.end? = some s') : s'.env.depth = s.env.depth := by
  cases run with
  | unfinished => cases hend
  | done r left =>
    cases hend
    exact (h r s' rfl).depth

/-- A task ends with as many calls under way as it started with. -/
theorem Task.depth_of_end? {fuel : Nat} {task : Task} {s s' : State}
    (h : task.end? fuel s = some s') : s'.env.depth = s.env.depth := by
  have hkeeps := keepsWith fuel
  cases task with
  | expr e => exact ((hkeeps.eval e s).mono Kept.outside).depth_eq h
  | exprs es => exact ((hkeeps.evalAll es s).mono Kept.outside).depth_eq h
  | pairs ps es => exact ((hkeeps.evalPairs ps es s).mono Kept.outside).depth_eq h
  | call f args => exact ((hkeeps.call f args s).mono Kept.outside).depth_eq h
  | thread v fs => exact ((hkeeps.thread v fs s).mono Kept.outside).depth_eq h
  | function f args => exact ((hkeeps.callFunction f args s).mono Kept.outside).depth_eq h
  | block script => exact (hkeeps.block script s).depth_eq h
  | stmt st => exact (hkeeps.exec st s).depth_eq h
  | choose branches otherwise => exact (hkeeps.choose branches otherwise s).depth_eq h
  | loopWhile c body => exact (hkeeps.loopWhile c body s).depth_eq h
  | loopFor x items body => exact (hkeeps.loopFor x items body s).depth_eq h

/-- The body of a function starts in one frame more. -/
theorem depth_entered (f : Function) (args : List Value) (s : State) :
    (f.entered args s).env.depth = s.env.depth + 1 := by
  let pushed : State := { s with env := s.env.pushFrame }
  obtain ⟨frame, henv⟩ := exists_bindAll (s := pushed) rfl f.params args
  unfold Function.entered
  rw [henv]
  rfl

/-- A task starts with no more calls under way than there may be if the one that starts it does. -/
theorem Task.Starts.depth_le {fuel : Nat} {task task' : Task} {s s' : State}
    (h : Task.Starts fuel task s task' s') (hs : s.env.depth ≤ greatestDepth) :
    s'.env.depth ≤ greatestDepth := by
  have hkeeps := keepsWith fuel
  cases h with
  | body hmade =>
    rw [depth_entered]
    exact (Function.refusal?_eq_none_iff.mp hmade).2
  | right hl | conjRight hl | disjRight hl | arguments hl | index hl | otherExprs hl | item hl
  | placed hl | forLoop hl | chosen hl | otherBranches hl | whileBody hl =>
    rw [(hkeeps.eval _ _ _ _ hl).outside.depth]
    exact hs
  | application hf hargs =>
    rw [(hkeeps.evalAll _ _ _ _ hargs).outside.depth, (hkeeps.eval _ _ _ _ hf).outside.depth]
    exact hs
  | otherPairs hk he =>
    rw [(hkeeps.eval _ _ _ _ he).outside.depth, (hkeeps.eval _ _ _ _ hk).outside.depth]
    exact hs
  | otherFunctions hc =>
    rw [(hkeeps.call _ _ _ _ _ hc).outside.depth]
    exact hs
  | otherStmts hst =>
    rw [(hkeeps.exec _ _ _ _ hst).depth]
    exact hs
  | whileAgain hc _ hb =>
    rw [(hkeeps.block _ _ _ _ hb).depth, (hkeeps.eval _ _ _ _ hc).outside.depth]
    exact hs
  | forBody => exact Nat.le_trans (Nat.le_of_eq (KeptOutside.set _ _ s.env).depth) hs
  | forAgain _ hb =>
    rw [(((hkeeps.block _ _).bound _ _) _ _ hb).depth]
    exact hs
  | _ => exact hs

/-- A run that starts with no more calls under way than there may be goes only through states of
which that holds. -/
theorem Task.Visits.depth_le {fuel fuel' : Nat} {task task' : Task} {s s' : State}
    (h : Task.Visits fuel task s fuel' task' s') (hs : s.env.depth ≤ greatestDepth) :
    s'.env.depth ≤ greatestDepth := by
  induction h with
  | self => exact hs
  | step hstart _ ih => exact ih (hstart.depth_le hs)

/-- Where the most calls are under way that there may be, a call is refused. -/
theorem exists_callFunction_fault {s : State} (h : greatestDepth ≤ s.env.depth) (fuel : Nat)
    (f : Function) (args : List Value) : ∃ e, callFunction (fuel + 1) f args s = .fault e s := by
  cases hrefused : f.refusal? args s with
  | none => exact absurd h (Nat.not_le.mpr (Function.refusal?_eq_none_iff.mp hrefused).2)
  | some e => exact ⟨e, by rw [callFunction, hrefused]⟩

/-! ### No run is left out -/

/-- What goes on after a run comes to an end if the run does and what follows it does. -/
theorem Run.end?_andThen {α β : Type} {run : Run α} {next : α → State → Run β}
    (h : run.end?.isSome = true)
    (hnext : ∀ a s, run = .done (.ok a) s → (next a s).end?.isSome = true) :
    (run.andThen next).end?.isSome = true := by
  cases run with
  | unfinished => cases h
  | done result s =>
    cases result with
    | error e => rfl
    | ok a => exact hnext a s rfl

/-- A run comes to an end if what goes on after it does. -/
theorem Run.isSome_end?_of_andThen {α β : Type} {run : Run α} {next : α → State → Run β}
    (h : (run.andThen next).end?.isSome = true) : run.end?.isSome = true := by
  cases run with
  | unfinished => cases h
  | done result s => rfl

/-- What follows a run that gives a value comes to an end if the whole does. -/
theorem Run.isSome_end?_next {α β : Type} {run : Run α} {next : α → State → Run β} {a : α}
    {s : State} (hrun : run = .done (.ok a) s) (h : (run.andThen next).end?.isSome = true) :
    (next a s).end?.isSome = true := by
  rwa [hrun] at h

theorem Run.isSome_end?_mapEnv {α : Type} (f : Environment → Environment) (run : Run α) :
    (run.mapEnv f).end?.isSome = run.end?.isSome := by
  cases run <;> rfl

/-- All tasks that a task starts come to an end. -/
abbrev Task.StartedEnd (fuel : Nat) (task : Task) (s : State) : Prop :=
  ∀ task' s', Task.Starts fuel task s task' s' → (task'.end? fuel s').isSome = true

/-- An expression comes to its end if all that it starts does. -/
theorem isSome_end?_expr {fuel : Nat} {e : Expr} {s : State}
    (h : Task.StartedEnd fuel (.expr e) s) : (eval (fuel + 1) e s).end?.isSome = true := by
  cases e with
  | none | bool | int | float | str | name => rfl
  | list es => exact Run.end?_andThen (h _ _ .items) fun vs s' _ => rfl
  | dict ps => exact Run.end?_andThen (h _ _ .entries) fun es s' _ => rfl
  | neg e => exact Run.end?_andThen (h _ _ .negated) fun v s' _ => rfl
  | not e => exact Run.end?_andThen (h _ _ .denied) fun v s' _ => rfl
  | binary op l r =>
    exact Run.end?_andThen (h _ _ .left) fun a s' hl =>
      Run.end?_andThen (h _ _ (.right hl)) fun b s'' _ => rfl
  | and l r =>
    refine Run.end?_andThen (h _ _ .conjLeft) fun a s' hl => ?_
    split
    · next ha => exact h _ _ (.conjRight hl ha)
    · rfl
  | or l r =>
    refine Run.end?_andThen (h _ _ .disjLeft) fun a s' hl => ?_
    split
    · rfl
    · next ha => exact h _ _ (.disjRight hl (by simpa using ha))
  | call f args =>
    exact Run.end?_andThen (h _ _ .callee) fun f s' hf =>
      Run.end?_andThen (h _ _ (.arguments hf)) fun vs s'' hargs => h _ _ (.application hf hargs)
  | index t i =>
    exact Run.end?_andThen (h _ _ .target) fun v s' ht =>
      Run.end?_andThen (h _ _ (.index ht)) fun w s'' _ => rfl

/-- The pairs of a dict come to their end if all that they start does. -/
theorem isSome_end?_pairs {fuel : Nat} {ps : List (Expr × Expr)} {es : Entries Value} {s : State}
    (h : Task.StartedEnd fuel (.pairs ps es) s) :
    (evalPairs (fuel + 1) ps es s).end?.isSome = true := by
  cases ps with
  | nil => rfl
  | cons pair ps =>
    refine Run.end?_andThen (h _ _ .key) fun k s' hk => ?_
    split
    · exact Run.end?_andThen (h _ _ (.item hk)) fun v s'' hv => h _ _ (.otherPairs hk hv)
    · rfl

/-- A call comes to its end if all that it starts does. -/
theorem isSome_end?_call {fuel : Nat} {f : Value} {args : List Value} {s : State}
    (h : Task.StartedEnd fuel (.call f args) s) :
    (call (fuel + 1) f args s).end?.isSome = true := by
  rw [call.eq_def]
  dsimp only
  split
  · split
    · rfl
    · exact h _ _ .pipe
  · unfold callBuiltin
    split
    · split <;> rfl
    · rfl
  · exact h _ _ .defined
  · rfl

/-- A body comes to its end if all that it starts does. -/
theorem isSome_end?_function {fuel : Nat} {f : Function} {args : List Value} {s : State}
    (h : Task.StartedEnd fuel (.function f args) s) :
    (callFunction (fuel + 1) f args s).end?.isSome = true := by
  rw [callFunction]
  split
  · rfl
  · next hmade =>
    refine Run.end?_andThen ?_ fun flow s' _ => rfl
    rw [Run.isSome_end?_mapEnv]
    exact h _ _ (.body hmade)

/-- A statement comes to its end if all that it starts does. -/
theorem isSome_end?_stmt {fuel : Nat} {st : Stmt} {s : State}
    (h : Task.StartedEnd fuel (.stmt st) s) : (exec (fuel + 1) st s).end?.isSome = true := by
  cases st with
  | expr e => exact Run.end?_andThen (h _ _ .expr) fun v s' _ => rfl
  | assign x op e =>
    refine Run.end?_andThen (h _ _ .assigned) fun v s' _ => ?_
    unfold assign
    split
    · rfl
    · split
      · rfl
      · split <;> rfl
  | setItem x i e =>
    refine Run.end?_andThen (h _ _ .place) fun i s' hi =>
      Run.end?_andThen (h _ _ (.placed hi)) fun v s'' _ => ?_
    unfold assignItem
    split
    · rfl
    · split <;> rfl
  | define x params body => rfl
  | choose branches otherwise => exact h _ _ .choice
  | loopWhile c body => exact h _ _ .whileLoop
  | loopFor x e body =>
    refine Run.end?_andThen (h _ _ .iterable) fun v s' hv => ?_
    split
    · next items hitems => exact h _ _ (.forLoop hv hitems)
    · rfl
  | giveBack value =>
    cases value with
    | none => rfl
    | some e => exact Run.end?_andThen (h _ _ .given) fun v s' _ => rfl
  | leave | next | pass => rfl

/-- A choice comes to its end if all that it starts does. -/
theorem isSome_end?_choose {fuel : Nat} {branches : List (Expr × List Stmt)}
    {otherwise : Option (List Stmt)} {s : State}
    (h : Task.StartedEnd fuel (.choose branches otherwise) s) :
    (choose (fuel + 1) branches otherwise s).end?.isSome = true := by
  cases branches with
  | nil =>
    cases otherwise with
    | none => rfl
    | some body => exact h _ _ .otherwise
  | cons branch branches =>
    refine Run.end?_andThen (h _ _ .condition) fun v s' hv => ?_
    split
    · next ht => exact h _ _ (.chosen hv ht)
    · next ht => exact h _ _ (.otherBranches hv (by simpa using ht))

/-- A loop comes to its end if all that it starts does. -/
theorem isSome_end?_loopWhile {fuel : Nat} {c : Expr} {body : List Stmt} {s : State}
    (h : Task.StartedEnd fuel (.loopWhile c body) s) :
    (loopWhile (fuel + 1) c body s).end?.isSome = true := by
  refine Run.end?_andThen (h _ _ .whileCondition) fun v s' hv => ?_
  split
  · next ht =>
    refine Run.end?_andThen (h _ _ (.whileBody hv ht)) fun flow s'' hb => ?_
    cases flow with
    | normal => exact h _ _ (.whileAgain hv ht hb (.inl rfl))
    | next => exact h _ _ (.whileAgain hv ht hb (.inr rfl))
    | leave | giveBack => rfl
  · rfl

/-- A loop over items comes to its end if all that it starts does. -/
theorem isSome_end?_loopFor {fuel : Nat} {x : String} {items : Value.Items} {body : List Stmt}
    {s : State} (h : Task.StartedEnd fuel (.loopFor x items body) s) :
    (loopFor (fuel + 1) x items body s).end?.isSome = true := by
  rw [loopFor]
  split
  · rfl
  · next v others hnext =>
    refine Run.end?_andThen (h _ _ (.forBody hnext)) fun flow s' hb => ?_
    cases flow with
    | normal => exact h _ _ (.forAgain hnext hb (.inl rfl))
    | next => exact h _ _ (.forAgain hnext hb (.inr rfl))
    | leave | giveBack => rfl

/-- The runs that a task starts are all that it needs: it comes to an end if each of them does. -/
theorem Task.isSome_end?_of_starts {fuel : Nat} {task : Task} {s : State}
    (h : Task.StartedEnd fuel task s) : (task.end? (fuel + 1) s).isSome = true := by
  cases task with
  | expr e => exact isSome_end?_expr h
  | exprs es =>
    cases es with
    | nil => rfl
    | cons e es =>
      exact Run.end?_andThen (h _ _ .firstExpr) fun v s' hv =>
        Run.end?_andThen (h _ _ (.otherExprs hv)) fun vs s'' _ => rfl
  | pairs ps es => exact isSome_end?_pairs h
  | call f args => exact isSome_end?_call h
  | thread v fs =>
    cases fs with
    | nil => rfl
    | cons f fs =>
      exact Run.end?_andThen (h _ _ .firstFunction) fun w s' hw => h _ _ (.otherFunctions hw)
  | function f args => exact isSome_end?_function h
  | block script =>
    cases script with
    | nil => rfl
    | cons st rest =>
      refine Run.end?_andThen (h _ _ .firstStmt) fun flow s' hst => ?_
      cases flow with
      | normal => exact h _ _ (.otherStmts hst)
      | leave | next | giveBack => rfl
  | stmt st => exact isSome_end?_stmt h
  | choose branches otherwise => exact isSome_end?_choose h
  | loopWhile c body => exact isSome_end?_loopWhile h
  | loopFor x items body => exact isSome_end?_loopFor h

/-- The runs that a task starts are all needed: where it comes to an end, each of them does. -/
theorem Task.Starts.isSome_end? {fuel : Nat} {task task' : Task} {s s' : State}
    (h : Task.Starts fuel task s task' s') (hend : (task.end? (fuel + 1) s).isSome = true) :
    (task'.end? fuel s').isSome = true := by
  cases h with
  | items | entries | negated | denied | left | conjLeft | disjLeft | callee | target | firstExpr
  | key | firstFunction | firstStmt | expr | assigned | place | iterable | given | condition
  | whileCondition => exact Run.isSome_end?_of_andThen hend
  | pipe | defined | choice | whileLoop | otherwise => exact hend
  | right hl | arguments hl | index hl | otherExprs hl | item hl | placed hl =>
    exact Run.isSome_end?_of_andThen (Run.isSome_end?_next hl hend)
  | conjRight hl ha | chosen hl ha =>
    have hnext := Run.isSome_end?_next hl hend
    rwa [if_pos ha] at hnext
  | disjRight hl ha | otherBranches hl ha =>
    have hnext := Run.isSome_end?_next hl hend
    rwa [ha] at hnext
  | application hf hargs => exact Run.isSome_end?_next hargs (Run.isSome_end?_next hf hend)
  | otherPairs hk he =>
    have hitem := Run.isSome_end?_next hk hend
    have hnext := Run.isSome_end?_next he hitem
    exact hnext
  | otherFunctions hrun | otherStmts hrun =>
    have hnext := Run.isSome_end?_next hrun hend
    exact hnext
  | body hmade =>
    simp only [Task.end?, callFunction, hmade] at hend
    have hbody := Run.isSome_end?_of_andThen hend
    rwa [Run.isSome_end?_mapEnv] at hbody
  | forLoop hv hitems =>
    have hnext := Run.isSome_end?_next hv hend
    rwa [hitems] at hnext
  | whileBody hc ht =>
    have hnext := Run.isSome_end?_next hc hend
    rw [if_pos ht] at hnext
    exact Run.isSome_end?_of_andThen hnext
  | whileAgain hc ht hb hflow =>
    have hnext := Run.isSome_end?_next hc hend
    rw [if_pos ht] at hnext
    have hagain := Run.isSome_end?_next hb hnext
    obtain rfl | rfl := hflow <;> exact hagain
  | forBody hnext =>
    simp only [Task.end?, ScriptShell.loopFor, hnext] at hend
    exact Run.isSome_end?_of_andThen hend
  | forAgain hnext hb hflow =>
    simp only [Task.end?, ScriptShell.loopFor, hnext] at hend
    have hagain := Run.isSome_end?_next hb hend
    obtain rfl | rfl := hflow <;> exact hagain

/-- The runs that a task starts are those that the evaluator starts for it: it comes to an end
exactly if each of them does with one unit of fuel less. -/
theorem Task.isSome_end?_succ_iff {fuel : Nat} {task : Task} {s : State} :
    (task.end? (fuel + 1) s).isSome = true ↔ Task.StartedEnd fuel task s :=
  ⟨fun hend _ _ hstarts => hstarts.isSome_end? hend, Task.isSome_end?_of_starts⟩

end ScriptShell
