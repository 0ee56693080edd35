import ScriptShell.Program.Installed
import ScriptShell.Proofs.Evaluation.Bindings
import ScriptShell.Proofs.Evaluation.ComesTo

/-!
# Simple statements

An expression, an assignment, an item assignment and a `return` are simple statements. One that
calls nothing comes to an end, and whatever can fail in it fails before it writes: either it leaves
all as it was, or it has changed the one binding that it names. Which one that is, is said in terms
of the scopes of an environment: an assignment binds in the innermost one, and an item assignment
changes the binding that a lookup of its name finds.
-/

namespace ScriptShell

/-! ### Expressions that call nothing -/

/-- Nothing is called in an expression. -/
inductive Expr.CallFree : Expr → Prop where
  | none : CallFree .none
  | bool (b : Bool) : CallFree (.bool b)
  | int (n : Int64) : CallFree (.int n)
  | float (x : Float) : CallFree (.float x)
  | str (t : String) : CallFree (.str t)
  | name (name : String) : CallFree (.name name)
  | list {items : List Expr} : (∀ e ∈ items, e.CallFree) → CallFree (.list items)
  | dict {pairs : List (Expr × Expr)} :
    (∀ pair ∈ pairs, pair.1.CallFree) → (∀ pair ∈ pairs, pair.2.CallFree) → CallFree (.dict pairs)
  | neg {e : Expr} : e.CallFree → CallFree (.neg e)
  | not {e : Expr} : e.CallFree → CallFree (.not e)
  | binary (op : Operator) {l r : Expr} : l.CallFree → r.CallFree → CallFree (.binary op l r)
  | and {l r : Expr} : l.CallFree → r.CallFree → CallFree (.and l r)
  | or {l r : Expr} : l.CallFree → r.CallFree → CallFree (.or l r)
  | index {t i : Expr} : t.CallFree → i.CallFree → CallFree (.index t i)

/-- A run comes to one end however much fuel it is given beyond some amount, and that end, be it a
value or a fault, is as it should be. -/
def EndsIn {α : Type} (run : Nat → Run α) (P : Except EvalError α → State → Prop) : Prop :=
  ∃ enough r s, (∀ fuel, enough ≤ fuel → run fuel = .done r s) ∧ P r s

/-- A run comes to an end and leaves the state in which it starts. -/
def Settles {α : Type} (run : Nat → Run α) (s : State) : Prop := EndsIn run fun _ s' => s' = s

section

variable {α β : Type} {run : Nat → Run α} {P : Except EvalError α → State → Prop}
  {Q : Except EvalError β → State → Prop} {s : State}

/-- A run that needs no fuel. -/
theorem EndsIn.done {r : Except EvalError α} (h : P r s) : EndsIn (fun _ => .done r s) P :=
  ⟨0, r, s, fun _ _ => rfl, h⟩

/-- One unit of fuel is used at the start. -/
theorem EndsIn.ofSucc (h : EndsIn (fun fuel => run (fuel + 1)) P) : EndsIn run P := by
  obtain ⟨enough, r, s, hrun, hP⟩ := h
  refine ⟨enough + 1, r, s, fun fuel hfuel => ?_, hP⟩
  obtain ⟨less, rfl⟩ := Nat.exists_eq_add_of_le' (Nat.le_of_add_left_le hfuel)
  exact hrun less (Nat.le_of_succ_le_succ hfuel)

/-- One run after another. -/
theorem EndsIn.andThen {next : Nat → α → State → Run β} (h : EndsIn run P)
    (herror : ∀ e s, P (.error e) s → Q (.error e) s)
    (hnext : ∀ a s, P (.ok a) s → EndsIn (fun fuel => next fuel a s) Q) :
    EndsIn (fun fuel => (run fuel).andThen (next fuel)) Q := by
  obtain ⟨enough, r, s, hrun, hP⟩ := h
  cases r with
  | error e =>
    refine ⟨enough, .error e, s, fun fuel hfuel => ?_, herror e s hP⟩
    dsimp only
    rw [hrun fuel hfuel]
    rfl
  | ok a =>
    obtain ⟨more, r, s', hthen, hQ⟩ := hnext a s hP
    refine ⟨max enough more, r, s', fun fuel hfuel => ?_, hQ⟩
    dsimp only
    rw [hrun fuel (Nat.le_trans (Nat.le_max_left ..) hfuel)]
    exact hthen fuel (Nat.le_trans (Nat.le_max_right ..) hfuel)

/-- What comes after a run that leaves the state in which it starts. -/
theorem Settles.before {next : Nat → α → State → Run β} (h : Settles run s)
    (herror : ∀ e, Q (.error e) s) (hnext : ∀ a, EndsIn (fun fuel => next fuel a s) Q) :
    EndsIn (fun fuel => (run fuel).andThen (next fuel)) Q := by
  refine EndsIn.andThen h (fun e s' heq => ?_) (fun a s' heq => ?_)
  · exact heq ▸ herror e
  · exact heq ▸ hnext a

/-- A result of an operation settles in its state. -/
theorem Settles.result (r : Except EvalError α) : Settles (fun _ => .result r s) s := .done rfl

theorem Settles.ofSucc (h : Settles (fun fuel => run (fuel + 1)) s) : Settles run s :=
  EndsIn.ofSucc h

/-- Two runs that settle in a state do so one after the other. -/
theorem Settles.andThen {next : Nat → α → State → Run β} (h : Settles run s)
    (hnext : ∀ a, Settles (fun fuel => next fuel a s) s) :
    Settles (fun fuel => (run fuel).andThen (next fuel)) s := h.before (fun _ => rfl) hnext

end

/-- Expressions that settle do so one after another. -/
theorem settles_evalAll {es : List Expr} {s : State}
    (h : ∀ e ∈ es, Settles (fun fuel => eval fuel e s) s) :
    Settles (fun fuel => evalAll fuel es s) s := by
  induction es with
  | nil => exact .ofSucc (.result (.ok []))
  | cons e es ih =>
    obtain ⟨he, hes⟩ := List.forall_mem_cons.mp h
    exact .ofSucc (he.andThen fun v => (ih hes).andThen fun vs => .result (.ok (v :: vs)))

/-- The pairs of a dict display settle with their expressions. -/
theorem settles_evalPairs {pairs : List (Expr × Expr)} {s : State}
    (hkeys : ∀ pair ∈ pairs, Settles (fun fuel => eval fuel pair.1 s) s)
    (hitems : ∀ pair ∈ pairs, Settles (fun fuel => eval fuel pair.2 s) s) (es : Entries Value) :
    Settles (fun fuel => evalPairs fuel pairs es s) s := by
  induction pairs generalizing es with
  | nil => exact .ofSucc (.result (.ok es))
  | cons pair pairs ih =>
    obtain ⟨k, e⟩ := pair
    obtain ⟨hk, hkeys⟩ := List.forall_mem_cons.mp hkeys
    obtain ⟨he, hitems⟩ := List.forall_mem_cons.mp hitems
    refine .ofSucc (hk.andThen fun key => ?_)
    cases key with
    | str key => exact he.andThen fun v => ih hkeys hitems (es.insert key v)
    | _ => exact .result _

/-- An expression that calls nothing comes to an end and changes nothing. -/
theorem Expr.CallFree.settles {e : Expr} (h : e.CallFree) (s : State) :
    Settles (fun fuel => eval fuel e s) s := by
  induction h with
  | none | bool | int | float | str | name => exact .ofSucc (.result _)
  | list _ ih =>
    exact .ofSucc ((settles_evalAll ih).andThen fun vs => .result (.ok (Value.list vs)))
  | dict _ _ ihkeys ihitems =>
    exact .ofSucc ((settles_evalPairs ihkeys ihitems []).andThen fun es =>
      .result (.ok (Value.dict es)))
  | neg _ ih => exact .ofSucc (ih.andThen fun v => .result v.negate)
  | not _ ih => exact .ofSucc (ih.andThen fun v => .result (.ok (Value.bool (!v.isTruthy))))
  | binary op _ _ ihl ihr =>
    exact .ofSucc (ihl.andThen fun a => ihr.andThen fun b => .result (op.apply a b))
  | and _ _ ihl ihr =>
    refine .ofSucc (ihl.andThen fun a => ?_)
    by_cases ha : a.isTruthy
    · simpa only [if_pos ha] using ihr
    · simpa only [if_neg ha] using .result (.ok a)
  | or _ _ ihl ihr =>
    refine .ofSucc (ihl.andThen fun a => ?_)
    by_cases ha : a.isTruthy
    · simpa only [if_pos ha] using .result (.ok a)
    · simpa only [if_neg ha] using ihr
  | index _ _ iht ihi =>
    exact .ofSucc (iht.andThen fun t => ihi.andThen fun i => .result (t.item i))

/-! ### Statements -/

/-- A statement of one line that calls nothing. -/
inductive Stmt.IsSimple : Stmt → Prop where
  | expr {e : Expr} : e.CallFree → IsSimple (.expr e)
  | assign (name : String) (op : Option Operator) {e : Expr} :
    e.CallFree → IsSimple (.assign name op e)
  | setItem (name : String) {i e : Expr} : i.CallFree → e.CallFree → IsSimple (.setItem name i e)
  | giveBackNone : IsSimple (.giveBack none)
  | giveBack {e : Expr} : e.CallFree → IsSimple (.giveBack (some e))

/-- What a statement that runs may change: an assignment the binding of its name in the innermost
scope, an item assignment the binding that a lookup of its name finds, and any other one none. -/
def Stmt.Effect (before after : Environment) : Stmt → Prop
  | .assign name _ _ => ∃ v, Environment.ChangedOnly before.assignedIn name v before after
  | .setItem name _ _ =>
    ∃ place v, before.foundIn name = some place ∧
      Environment.ChangedOnly place name v before after
  | _ => after = before

/-- All of a statement is done or nothing of it, and the world stays as it is. -/
structure AllOrNothing {α : Type} (st : Stmt) (s : State) (r : Except EvalError α) (s' : State) :
    Prop where
  world : s'.world = s.world
  nothing : ∀ e, r = .error e → s'.env = s.env
  all : ∀ a, r = .ok a → st.Effect s.env s'.env

/-- A failure that leaves the state has done nothing. -/
theorem AllOrNothing.failed {α : Type} (st : Stmt) (s : State) (e : EvalError) :
    AllOrNothing st s (.error e : Except EvalError α) s where
  world := rfl
  nothing _ _ := rfl
  all a heq := by cases heq

/-- A success has done all of the statement. -/
theorem AllOrNothing.done {α : Type} (a : α) {st : Stmt} {s s' : State}
    (hworld : s'.world = s.world) (heffect : st.Effect s.env s'.env) :
    AllOrNothing st s (.ok a) s' where
  world := hworld
  nothing e heq := by cases heq
  all _ _ := heffect

/-- How a simple statement ends: it fails and leaves all as it was, it gives a value back and leaves
all as it was, or it runs and has its effect. -/
inductive EndsSimply (st : Stmt) (s : State) : Except EvalError Flow → State → Prop where
  | failed (e : EvalError) : EndsSimply st s (.error e) s
  | gaveBack (v : Value) (heffect : st.Effect s.env s.env) : EndsSimply st s (.ok (.giveBack v)) s
  | ran {env : Environment} (heffect : st.Effect s.env env) :
    EndsSimply st s (.ok .normal) { s with env := env }

/-- An assignment binds its name or changes nothing. -/
theorem assign_endsSimply (name : String) (op : Option Operator) (e : Expr) (v : Value)
    (s : State) : EndsIn (fun _ => assign name op v s) (EndsSimply (.assign name op e) s) := by
  have hbind : ∀ v, EndsSimply (.assign name op e) s (.ok .normal) (s.bind name v) :=
    fun v => .ran ⟨v, Environment.changedOnly_set name v s.env⟩
  unfold assign
  cases op with
  | none => exact .done (hbind v)
  | some op =>
    cases lookUp name s with
    | error fault => exact .done (.failed fault)
    | ok current =>
      cases hop : op.apply current v with
      | error fault => simpa only [hop] using .done (.failed fault)
      | ok v => simpa only [hop] using .done (hbind v)

/-- A name whose lookup gives a value is found in some scope. -/
theorem exists_foundIn {name : String} {v : Value} {s : State} (h : lookUp name s = .ok v) :
    ∃ place, s.env.foundIn name = some place := by
  unfold lookUp at h
  split at h
  · next hget =>
    rw [Environment.get?_eq_binding?] at hget
    obtain ⟨place, hplace, -⟩ := Option.bind_eq_some_iff.mp hget
    exact ⟨place, hplace⟩
  · cases h

/-- An assignment to an item binds its name to the changed value or changes nothing. -/
theorem assignItem_endsSimply (name : String) (i e : Expr) (index v : Value) (s : State) :
    EndsIn (fun _ => assignItem name index v s) (EndsSimply (.setItem name i e) s) := by
  unfold assignItem
  cases hlook : lookUp name s with
  | error fault => exact .done (.failed fault)
  | ok target =>
    cases hitem : target.withItem index v with
    | error fault => simpa only [hitem] using .done (.failed fault)
    | ok after =>
      obtain ⟨place, hplace⟩ := exists_foundIn hlook
      simpa only [hitem] using
        .done (.ran ⟨place, after, hplace, Environment.changedOnly_replace hplace after⟩)

/-- Expressions are evaluated before anything is written, and what writes fails or is done. -/
theorem Stmt.IsSimple.endsSimply {st : Stmt} (h : st.IsSimple) (s : State) :
    EndsIn (fun fuel => exec fuel st s) (EndsSimply st s) := by
  refine .ofSucc ?_
  cases h with
  | expr he => exact (he.settles s).before .failed fun v => .done (.ran rfl)
  | assign name op he => exact (he.settles s).before .failed fun v => assign_endsSimply ..
  | setItem name hi he =>
    exact (hi.settles s).before .failed fun i =>
      (he.settles s).before .failed fun v => assignItem_endsSimply ..
  | giveBackNone => exact .done (.gaveBack .none rfl)
  | giveBack he => exact (he.settles s).before .failed fun v => .done (.gaveBack v rfl)

/-- A statement that ends simply has done all or nothing. -/
theorem EndsSimply.allOrNothing {st : Stmt} {s s' : State} {r : Except EvalError Flow}
    (h : EndsSimply st s r s') : AllOrNothing st s r s' := by
  cases h with
  | failed e => exact .failed st s e
  | gaveBack v heffect => exact .done _ rfl heffect
  | ran heffect => exact .done _ rfl heffect

/-- A simple statement as the whole of a script, where a `return` fails in its own place. -/
theorem Stmt.IsSimple.runScript {st : Stmt} (h : st.IsSimple) (s : State) :
    EndsIn (fun fuel => runScript fuel [st] s) (AllOrNothing st s) := by
  have hblock : EndsIn (fun fuel => block fuel [st] s) (EndsSimply st s) := by
    refine .ofSucc ((h.endsSimply s).andThen (fun e s' => id) fun flow s' hends => ?_)
    cases hends with
    | gaveBack v heffect => exact .done (.gaveBack v heffect)
    | ran heffect => exact .ofSucc (.done (.ran heffect))
  refine hblock.andThen (fun e s' hends => ?_) fun flow s' hends => ?_
  · cases hends
    exact .failed st s e
  · cases hends with
    | gaveBack v heffect => exact .done (.failed st s _)
    | ran heffect => exact .done (.done () rfl heffect)

/-- A run that ends as it should comes to an end, and to none that is otherwise. -/
theorem EndsIn.comesTo {α : Type} {run : Nat → Run α} {P : Except EvalError α → State → Prop}
    (h : EndsIn run P) (hlasts : Lasts run) :
    (∃ r s', ComesTo run r s') ∧ ∀ r s', ComesTo run r s' → P r s' := by
  obtain ⟨enough, r, s, hrun, hP⟩ := h
  have hends : ComesTo run r s := ⟨enough, hrun enough (Nat.le_refl enough)⟩
  refine ⟨⟨r, s, hends⟩, fun r' s' hends' => ?_⟩
  obtain ⟨rfl, rfl⟩ := hends.unique hlasts hends'
  exact hP

/-- A simple statement that calls nothing comes to an end. If that is a fault, the environment is as
it was, with all that is bound in it; otherwise nothing has changed but the one binding that the
statement names: in the innermost scope for an assignment, and where a lookup finds the name for an
item assignment. The same is true where the statement is all of a script. -/
theorem simple_statement_all_or_nothing {st : Stmt} (h : st.IsSimple) (s : State) :
    ((∃ r s', ComesTo (fun fuel => exec fuel st s) r s') ∧
        ∀ r s', ComesTo (fun fuel => exec fuel st s) r s' → AllOrNothing st s r s') ∧
      (∃ r s', ComesTo (fun fuel => runScript fuel [st] s) r s') ∧
        ∀ r s', ComesTo (fun fuel => runScript fuel [st] s) r s' → AllOrNothing st s r s' := by
  have hexec := (h.endsSimply s).comesTo (exec_lasts st s)
  have hscript := (h.runScript s).comesTo fun fuel => runScript_endsAs (Nat.le_succ fuel) [st] s
  exact ⟨⟨hexec.1, fun r s' hends => (hexec.2 r s' hends).allOrNothing⟩, hscript⟩

/-- An item assignment in a call, to a list that is bound among the locals and under a name that the
globals bind too. -/
theorem simple_statement_all_or_nothing_item :
    let st : Stmt := .setItem "xs" (.neg (.int 1)) (.index (.name "xs") (.int 0))
    let s : State := ⟨⟨[("xs", .none)], [("xs", .list [.int 1, .int 2])], [[("y", .int 3)]],
      false, 0⟩, .installed 0 "/"⟩
    st.IsSimple ∧ s.env.foundIn "xs" = some .locals ∧
      ∀ r s', ComesTo (fun fuel => exec fuel st s) r s' → AllOrNothing st s r s' := by
  intro st s
  have h : st.IsSimple := .setItem "xs" (.neg (.int 1)) (.index (.name "xs") (.int 0))
  exact ⟨h, rfl, (simple_statement_all_or_nothing h s).1.2⟩

end ScriptShell
