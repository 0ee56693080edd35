import ScriptShell.Evaluation.Evaluator
import ScriptShell.Proofs.Value.Operations

/-!
# Disciplines

A discipline says which statements may stand at a place, which departures may end them, which
values there are and which faults there may be. If its rules fit together as the constructs of the
language need it, then whatever runs keeps to it: the values and functions that are bound, the ends
of statements, and the faults. The proof is an induction on fuel over all evaluators at once.
-/

namespace ScriptShell

/-- Where a statement stands: whether there is a loop around it in its function, and whether there
is a function around it. -/
structure Place where
  inLoop : Bool
  inFunction : Bool

namespace Place

/-- Outside of all loops and functions. -/
def top : Place := ⟨false, false⟩

/-- Outside of all loops of a function. -/
def body : Place := ⟨false, true⟩

/-- Inside a loop that stands at a place. -/
def loop (p : Place) : Place := { p with inLoop := true }

end Place

/-- Rules that what runs keeps to if it does so at the start, for a class of values. -/
structure Discipline (Q : Value → Prop) where
  /-- The statements that may stand at a place. -/
  allows : Place → Stmt → Prop
  /-- The departures that may end the statements at a place. -/
  departs : Place → Departure → Prop
  /-- The faults that there may be. -/
  fails : EvalError → Prop
  stable : Value.Stable Q
  leave {p : Place} : allows p .leave → departs p .leave
  next {p : Place} : allows p .next → departs p .next
  giveBack {p : Place} {e : Option Expr} : allows p (.giveBack e) → departs p .giveBack
  define {p : Place} {name : String} {params : List String} {body : List Stmt} :
    allows p (.define name params body) → ∀ serial, Q (.function serial ⟨name, params, body⟩)
  branch {p : Place} {branches : List (Expr × List Stmt)} {otherwise : Option (List Stmt)} :
    allows p (.choose branches otherwise) → ∀ branch ∈ branches, ∀ st ∈ branch.2, allows p st
  otherwise {p : Place} {branches : List (Expr × List Stmt)} {body : List Stmt} :
    allows p (.choose branches (some body)) → ∀ st ∈ body, allows p st
  loopWhile {p : Place} {c : Expr} {body : List Stmt} :
    allows p (.loopWhile c body) → ∀ st ∈ body, allows p.loop st
  loopFor {p : Place} {name : String} {e : Expr} {body : List Stmt} :
    allows p (.loopFor name e body) → ∀ st ∈ body, allows p.loop st
  /-- A loop hands on a departure that gives back a value. -/
  handOn {p : Place} : departs p.loop .giveBack → departs p .giveBack
  called {serial : Nat} {f : Function} : Q (.function serial f) → ∀ st ∈ f.body, allows .body st
  /-- No fault but a departure that is out of place is ruled out. -/
  ordinary {e : EvalError} : e.category ≠ .syntaxError → fails e
  /-- A departure that may end a function, and gives back no value, is out of place there. -/
  leftBody {d : Departure} : departs .body d → d ≠ .giveBack → fails (.misplaced d)
  leftScript {d : Departure} : departs .top d → fails (.misplaced d)

/-- An end of statements at a place that a discipline has. -/
structure Discipline.Ends {Q : Value → Prop} (D : Discipline Q) (p : Place) (flow : Flow) :
    Prop where
  departs : ∀ d, flow.departure? = some d → D.departs p d
  value : ∀ v, flow = .giveBack v → v.Throughout Q

/-- Where a run comes to an end, what is bound is of the class of a discipline, what comes out is
of another class, and the discipline has the fault, if there is one. -/
def Run.Obeys {α : Type} {Q : Value → Prop} (D : Discipline Q) (A : α → Prop) (run : Run α) :
    Prop :=
  ∀ r s, run = .done r s → s.env.Throughout Q ∧ Gives A r ∧ ∀ e, r = .error e → D.fails e

section

variable {Q : Value → Prop} {D : Discipline Q} {α β : Type} {A : α → Prop} {s : State}

/-! ### Runs -/

namespace Run.Obeys

/-- A run without an end breaks no rule. -/
theorem unfinished : (Run.unfinished : Run α).Obeys D A := by
  intro r s heq
  cases heq

/-- A run that comes to an end keeps the rules if its end does. -/
theorem done {r : Except EvalError α} (hs : s.env.Throughout Q) (hr : Gives A r)
    (hfails : ∀ e, r = .error e → D.fails e) : (Run.done r s).Obeys D A := by
  intro r' s' heq
  cases heq
  exact ⟨hs, hr, hfails⟩

/-- A result of an operation keeps the rules, since no operation fails as a syntax error. -/
theorem result {r : Except EvalError α} (hs : s.env.Throughout Q) (hr : Delivers A r) :
    (Run.result r s).Obeys D A := .done hs hr.gives fun e he => D.ordinary (hr.fails e he)

/-- A value of the class keeps the rules. -/
theorem value {a : α} (hs : s.env.Throughout Q) (ha : A a) : (Run.value a s).Obeys D A :=
  .result hs (.ok ha)

/-- A fault that is no syntax error keeps the rules. -/
theorem fault {e : EvalError} (hs : s.env.Throughout Q) (he : e.category ≠ .syntaxError) :
    (Run.fault e s : Run α).Obeys D A := .result hs (.error he)

/-- One run after another. -/
theorem andThen {B : β → Prop} {run : Run α} (h : run.Obeys D A) {next : α → State → Run β}
    (hnext : ∀ a s, A a → s.env.Throughout Q → (next a s).Obeys D B) :
    (run.andThen next).Obeys D B := by
  intro r s heq
  cases run with
  | unfinished => cases heq
  | done ending left =>
    obtain ⟨hleft, hgives, hfails⟩ := h ending left rfl
    cases ending with
    | error e =>
      cases heq
      refine ⟨hleft, .error e, fun e' he => ?_⟩
      cases he
      exact hfails e rfl
    | ok a => exact hnext a left (hgives a rfl) hleft r s heq

/-- A frame that is left takes nothing of another class with it. -/
theorem popFrame {run : Run α} (h : run.Obeys D A) : (run.mapEnv .popFrame).Obeys D A := by
  intro r s heq
  cases run with
  | unfinished => cases heq
  | done ending left =>
    obtain ⟨hleft, hgives, hfails⟩ := h ending left rfl
    cases heq
    exact ⟨hleft.popFrame, hgives, hfails⟩

end Run.Obeys

/-! ### Ends of statements -/

namespace Discipline.Ends

/-- Statements may come to their end at any place. -/
theorem normal {p : Place} : D.Ends p .normal := ⟨nofun, nofun⟩

/-- A loop may be left where its place allows it. -/
theorem leave {p : Place} (h : D.allows p .leave) : D.Ends p .leave := by
  refine ⟨fun d hd => ?_, nofun⟩
  cases hd
  exact D.leave h

/-- A loop may go on where its place allows it. -/
theorem next {p : Place} (h : D.allows p .next) : D.Ends p .next := by
  refine ⟨fun d hd => ?_, nofun⟩
  cases hd
  exact D.next h

/-- A value of the class may be given back where there is a function. -/
theorem giveBack {p : Place} {v : Value} (h : D.departs p .giveBack) (hv : v.Throughout Q) :
    D.Ends p (.giveBack v) := by
  refine ⟨fun d hd => ?_, fun w hw => ?_⟩
  · cases hd
    exact h
  · cases hw
    exact hv

end Discipline.Ends

/-! ### Assignments and calls of built-in functions -/

/-- A name that is bound is bound to a value of the class. -/
theorem delivers_lookUp (hs : s.env.Throughout Q) (name : String) :
    Delivers (Value.Throughout Q) (lookUp name s) := by
  unfold lookUp
  split
  · next hget => exact .ok (hs.get? hget)
  · exact .error nofun

/-- Parameters are bound to arguments of the class. -/
theorem throughout_bindAll (hs : s.env.Throughout Q) (names : List String) {vs : List Value}
    (hvs : ∀ v ∈ vs, v.Throughout Q) : (s.bindAll names vs).env.Throughout Q := by
  induction names generalizing s vs with
  | nil => simpa only [State.bindAll] using hs
  | cons name names ih =>
    cases vs with
    | nil => simpa only [State.bindAll] using hs
    | cons v vs =>
      obtain ⟨hv, hvs⟩ := List.forall_mem_cons.mp hvs
      exact ih (s := s.bind name v) (hs.set name hv) hvs

/-- An assignment binds a value of the class. -/
theorem obeys_assign {p : Place} (name : String) (op : Option Operator) {v : Value}
    (hs : s.env.Throughout Q) (hv : v.Throughout Q) :
    (assign name op v s).Obeys D (D.Ends p) := by
  have hlookUp := delivers_lookUp hs name
  unfold assign
  split
  · exact .value (hs.set name hv) .normal
  · split
    · next hunbound => exact .fault hs (hlookUp.fails _ hunbound)
    · next current hcurrent =>
      have happly := (hlookUp.gives _ hcurrent).apply D.stable hv
      split
      · next hfault => exact .fault hs ((happly _).fails _ hfault)
      · next hresult => exact .value (hs.set name ((happly _).gives _ hresult)) .normal

/-- An assignment to an item puts a value of the class into one of the class. -/
theorem obeys_assignItem {p : Place} (name : String) (index : Value) {v : Value}
    (hs : s.env.Throughout Q) (hv : v.Throughout Q) :
    (assignItem name index v s).Obeys D (D.Ends p) := by
  have hlookUp := delivers_lookUp hs name
  unfold assignItem
  split
  · next hunbound => exact .fault hs (hlookUp.fails _ hunbound)
  · next target htarget =>
    have hitem := (hlookUp.gives _ htarget).withItem D.stable hv index
    split
    · next hfault => exact .fault hs (hitem.fails _ hfault)
    · next hresult => exact .value (hs.replace name (hitem.gives _ hresult)) .normal

/-- A builtin keeps the rules, whatever it does to the files. -/
theorem obeys_callBuiltin (b : Builtin) {args : List Value} (hargs : ∀ v ∈ args, v.Throughout Q)
    (hs : s.env.Throughout Q) : (callBuiltin b args s).Obeys D (Value.Throughout Q) := by
  unfold callBuiltin
  split
  · split
    · exact .value hs.requestExit D.stable.none
    · next hcount => exact .fault hs ((Builtin.succeeds_checkCount ..).fails _ hcount)
  · have hcall := Builtin.delivers_call D.stable b hargs s.world
    exact .result (s := { s with world := (b.call args s.world).2 }) hs hcall

/-- The result of a call whose body ended as the discipline has it. -/
theorem obeys_callResult {flow : Flow} (hflow : D.Ends .body flow) (hs : s.env.Throughout Q) :
    (Run.result (callResult flow) s).Obeys D (Value.Throughout Q) := by
  cases flow with
  | normal => exact .value hs D.stable.none
  | giveBack v => exact .value hs (hflow.value v rfl)
  | leave =>
    refine .done hs (.error _) fun e he => ?_
    cases he
    exact D.leftBody (hflow.departs _ rfl) nofun
  | next =>
    refine .done hs (.error _) fun e he => ?_
    cases he
    exact D.leftBody (hflow.departs _ rfl) nofun

/-! ### The induction on fuel -/

/-- Every evaluator obeys a discipline with a given amount of fuel. -/
structure ObeysWith (D : Discipline Q) (fuel : Nat) : Prop where
  eval : ∀ e s, s.env.Throughout Q → (eval fuel e s).Obeys D (Value.Throughout Q)
  evalAll : ∀ es s, s.env.Throughout Q →
    (evalAll fuel es s).Obeys D (fun vs => ∀ v ∈ vs, v.Throughout Q)
  evalPairs : ∀ pairs es s, (Value.dict es).Throughout Q → s.env.Throughout Q →
    (evalPairs fuel pairs es s).Obeys D (fun es => (Value.dict es).Throughout Q)
  call : ∀ f args s, f.Throughout Q → (∀ v ∈ args, v.Throughout Q) → s.env.Throughout Q →
    (call fuel f args s).Obeys D (Value.Throughout Q)
  thread : ∀ v fs s, v.Throughout Q → (∀ f ∈ fs, f.Throughout Q) → s.env.Throughout Q →
    (thread fuel v fs s).Obeys D (Value.Throughout Q)
  callFunction : ∀ f args s, (∀ st ∈ f.body, D.allows .body st) → (∀ v ∈ args, v.Throughout Q) →
    s.env.Throughout Q → (callFunction fuel f args s).Obeys D (Value.Throughout Q)
  block : ∀ p script s, (∀ st ∈ script, D.allows p st) → s.env.Throughout Q →
    (block fuel script s).Obeys D (D.Ends p)
  exec : ∀ p st s, D.allows p st → s.env.Throughout Q → (exec fuel st s).Obeys D (D.Ends p)
  choose : ∀ p branches otherwise s, (∀ branch ∈ branches, ∀ st ∈ branch.2, D.allows p st) →
    (∀ body, otherwise = some body → ∀ st ∈ body, D.allows p st) → s.env.Throughout Q →
    (choose fuel branches otherwise s).Obeys D (D.Ends p)
  loopWhile : ∀ p c body s, (∀ st ∈ body, D.allows p.loop st) → s.env.Throughout Q →
    (loopWhile fuel c body s).Obeys D (D.Ends p)
  loopFor : ∀ p x items body s, items.Throughout Q → (∀ st ∈ body, D.allows p.loop st) →
    s.env.Throughout Q → (loopFor fuel x items body s).Obeys D (D.Ends p)

section Step

variable {fuel : Nat} (ih : ObeysWith D fuel)
include ih

/-- One step of fuel more keeps the rules for expressions. -/
theorem obeys_eval (e : Expr) (hs : s.env.Throughout Q) :
    (eval (fuel + 1) e s).Obeys D (Value.Throughout Q) := by
  have hQ := D.stable
  cases e with
  | none => exact .value hs hQ.none
  | bool b => exact .value hs (hQ.bool b)
  | int n => exact .value hs (hQ.int n)
  | float x => exact .value hs (hQ.float x)
  | str t => exact .value hs (hQ.str t)
  | name x => exact .result hs (delivers_lookUp hs x)
  | list items => exact (ih.evalAll items s hs).andThen fun vs s hvs hs => .value hs (hQ.list hvs)
  | dict pairs =>
    have hempty : (Value.dict []).Throughout Q := hQ.ofKeys .nil nofun
    exact (ih.evalPairs pairs [] s hempty hs).andThen fun es s hes hs => .value hs hes
  | neg e => exact (ih.eval e s hs).andThen fun v s _ hs => .result hs (delivers_negate hQ v)
  | not e => exact (ih.eval e s hs).andThen fun v s _ hs => .value hs (hQ.bool _)
  | binary op l r =>
    exact (ih.eval l s hs).andThen fun a s ha hs =>
      (ih.eval r s hs).andThen fun b s hb hs => .result hs (ha.apply hQ hb op)
  | and l r =>
    refine (ih.eval l s hs).andThen fun a s ha hs => ?_
    split
    · exact ih.eval r s hs
    · exact .value hs ha
  | or l r =>
    refine (ih.eval l s hs).andThen fun a s ha hs => ?_
    split
    · exact .value hs ha
    · exact ih.eval r s hs
  | call f args =>
    exact (ih.eval f s hs).andThen fun f s hf hs =>
      (ih.evalAll args s hs).andThen fun args s hargs hs => ih.call f args s hf hargs hs
  | index t i =>
    exact (ih.eval t s hs).andThen fun t s ht hs =>
      (ih.eval i s hs).andThen fun i s _ hs => .result hs (ht.item hQ i)

/-- One step of fuel more keeps the rules for lists of expressions. -/
theorem obeys_evalAll (es : List Expr) (hs : s.env.Throughout Q) :
    (evalAll (fuel + 1) es s).Obeys D (fun vs => ∀ v ∈ vs, v.Throughout Q) := by
  cases es with
  | nil => exact .value hs nofun
  | cons e es =>
    exact (ih.eval e s hs).andThen fun v s hv hs =>
      (ih.evalAll es s hs).andThen fun vs s hvs hs =>
        .value hs (List.forall_mem_cons.mpr ⟨hv, hvs⟩)

/-- One step of fuel more keeps the rules for the pairs of a dict, which is of the class as far as
it is built. -/
theorem obeys_evalPairs (pairs : List (Expr × Expr)) {es : Entries Value}
    (hes : (Value.dict es).Throughout Q) (hs : s.env.Throughout Q) :
    (evalPairs (fuel + 1) pairs es s).Obeys D (fun es => (Value.dict es).Throughout Q) := by
  cases pairs with
  | nil => exact .value hs hes
  | cons pair pairs =>
    refine (ih.eval pair.1 s hs).andThen fun k s _ hs => ?_
    split
    · exact (ih.eval pair.2 s hs).andThen fun v s hv hs =>
        ih.evalPairs pairs _ s (D.stable.insertItem hes hv _) hs
    · exact .fault hs nofun

/-- One step of fuel more keeps the rules for calls. -/
theorem obeys_call {f : Value} {args : List Value} (hf : f.Throughout Q)
    (hargs : ∀ v ∈ args, v.Throughout Q) (hs : s.env.Throughout Q) :
    (call (fuel + 1) f args s).Obeys D (Value.Throughout Q) := by
  rw [call.eq_def]
  dsimp only
  split
  · split
    · exact .fault hs nofun
    · obtain ⟨hv, hfs⟩ := List.forall_mem_cons.mp hargs
      exact ih.thread _ _ s hv hfs hs
  · exact obeys_callBuiltin _ hargs hs
  · exact ih.callFunction _ args s (D.called hf.here) hargs hs
  · exact .fault hs nofun

/-- One step of fuel more keeps the rules for values that are threaded through functions. -/
theorem obeys_thread {v : Value} {fs : List Value} (hv : v.Throughout Q)
    (hfs : ∀ f ∈ fs, f.Throughout Q) (hs : s.env.Throughout Q) :
    (thread (fuel + 1) v fs s).Obeys D (Value.Throughout Q) := by
  cases fs with
  | nil => exact .value hs hv
  | cons f fs =>
    obtain ⟨hf, hfs⟩ := List.forall_mem_cons.mp hfs
    exact (ih.call f [v] s hf (List.forall_mem_singleton.mpr hv) hs).andThen fun v s hv hs =>
      ih.thread v fs s hv hfs hs

omit ih in
/-- A call is refused for its arguments or its depth, and not because a departure is out of place. -/
theorem category_of_refusal? {f : Function} {args : List Value} {e : EvalError}
    (h : f.refusal? args s = some e) : e.category ≠ .syntaxError := by
  unfold Function.refusal? at h
  split at h
  · cases h
    nofun
  · split at h
    · cases h
      nofun
    · cases h

/-- One step of fuel more keeps the rules for a body, which stands outside of all loops. -/
theorem obeys_callFunction {f : Function} {args : List Value}
    (hf : ∀ st ∈ f.body, D.allows .body st) (hargs : ∀ v ∈ args, v.Throughout Q)
    (hs : s.env.Throughout Q) :
    (callFunction (fuel + 1) f args s).Obeys D (Value.Throughout Q) := by
  rw [callFunction]
  split
  · next hrefused => exact .fault hs (category_of_refusal? hrefused)
  · let entered : State := { s with env := s.env.pushFrame }
    have hinside := throughout_bindAll (s := entered) hs.pushFrame f.params hargs
    exact (ih.block .body f.body _ hf hinside).popFrame.andThen fun flow s hflow hs =>
      obeys_callResult hflow hs

/-- One step of fuel more keeps the rules for statements in a row. -/
theorem obeys_block {p : Place} {script : List Stmt} (h : ∀ st ∈ script, D.allows p st)
    (hs : s.env.Throughout Q) : (block (fuel + 1) script s).Obeys D (D.Ends p) := by
  cases script with
  | nil => exact .value hs .normal
  | cons st rest =>
    obtain ⟨hst, hrest⟩ := List.forall_mem_cons.mp h
    refine (ih.exec p st s hst hs).andThen fun flow s hflow hs => ?_
    split
    · exact ih.block p rest s hrest hs
    · exact .value hs hflow

/-- One step of fuel more keeps the rules for a statement. -/
theorem obeys_exec {p : Place} {st : Stmt} (h : D.allows p st) (hs : s.env.Throughout Q) :
    (exec (fuel + 1) st s).Obeys D (D.Ends p) := by
  cases st with
  | expr e => exact (ih.eval e s hs).andThen fun v s _ hs => .value hs .normal
  | assign name op e =>
    exact (ih.eval e s hs).andThen fun v s hv hs => obeys_assign name op hs hv
  | setItem name i e =>
    exact (ih.eval i s hs).andThen fun i s _ hs =>
      (ih.eval e s hs).andThen fun v s hv hs => obeys_assignItem name i hs hv
  | define name params body =>
    exact .value (hs.nextSerial.set name (.intro (D.define h _) nofun)) .normal
  | choose branches otherwise =>
    refine ih.choose p branches otherwise s (D.branch h) (fun body hbody => ?_) hs
    rw [hbody] at h
    exact D.otherwise h
  | loopWhile c body => exact ih.loopWhile p c body s (D.loopWhile h) hs
  | loopFor name e body =>
    refine (ih.eval e s hs).andThen fun v s hv hs => ?_
    have hiterate := hv.iterate D.stable
    split
    · next hitems => exact ih.loopFor p name _ body s (hiterate.gives _ hitems) (D.loopFor h) hs
    · next hfault => exact .fault hs (hiterate.fails _ hfault)
  | giveBack value =>
    cases value with
    | none => exact .value hs (.giveBack (D.giveBack h) D.stable.none)
    | some e =>
      exact (ih.eval e s hs).andThen fun v s hv hs => .value hs (.giveBack (D.giveBack h) hv)
  | leave => exact .value hs (.leave h)
  | next => exact .value hs (.next h)
  | pass => exact .value hs .normal

/-- One step of fuel more keeps the rules for a choice, whose branches stand where it does. -/
theorem obeys_choose {p : Place} {branches : List (Expr × List Stmt)}
    {otherwise : Option (List Stmt)}
    (hbranches : ∀ branch ∈ branches, ∀ st ∈ branch.2, D.allows p st)
    (hotherwise : ∀ body, otherwise = some body → ∀ st ∈ body, D.allows p st)
    (hs : s.env.Throughout Q) :
    (choose (fuel + 1) branches otherwise s).Obeys D (D.Ends p) := by
  cases branches with
  | nil =>
    cases otherwise with
    | none => exact .value hs .normal
    | some body => exact ih.block p body s (hotherwise body rfl) hs
  | cons branch branches =>
    obtain ⟨hfirst, hothers⟩ := List.forall_mem_cons.mp hbranches
    refine (ih.eval branch.1 s hs).andThen fun v s _ hs => ?_
    split
    · exact ih.block p branch.2 s hfirst hs
    · exact ih.choose p branches otherwise s hothers hotherwise hs

/-- One step of fuel more keeps the rules for a loop, whose body stands inside it. -/
theorem obeys_loopWhile {p : Place} (c : Expr) {body : List Stmt}
    (h : ∀ st ∈ body, D.allows p.loop st) (hs : s.env.Throughout Q) :
    (loopWhile (fuel + 1) c body s).Obeys D (D.Ends p) := by
  refine (ih.eval c s hs).andThen fun v s _ hs => ?_
  split
  · refine (ih.block p.loop body s h hs).andThen fun flow s hflow hs => ?_
    split
    · exact .value hs .normal
    · exact .value hs (.giveBack (D.handOn (hflow.departs _ rfl)) (hflow.value _ rfl))
    · exact ih.loopWhile p c body s h hs
  · exact .value hs .normal

/-- One step of fuel more keeps the rules for a loop over items of the class. -/
theorem obeys_loopFor {p : Place} (x : String) {items : Value.Items} {body : List Stmt}
    (hitems : items.Throughout Q) (h : ∀ st ∈ body, D.allows p.loop st)
    (hs : s.env.Throughout Q) :
    (loopFor (fuel + 1) x items body s).Obeys D (D.Ends p) := by
  rw [loopFor]
  split
  · exact .value hs .normal
  · next v others hnext =>
    obtain ⟨hv, hothers⟩ := hitems.next? D.stable hnext
    refine (ih.block p.loop body (s.bind x v) h (hs.set x hv)).andThen fun flow s hflow hs => ?_
    split
    · exact .value hs .normal
    · exact .value hs (.giveBack (D.handOn (hflow.departs _ rfl)) (hflow.value _ rfl))
    · exact ih.loopFor p x others body s hothers h hs

end Step

/-- Every evaluator obeys a discipline, with any amount of fuel. -/
theorem obeysWith (D : Discipline Q) (fuel : Nat) : ObeysWith D fuel := by
  induction fuel with
  | zero => constructor <;> intros <;> exact .unfinished
  | succ fuel ih =>
    exact ⟨fun e _ => obeys_eval ih e, fun es _ => obeys_evalAll ih es,
      fun pairs _ _ => obeys_evalPairs ih pairs, fun _ _ _ => obeys_call ih,
      fun _ _ _ => obeys_thread ih, fun _ _ _ => obeys_callFunction ih,
      fun _ _ _ => obeys_block ih, fun _ _ _ => obeys_exec ih, fun _ _ _ _ => obeys_choose ih,
      fun _ c _ _ => obeys_loopWhile ih c, fun _ x _ _ _ => obeys_loopFor ih x⟩

/-- A script of statements that a discipline allows obeys it. -/
theorem obeys_runScript (D : Discipline Q) (fuel : Nat) {script : List Stmt}
    (h : ∀ st ∈ script, D.allows .top st) (hs : s.env.Throughout Q) :
    (runScript fuel script s).Obeys D (fun _ => True) := by
  refine ((obeysWith D fuel).block .top script s h hs).andThen fun flow s hflow hs => ?_
  split
  · exact .value hs trivial
  · next d hd =>
    refine .done hs (.error _) fun e he => ?_
    cases he
    exact D.leftScript (hflow.departs d hd)

end

end ScriptShell
