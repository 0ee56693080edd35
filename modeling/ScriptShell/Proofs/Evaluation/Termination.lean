import ScriptShell.Evaluation.Evaluator
import ScriptShell.Program.Installed
import ScriptShell.Proofs.Value.Functions

/-!
# Scripts without `while` come to an end

Without `while` only calls can go on for ever, and there can be no more than so many calls under
way. The proof is by induction on the number of calls that may still be made; for each number it
goes through the expression or statement, and through the items that a loop has left. Threading a
value through functions takes no frame: it is an induction on the functions, each of which is called
with one argument, so threading inside threading is over at once.
-/

namespace ScriptShell

/-! ### No `while` -/

/-- A statement in which no `while` stands, nor in any statement in it or in a function that it
defines. -/
inductive Stmt.WhileFree : Stmt → Prop where
  | expr (e : Expr) : WhileFree (.expr e)
  | assign (name : String) (op : Option Operator) (e : Expr) : WhileFree (.assign name op e)
  | setItem (name : String) (i e : Expr) : WhileFree (.setItem name i e)
  | define (name : String) (params : List String) {body : List Stmt} :
      (∀ st ∈ body, WhileFree st) → WhileFree (.define name params body)
  | choose {branches : List (Expr × List Stmt)} {otherwise : Option (List Stmt)} :
      (∀ branch ∈ branches, ∀ st ∈ branch.2, WhileFree st) →
      (∀ body, otherwise = some body → ∀ st ∈ body, WhileFree st) →
      WhileFree (.choose branches otherwise)
  | loopFor (name : String) (e : Expr) {body : List Stmt} : (∀ st ∈ body, WhileFree st) →
      WhileFree (.loopFor name e body)
  | giveBack (value : Option Expr) : WhileFree (.giveBack value)
  | leave : WhileFree .leave
  | next : WhileFree .next
  | pass : WhileFree .pass

/-- A function in whose body no `while` stands. -/
def Function.WhileFree (f : Function) : Prop := ∀ st ∈ f.body, st.WhileFree

/-! ### Runs that come to an end -/

/-- A run comes to one end however much fuel it is given beyond some amount, and if it gives back a
value, that and the state it leaves are as they should be. -/
def Ends {α : Type} (run : Nat → Run α) (Q : α → State → Prop) : Prop :=
  ∃ enough r s, (∀ fuel, enough ≤ fuel → run fuel = .done r s) ∧ ∀ a, r = .ok a → Q a s

namespace Ends

variable {α β : Type} {Q : α → State → Prop}

/-- A run that needs no fuel. -/
theorem result {r : Except EvalError α} {s : State} (h : ∀ a, r = .ok a → Q a s) :
    Ends (fun _ => .result r s) Q := ⟨0, r, s, fun _ _ => rfl, h⟩

theorem value {a : α} {s : State} (h : Q a s) : Ends (fun _ => .value a s) Q := by
  refine result fun b hb => ?_
  cases hb
  exact h

theorem fault (e : EvalError) (s : State) : Ends (fun _ => .fault e s) Q := result nofun

/-- One unit of fuel is used at the start. -/
theorem ofSucc {run : Nat → Run α} (h : Ends (fun fuel => run (fuel + 1)) Q) : Ends run Q := by
  obtain ⟨enough, r, s, hrun, hQ⟩ := h
  refine ⟨enough + 1, r, s, fun fuel hfuel => ?_, hQ⟩
  obtain ⟨less, rfl⟩ := Nat.exists_eq_add_of_le' (Nat.le_of_add_left_le hfuel)
  exact hrun less (Nat.le_of_succ_le_succ hfuel)

/-- One run after another. -/
theorem andThen {R : β → State → Prop} {run : Nat → Run β} (h : Ends run R)
    {next : Nat → β → State → Run α} (hnext : ∀ b s, R b s → Ends (fun fuel => next fuel b s) Q) :
    Ends (fun fuel => (run fuel).andThen (next fuel)) Q := by
  obtain ⟨enough, r, s, hrun, hR⟩ := h
  cases r with
  | error e =>
    refine ⟨enough, .error e, s, fun fuel hfuel => ?_, nofun⟩
    dsimp only
    rw [hrun fuel hfuel]
    rfl
  | ok b =>
    obtain ⟨enough', r', s', hrun', hQ⟩ := hnext b s (hR b rfl)
    refine ⟨max enough enough', r', s', fun fuel hfuel => ?_, hQ⟩
    dsimp only
    rw [hrun fuel (Nat.le_trans (Nat.le_max_left ..) hfuel)]
    exact hrun' fuel (Nat.le_trans (Nat.le_max_right ..) hfuel)

/-- A run with the environment it leaves changed. -/
theorem mapEnv {R : α → State → Prop} {run : Nat → Run α} (h : Ends run R)
    {f : Environment → Environment} (hf : ∀ a s, R a s → Q a { s with env := f s.env }) :
    Ends (fun fuel => (run fuel).mapEnv f) Q := by
  obtain ⟨enough, r, s, hrun, hR⟩ := h
  refine ⟨enough, r, { s with env := f s.env }, fun fuel hfuel => ?_,
    fun a ha => hf a s (hR a ha)⟩
  dsimp only
  rw [hrun fuel hfuel]
  rfl

end Ends

/-! ### States and results -/

/-- A state in which no function has a `while` and at most `calls` more calls can be made. -/
structure State.Bounded (calls : Nat) (s : State) : Prop where
  functions : s.env.HoldsOnly Function.WhileFree
  depth : greatestDepth ≤ s.env.depth + calls

/-- A value without `while` in a bounded state. -/
def BoundedValue (calls : Nat) (v : Value) (s : State) : Prop :=
  v.HoldsOnly Function.WhileFree ∧ s.Bounded calls

/-- Values without `while` in a bounded state. -/
def BoundedValues (calls : Nat) (vs : List Value) (s : State) : Prop :=
  (∀ v ∈ vs, v.HoldsOnly Function.WhileFree) ∧ s.Bounded calls

/-- An end of statements that gives back no `while`, in a bounded state. -/
def BoundedFlow (calls : Nat) (flow : Flow) (s : State) : Prop :=
  (∀ v, flow = .giveBack v → v.HoldsOnly Function.WhileFree) ∧ s.Bounded calls

namespace State.Bounded

variable {calls : Nat} {s : State} (h : s.Bounded calls)
include h

/-- A fault, or a value without `while`, where nothing else is run. -/
theorem result {r : Except EvalError Value} (hr : Gives (Value.HoldsOnly Function.WhileFree) r) :
    Ends (fun _ => .result r s) (BoundedValue calls) := .result fun a ha => ⟨hr a ha, h⟩

/-- Statements that end without giving back a value. -/
theorem flow {flow : Flow} (hflow : ∀ v, flow ≠ .giveBack v) : BoundedFlow calls flow s :=
  ⟨fun v hv => absurd hv (hflow v), h⟩

/-- A name is bound to a value whose functions have no loop with a condition. -/
theorem lookUp (name : String) : Gives (Value.HoldsOnly Function.WhileFree) (lookUp name s) := by
  unfold ScriptShell.lookUp
  split
  · next hget => exact .ok (h.functions.get? hget)
  · exact .error _

/-- Bindings make no call. -/
theorem bind {v : Value} (hv : v.HoldsOnly Function.WhileFree) (name : String) :
    (s.bind name v).Bounded calls := by
  refine ⟨h.functions.set name hv, ?_⟩
  have hdepth := s.env.depth_set name v
  exact Nat.le_trans h.depth (Nat.le_of_eq (congrArg (· + calls) hdepth.symm))

theorem replace {v : Value} (hv : v.HoldsOnly Function.WhileFree) (name : String) :
    State.Bounded calls { s with env := s.env.replace name v } := by
  refine ⟨h.functions.replace name hv, ?_⟩
  have hdepth := s.env.depth_replace name v
  exact Nat.le_trans h.depth (Nat.le_of_eq (congrArg (· + calls) hdepth.symm))

end State.Bounded

/-- Binding such arguments leaves as many calls. -/
theorem State.Bounded.bindAll {calls : Nat} {s : State} (h : s.Bounded calls)
    (names : List String) {vs : List Value} (hvs : ∀ v ∈ vs, v.HoldsOnly Function.WhileFree) :
    (s.bindAll names vs).Bounded calls := by
  induction names generalizing s vs with
  | nil => simpa only [State.bindAll] using h
  | cons name names ih =>
    cases vs with
    | nil => simpa only [State.bindAll] using h
    | cons v vs =>
      obtain ⟨hv, hvs⟩ := List.forall_mem_cons.mp hvs
      exact ih (h.bind hv name) hvs

/-- In the frame of a call one call less can be made. -/
theorem State.Bounded.pushFrame {calls : Nat} {s : State} (h : s.Bounded (calls + 1)) :
    State.Bounded calls { s with env := s.env.pushFrame } := by
  refine ⟨h.functions.pushFrame, ?_⟩
  have hdepth : s.env.pushFrame.depth = s.env.depth + 1 := rfl
  have hle := h.depth
  change greatestDepth ≤ s.env.pushFrame.depth + calls
  omega

/-- Behind a call one call more can be made. -/
theorem State.Bounded.popFrame {calls : Nat} {s : State} (h : s.Bounded calls) :
    State.Bounded (calls + 1) { s with env := s.env.popFrame } := by
  refine ⟨h.functions.popFrame, ?_⟩
  have hdepth : s.env.popFrame.depth = s.env.depth - 1 := List.length_tail ..
  have hle := h.depth
  change greatestDepth ≤ s.env.popFrame.depth + (calls + 1)
  omega

/-! ### Expressions -/

/-- The functions that scripts define come to an end where at most `calls` more calls can be
made. -/
def FunctionsEnd (calls : Nat) : Prop :=
  ∀ f args s, Function.WhileFree f → BoundedValues calls args s →
    Ends (fun fuel => callFunction fuel f args s) (BoundedValue calls)

/-- Built-in functions other than `pipe` make no call. -/
theorem ends_callBuiltin {calls : Nat} (b : Builtin) {args : List Value} {s : State}
    (h : BoundedValues calls args s) :
    Ends (fun _ => callBuiltin b args s) (BoundedValue calls) := by
  obtain ⟨hargs, hs⟩ := h
  unfold callBuiltin
  split
  · split
    · exact .value ⟨.none, hs.functions.requestExit, hs.depth⟩
    · exact .fault _ s
  · have hgives := Builtin.holdsOnly_call (P := Function.WhileFree) b hargs s.world
    exact .result fun a ha => ⟨hgives a ha, hs.functions, hs.depth⟩

section Expressions

variable {calls : Nat} (hcalls : FunctionsEnd calls)
include hcalls

/-- A call comes to an end if threading its first argument through the others does. -/
theorem ends_callIf {f : Value} {args : List Value} {s : State}
    (hf : f.HoldsOnly Function.WhileFree) (h : BoundedValues calls args s)
    (hthread : ∀ v fs, args = v :: fs →
      Ends (fun fuel => thread fuel v fs s) (BoundedValue calls)) :
    Ends (fun fuel => call fuel f args s) (BoundedValue calls) := by
  refine .ofSucc ?_
  simp only [call.eq_def]
  split
  · split
    · exact .fault _ s
    · exact hthread _ _ rfl
  · exact ends_callBuiltin _ h
  · cases hf with
    | function _ hfree => exact hcalls _ _ s hfree h
  · exact .fault _ s

/-- A call with one argument comes to an end: threading a value through no function is over at
once. -/
theorem ends_callWithOne {f v : Value} {s : State} (hf : f.HoldsOnly Function.WhileFree)
    (h : BoundedValue calls v s) :
    Ends (fun fuel => call fuel f [v] s) (BoundedValue calls) := by
  have hargs : BoundedValues calls [v] s := ⟨List.forall_mem_singleton.mpr h.1, h.2⟩
  refine ends_callIf hcalls hf hargs fun w fs hone => ?_
  cases hone
  exact .ofSucc (.value h)

/-- Threading a value through functions comes to an end. -/
theorem ends_thread {fs : List Value} (hfs : ∀ f ∈ fs, f.HoldsOnly Function.WhileFree) {v : Value}
    {s : State} (h : BoundedValue calls v s) :
    Ends (fun fuel => thread fuel v fs s) (BoundedValue calls) := by
  induction fs generalizing v s with
  | nil => exact .ofSucc (.value h)
  | cons f fs ih =>
    obtain ⟨hf, hfs⟩ := List.forall_mem_cons.mp hfs
    exact .ofSucc ((ends_callWithOne hcalls hf h).andThen fun w s hw => ih hfs hw)

/-- A call comes to an end. -/
theorem ends_call {f : Value} {args : List Value} {s : State}
    (hf : f.HoldsOnly Function.WhileFree) (h : BoundedValues calls args s) :
    Ends (fun fuel => call fuel f args s) (BoundedValue calls) := by
  refine ends_callIf hcalls hf h fun v fs hargs => ?_
  subst hargs
  obtain ⟨hv, hfs⟩ := List.forall_mem_cons.mp h.1
  exact ends_thread hcalls hfs ⟨hv, h.2⟩

end Expressions

mutual

/-- Evaluating an expression comes to an end. -/
theorem ends_eval {calls : Nat} (hcalls : FunctionsEnd calls) (e : Expr) {s : State}
    (h : s.Bounded calls) :
    Ends (fun fuel => eval fuel e s) (BoundedValue calls) := by
  refine .ofSucc ?_
  match e with
  | .none => exact .value ⟨.none, h⟩
  | .bool b => exact .value ⟨.bool b, h⟩
  | .int n => exact .value ⟨.int n, h⟩
  | .float x => exact .value ⟨.float x, h⟩
  | .str t => exact .value ⟨.str t, h⟩
  | .name x => exact h.result (h.lookUp x)
  | .list items =>
    exact (ends_evalAll hcalls items h).andThen fun vs s hvs => .value ⟨.list hvs.1, hvs.2⟩
  | .dict pairs =>
    have hnone : Entries.HoldOnly Function.WhileFree [] := nofun
    exact (ends_evalPairs hcalls pairs hnone h).andThen fun es s hes => .value ⟨.dict hes.1, hes.2⟩
  | .neg e => exact (ends_eval hcalls e h).andThen fun v s hv => hv.2.result (holdsOnly_negate v)
  | .not e => exact (ends_eval hcalls e h).andThen fun v s hv => .value ⟨.bool _, hv.2⟩
  | .binary op l r =>
    exact (ends_eval hcalls l h).andThen fun a s ha =>
      (ends_eval hcalls r ha.2).andThen fun b s hb => hb.2.result (ha.1.apply hb.1 op)
  | .and l r =>
    refine (ends_eval hcalls l h).andThen fun a s ha => ?_
    split
    · exact ends_eval hcalls r ha.2
    · exact .value ha
  | .or l r =>
    refine (ends_eval hcalls l h).andThen fun a s ha => ?_
    split
    · exact .value ha
    · exact ends_eval hcalls r ha.2
  | .call f args =>
    exact (ends_eval hcalls f h).andThen fun f s hf =>
      (ends_evalAll hcalls args hf.2).andThen fun args s hargs => ends_call hcalls hf.1 hargs
  | .index t i =>
    exact (ends_eval hcalls t h).andThen fun t s ht =>
      (ends_eval hcalls i ht.2).andThen fun i s hi => hi.2.result (ht.1.item i)

/-- Evaluating expressions in order comes to an end. -/
theorem ends_evalAll {calls : Nat} (hcalls : FunctionsEnd calls) (es : List Expr) {s : State}
    (h : s.Bounded calls) :
    Ends (fun fuel => evalAll fuel es s) (BoundedValues calls) := by
  refine .ofSucc ?_
  match es with
  | [] => exact .value ⟨nofun, h⟩
  | e :: es =>
    exact (ends_eval hcalls e h).andThen fun v s hv =>
      (ends_evalAll hcalls es hv.2).andThen fun vs s hvs =>
        .value ⟨List.forall_mem_cons.mpr ⟨hv.1, hvs.1⟩, hvs.2⟩

/-- Evaluating the pairs of a dict display comes to an end. -/
theorem ends_evalPairs {calls : Nat} (hcalls : FunctionsEnd calls) (pairs : List (Expr × Expr))
    {es : Entries Value} (hes : es.HoldOnly Function.WhileFree) {s : State} (h : s.Bounded calls) :
    Ends (fun fuel => evalPairs fuel pairs es s)
      (fun es s => es.HoldOnly Function.WhileFree ∧ s.Bounded calls) := by
  refine .ofSucc ?_
  match pairs with
  | [] => exact .value ⟨hes, h⟩
  | (k, e) :: pairs =>
    refine (ends_eval hcalls k h).andThen fun key s hkey => ?_
    split
    · exact (ends_eval hcalls e hkey.2).andThen fun v s hv =>
        ends_evalPairs hcalls pairs (hes.insert hv.1 _) hv.2
    · exact .fault _ s

end

/-! ### Statements -/

/-- An assignment ends, and leaves as many calls. -/
theorem ends_assign {calls : Nat} (name : String) (op : Option Operator) {v : Value} {s : State}
    (h : BoundedValue calls v s) : Ends (fun _ => assign name op v s) (BoundedFlow calls) := by
  obtain ⟨hv, hs⟩ := h
  unfold assign
  split
  · exact .value ((hs.bind hv name).flow (by simp))
  · split
    · exact .fault _ s
    · next current hcurrent =>
      split
      · exact .fault _ s
      · next w hw =>
        have hholds := ((hs.lookUp name) current hcurrent).apply hv _ w hw
        exact .value ((hs.bind hholds name).flow (by simp))

/-- An assignment to an item ends, and leaves as many calls. -/
theorem ends_assignItem {calls : Nat} (name : String) (index : Value) {v : Value} {s : State}
    (h : BoundedValue calls v s) :
    Ends (fun _ => assignItem name index v s) (BoundedFlow calls) := by
  obtain ⟨hv, hs⟩ := h
  unfold assignItem
  split
  · exact .fault _ s
  · next target htarget =>
    split
    · exact .fault _ s
    · next after hafter =>
      have hholds := ((hs.lookUp name) target htarget).withItem hv index after hafter
      exact .value ((hs.replace hholds name).flow nofun)

/-- The number of items that are still to come. -/
def Value.Items.left : Value.Items → Nat
  | .values vs => vs.length
  | .steps r i => r.length - i

/-- Taking an item leaves one less. -/
theorem Value.Items.left_next? {items others : Value.Items} {v : Value}
    (h : items.next? = some (v, others)) : others.left < items.left := by
  unfold next? at h
  split at h
  · cases h
  · cases h
    exact Nat.lt_succ_self _
  · next r i =>
    obtain ⟨n, hn, heq⟩ := Option.map_eq_some_iff.mp h
    cases heq
    have hlt : i < r.length := by
      unfold Progression.get? at hn
      split at hn
      · assumption
      · cases hn
    exact Nat.sub_lt_sub_left hlt (Nat.lt_succ_self i)

/-- A statement comes to an end where at most `calls` more calls can be made. -/
def StmtEnds (calls : Nat) (st : Stmt) : Prop :=
  ∀ s, s.Bounded calls → Ends (fun fuel => exec fuel st s) (BoundedFlow calls)

section Statements

variable {calls : Nat} {s : State}

/-- Statements in order come to an end if each of them does. -/
theorem ends_block {script : List Stmt} (hscript : ∀ st ∈ script, StmtEnds calls st)
    (h : s.Bounded calls) : Ends (fun fuel => block fuel script s) (BoundedFlow calls) := by
  induction script generalizing s with
  | nil => exact .ofSucc (.value (h.flow nofun))
  | cons st rest ih =>
    obtain ⟨hst, hrest⟩ := List.forall_mem_cons.mp hscript
    refine .ofSucc ((hst s h).andThen fun flow s hflow => ?_)
    cases flow with
    | normal => exact ih hrest hflow.2
    | leave | next | giveBack => exact .value hflow

/-- A loop comes to an end if its body does, whatever the body does to what is gone through: the
items were fixed when the loop started. -/
theorem ends_loopFor (x : String) {items : Value.Items}
    (hitems : items.HoldOnly Function.WhileFree) {body : List Stmt}
    (hbody : ∀ st ∈ body, StmtEnds calls st) (h : s.Bounded calls) :
    Ends (fun fuel => loopFor fuel x items body s) (BoundedFlow calls) := by
  induction hleft : items.left using Nat.strongRecOn generalizing items s with
  | ind left ih =>
    refine .ofSucc ?_
    simp only [loopFor]
    split
    · exact .value (h.flow nofun)
    · next v others hnext =>
      obtain ⟨hv, hothers⟩ := hitems.next? hnext
      have hless : others.left < left := hleft ▸ Value.Items.left_next? hnext
      refine (ends_block hbody (h.bind hv x)).andThen fun flow s hflow => ?_
      cases flow with
      | normal => exact ih _ hless hothers hflow.2 rfl
      | next => exact ih _ hless hothers hflow.2 rfl
      | leave => exact .value (hflow.2.flow nofun)
      | giveBack v => exact .value hflow

variable (hcalls : FunctionsEnd calls)
include hcalls

/-- A choice comes to an end if all that can be chosen does. -/
theorem ends_choose {branches : List (Expr × List Stmt)} {otherwise : Option (List Stmt)}
    (hbranches : ∀ branch ∈ branches, ∀ st ∈ branch.2, StmtEnds calls st)
    (hotherwise : ∀ body, otherwise = some body → ∀ st ∈ body, StmtEnds calls st)
    (h : s.Bounded calls) :
    Ends (fun fuel => choose fuel branches otherwise s) (BoundedFlow calls) := by
  induction branches generalizing s with
  | nil =>
    cases otherwise with
    | none => exact .ofSucc (.value (h.flow nofun))
    | some body => exact .ofSucc (ends_block (hotherwise body rfl) h)
  | cons branch branches ih =>
    obtain ⟨hfirst, hothers⟩ := List.forall_mem_cons.mp hbranches
    refine .ofSucc ((ends_eval hcalls branch.1 h).andThen fun v s hv => ?_)
    split
    · exact ends_block hfirst hv.2
    · exact ih hothers hv.2

/-- A statement without `while` comes to an end. -/
theorem Stmt.WhileFree.ends {st : Stmt} (hst : st.WhileFree) : StmtEnds calls st := by
  induction hst with
  | expr e =>
    exact fun s h => .ofSucc ((ends_eval hcalls e h).andThen fun v s hv =>
      .value (hv.2.flow nofun))
  | assign name op e =>
    exact fun s h => .ofSucc ((ends_eval hcalls e h).andThen fun v s hv => ends_assign name op hv)
  | setItem name i e =>
    exact fun s h => .ofSucc ((ends_eval hcalls i h).andThen fun i s hi =>
      (ends_eval hcalls e hi.2).andThen fun v s hv => ends_assignItem name i hv)
  | define name params hbody =>
    intro s h
    have hfree : Function.WhileFree ⟨name, params, _⟩ := hbody
    let counted : State := { s with env := s.env.nextSerial.2 }
    have hcounted : counted.Bounded calls := ⟨h.functions.nextSerial, h.depth⟩
    exact .ofSucc (.value ((hcounted.bind (.function _ hfree) name).flow nofun))
  | choose _ _ ihb iho => exact fun s h => .ofSucc (ends_choose hcalls ihb iho h)
  | loopFor name e _ ih =>
    intro s h
    refine .ofSucc ((ends_eval hcalls e h).andThen fun v s hv => ?_)
    split
    · next items hitems => exact ends_loopFor name (hv.1.iterate items hitems) ih hv.2
    · exact .fault _ s
  | giveBack value =>
    intro s h
    cases value with
    | none =>
      refine .ofSucc (.value ⟨fun v hv => ?_, h⟩)
      cases hv
      exact .none
    | some e =>
      refine .ofSucc ((ends_eval hcalls e h).andThen fun v s hv =>
        .value ⟨fun w hw => ?_, hv.2⟩)
      cases hw
      exact hv.1
  | leave | next | pass => exact fun s h => .ofSucc (.value (h.flow nofun))

end Statements

/-! ### Functions and scripts -/

/-- What a call gives back is what its body gave back. -/
theorem BoundedFlow.callResult {calls : Nat} {flow : Flow} {s : State}
    (h : BoundedFlow calls flow s) :
    Gives (Value.HoldsOnly Function.WhileFree) (callResult flow) := by
  cases flow with
  | giveBack v => exact .ok (h.1 v rfl)
  | normal => exact .ok .none
  | leave => exact .error _
  | next => exact .error _

/-- Where no call can be made a call is refused; otherwise its body runs where one call less can be
made. -/
theorem functionsEnd (calls : Nat) : FunctionsEnd calls := by
  induction calls with
  | zero =>
    intro f args s _ h
    have hdeep : greatestDepth ≤ s.env.depth := h.2.depth
    refine .ofSucc ?_
    simp only [callFunction]
    split
    · exact .fault _ s
    · next hmade =>
      have hdepth := (Function.refusal?_eq_none_iff.mp hmade).2
      exact absurd hdeep (Nat.not_le.mpr hdepth)
  | succ calls ih =>
    intro f args s hf h
    refine .ofSucc ?_
    simp only [callFunction]
    split
    · exact .fault _ s
    · have hbody := ends_block (fun st hst => (hf st hst).ends ih)
        (h.2.pushFrame.bindAll f.params h.1)
      have hpopped := hbody.mapEnv (Q := BoundedFlow (calls + 1)) (f := Environment.popFrame)
        fun flow s hflow => ⟨hflow.1, hflow.2.popFrame⟩
      exact hpopped.andThen fun flow s hflow => hflow.2.result hflow.callResult

/-- A script without `while` comes to an end, with or without a fault, in every state in which no
function, at any depth of the lists and dicts that are bound, has a `while` in its body: there is
one end to which it comes with any amount of fuel from some amount on. -/
theorem runScript_ends_of_whileFree {script : List Stmt} {s : State}
    (hscript : ∀ st ∈ script, st.WhileFree) (hs : s.env.HoldsOnly Function.WhileFree) :
    ∃ enough r s', ∀ fuel, enough ≤ fuel → runScript fuel script s = .done r s' := by
  have hbounded : s.Bounded greatestDepth := ⟨hs, Nat.le_add_left ..⟩
  have hblock := ends_block (fun st hst => (hscript st hst).ends (functionsEnd _)) hbounded
  have hrun : Ends (fun fuel => runScript fuel script s) fun _ _ => True := by
    refine hblock.andThen fun flow s' _ => ?_
    split
    · exact .value trivial
    · exact .fault _ s'
  obtain ⟨enough, r, s', hend, -⟩ := hrun
  exact ⟨enough, r, s', hend⟩

/-- A function that calls itself, threaded through itself. -/
theorem runScript_ends_of_whileFree_again :
    let again : Function := ⟨"again", ["f"], [.giveBack (some (.call (.name "pipe")
      [.name "f", .name "f", .name "f"]))]⟩
    let script : List Stmt := [.define again.name again.params again.body,
      .loopFor "f" (.list [.name "again", .name "again"])
        [.expr (.call (.name "again") [.name "f"])]]
    let s : State := ⟨⟨[("pipe", .builtin .pipe)], [("again", .function 0 again)], [], false, 1⟩,
      .installed 0 "/"⟩
    (∀ st ∈ script, st.WhileFree) ∧ s.env.HoldsOnly Function.WhileFree ∧
      ∃ enough r s', ∀ fuel, enough ≤ fuel → runScript fuel script s = .done r s' := by
  intro again script s
  have hagain : again.WhileFree := List.forall_mem_singleton.mpr (.giveBack _)
  have hscript : ∀ st ∈ script, st.WhileFree :=
    List.forall_mem_cons.mpr ⟨.define _ _ hagain, List.forall_mem_singleton.mpr
      (.loopFor _ _ (List.forall_mem_singleton.mpr (.expr _)))⟩
  have hs : s.env.HoldsOnly Function.WhileFree :=
    ⟨List.forall_mem_singleton.mpr (.builtin _),
      List.forall_mem_singleton.mpr (.function 0 hagain), nofun⟩
  exact ⟨hscript, hs, runScript_ends_of_whileFree hscript hs⟩

end ScriptShell
