import ScriptShell.Evaluation.State
import ScriptShell.Function.Builtin
import ScriptShell.Value.Arithmetic

/-!
# Evaluation

Expressions are evaluated from left to right, and the first fault ends the run. Statements run in
order until one departs; a loop takes up `break` and `continue`, and a call takes up `return`. What
a loop goes through is fixed when the loop starts. Every function here is given fuel, and each use
of another takes one unit of it, so all of them are total; a run that comes to an end with some
fuel does so in the same way with more.
-/

namespace ScriptShell

/-- The greatest number of calls that may be under way. -/
def greatestDepth : Nat := 100

/-- The value a name is bound to. -/
def lookUp (name : String) (s : State) : Except EvalError Value :=
  match s.env.get? name with
  | some v => .ok v
  | none => .error (.unboundName name)

/-- A state with a name bound. -/
def State.bind (s : State) (name : String) (v : Value) : State :=
  { s with env := s.env.set name v }

/-- A state with names bound in order. -/
def State.bindAll (s : State) : List String → List Value → State
  | name :: names, v :: vs => (s.bind name v).bindAll names vs
  | _, _ => s

/-- Binds a name to what an assignment makes of its value. -/
def assign (name : String) (op : Option Operator) (v : Value) (s : State) : Run Flow :=
  match op with
  | none => .value .normal (s.bind name v)
  | some op =>
    match lookUp name s with
    | .error e => .fault e s
    | .ok current =>
      match op.apply current v with
      | .error e => .fault e s
      | .ok v => .value .normal (s.bind name v)

/-- Assigns an item of what a name is bound to. -/
def assignItem (name : String) (index v : Value) (s : State) : Run Flow :=
  match lookUp name s with
  | .error e => .fault e s
  | .ok target =>
    match target.withItem index v with
    | .error e => .fault e s
    | .ok target => .value .normal { s with env := s.env.replace name target }

/-- Defines a function. -/
def define (name : String) (params : List String) (body : List Stmt) (s : State) : State :=
  let (serial, env) := s.env.nextSerial
  { s with env := env.set name (.function serial ⟨name, params, body⟩) }

/-- Why a call of a function that a script defines is refused, if it is: for the number of its
arguments, or because too many calls are under way. -/
def Function.refusal? (f : Function) (args : List Value) (s : State) : Option EvalError :=
  if args.length ≠ f.params.length then
    some (.argumentCount f.name f.params.length args.length)
  else if greatestDepth ≤ s.env.depth then some .tooDeep
  else none

theorem Function.refusal?_eq_none_iff {f : Function} {args : List Value} {s : State} :
    f.refusal? args s = none ↔
      args.length = f.params.length ∧ s.env.depth < greatestDepth := by
  unfold refusal?
  split
  · next hcount => simp [hcount]
  · next hcount => simp [Decidable.not_not.mp hcount]

/-- The state in which the body of a function starts: the call has a frame of its own, in which the
arguments are bound. -/
def Function.entered (f : Function) (args : List Value) (s : State) : State :=
  State.bindAll { s with env := s.env.pushFrame } f.params args

/-- The result of a call, from how the body of the function ended. -/
def callResult (flow : Flow) : Except EvalError Value :=
  match flow with
  | .giveBack v => .ok v
  | .normal => .ok .none
  | .leave => .error (.misplaced .leave)
  | .next => .error (.misplaced .next)

/-- Calls a built-in function other than `pipe`. -/
def callBuiltin (b : Builtin) (args : List Value) (s : State) : Run Value :=
  match b with
  | .exit =>
    match Builtin.exit.checkCount 0 1 args with
    | .ok () => .value .none { s with env := s.env.requestExit }
    | .error e => .fault e s
  | b =>
    let (r, world) := b.call args s.world
    .result r { s with world := world }

mutual

/-- Evaluates an expression. -/
def eval : Nat → Expr → State → Run Value
  | 0, _, _ => .unfinished
  | fuel + 1, e, s =>
    match e with
    | .none => .value .none s
    | .bool b => .value (.bool b) s
    | .int n => .value (.int n) s
    | .float x => .value (.float x) s
    | .str t => .value (.str t) s
    | .name name => .result (lookUp name s) s
    | .list items => (evalAll fuel items s).andThen fun vs s => .value (.list vs) s
    | .dict pairs => (evalPairs fuel pairs [] s).andThen fun es s => .value (.dict es) s
    | .neg e => (eval fuel e s).andThen fun v s => .result v.negate s
    | .not e => (eval fuel e s).andThen fun v s => .value (.bool (!v.isTruthy)) s
    | .binary op l r =>
      (eval fuel l s).andThen fun a s =>
        (eval fuel r s).andThen fun b s => .result (op.apply a b) s
    | .and l r =>
      (eval fuel l s).andThen fun a s => if a.isTruthy then eval fuel r s else .value a s
    | .or l r =>
      (eval fuel l s).andThen fun a s => if a.isTruthy then .value a s else eval fuel r s
    | .call f args =>
      (eval fuel f s).andThen fun f s =>
        (evalAll fuel args s).andThen fun args s => call fuel f args s
    | .index t i =>
      (eval fuel t s).andThen fun t s =>
        (eval fuel i s).andThen fun i s => .result (t.item i) s

/-- Evaluates expressions in order. -/
def evalAll : Nat → List Expr → State → Run (List Value)
  | 0, _, _ => .unfinished
  | _ + 1, [], s => .value [] s
  | fuel + 1, e :: es, s =>
    (eval fuel e s).andThen fun v s =>
      (evalAll fuel es s).andThen fun vs s => .value (v :: vs) s

/-- Evaluates the pairs of a dict display in order, after the entries made so far. -/
def evalPairs : Nat → List (Expr × Expr) → Entries Value → State → Run (Entries Value)
  | 0, _, _, _ => .unfinished
  | _ + 1, [], es, s => .value es s
  | fuel + 1, (k, e) :: pairs, es, s =>
    (eval fuel k s).andThen fun k s =>
      match k with
      | .str key =>
        (eval fuel e s).andThen fun v s => evalPairs fuel pairs (es.insert key v) s
      | k => .fault (.keyKind k.kind) s

/-- Calls a value with arguments. -/
def call : Nat → Value → List Value → State → Run Value
  | 0, _, _, _ => .unfinished
  | fuel + 1, f, args, s =>
    match f with
    | .builtin .pipe =>
      match args with
      | [] => .fault .nothingToPipe s
      | v :: fs => thread fuel v fs s
    | .builtin b => callBuiltin b args s
    | .function _ f => callFunction fuel f args s
    | v => .fault (.notCallable v.kind) s

/-- Threads a value through functions. -/
def thread : Nat → Value → List Value → State → Run Value
  | 0, _, _, _ => .unfinished
  | _ + 1, v, [], s => .value v s
  | fuel + 1, v, f :: fs, s => (call fuel f [v] s).andThen fun v s => thread fuel v fs s

/-- Calls a function that a script defines. -/
def callFunction : Nat → Function → List Value → State → Run Value
  | 0, _, _, _ => .unfinished
  | fuel + 1, f, args, s =>
    match f.refusal? args s with
    | some e => .fault e s
    | none =>
      ((block fuel f.body (f.entered args s)).mapEnv Environment.popFrame).andThen fun flow s =>
        .result (callResult flow) s

/-- Runs statements in order until one departs. -/
def block : Nat → List Stmt → State → Run Flow
  | 0, _, _ => .unfinished
  | _ + 1, [], s => .value .normal s
  | fuel + 1, st :: rest, s =>
    (exec fuel st s).andThen fun flow s =>
      if flow.isNormal then block fuel rest s else .value flow s

/-- Runs a statement. -/
def exec : Nat → Stmt → State → Run Flow
  | 0, _, _ => .unfinished
  | fuel + 1, st, s =>
    match st with
    | .expr e => (eval fuel e s).andThen fun _ s => .value .normal s
    | .assign name op e => (eval fuel e s).andThen fun v s => assign name op v s
    | .setItem name i e =>
      (eval fuel i s).andThen fun i s =>
        (eval fuel e s).andThen fun v s => assignItem name i v s
    | .define name params body => .value .normal (define name params body s)
    | .choose branches otherwise => choose fuel branches otherwise s
    | .loopWhile c body => loopWhile fuel c body s
    | .loopFor name e body =>
      (eval fuel e s).andThen fun v s =>
        match v.iterate with
        | .ok items => loopFor fuel name items body s
        | .error e => .fault e s
    | .giveBack none => .value (.giveBack .none) s
    | .giveBack (some e) => (eval fuel e s).andThen fun v s => .value (.giveBack v) s
    | .leave => .value .leave s
    | .next => .value .next s
    | .pass => .value .normal s

/-- Runs the first branch whose condition holds. -/
def choose : Nat → List (Expr × List Stmt) → Option (List Stmt) → State → Run Flow
  | 0, _, _, _ => .unfinished
  | _ + 1, [], none, s => .value .normal s
  | fuel + 1, [], some body, s => block fuel body s
  | fuel + 1, (c, body) :: branches, otherwise, s =>
    (eval fuel c s).andThen fun v s =>
      if v.isTruthy then block fuel body s else choose fuel branches otherwise s

/-- Runs a loop while its condition holds. -/
def loopWhile : Nat → Expr → List Stmt → State → Run Flow
  | 0, _, _, _ => .unfinished
  | fuel + 1, c, body, s =>
    (eval fuel c s).andThen fun v s =>
      if v.isTruthy then
        (block fuel body s).andThen fun flow s =>
          match flow with
          | .leave => .value .normal s
          | .giveBack v => .value (.giveBack v) s
          | _ => loopWhile fuel c body s
      else .value .normal s

/-- Runs a loop for each item that is left. -/
def loopFor : Nat → String → Value.Items → List Stmt → State → Run Flow
  | 0, _, _, _, _ => .unfinished
  | fuel + 1, name, items, body, s =>
    match items.next? with
    | none => .value .normal s
    | some (v, items) =>
      (block fuel body (s.bind name v)).andThen fun flow s =>
        match flow with
        | .leave => .value .normal s
        | .giveBack v => .value (.giveBack v) s
        | _ => loopFor fuel name items body s

end

/-- Runs a script; a departure may not leave it. -/
def runScript (fuel : Nat) (script : List Stmt) (s : State) : Run Unit :=
  (block fuel script s).andThen fun flow s =>
    match flow.departure? with
    | none => .value () s
    | some d => .fault (.misplaced d) s

end ScriptShell
