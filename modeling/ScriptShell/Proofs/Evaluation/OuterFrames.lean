import ScriptShell.Evaluation.Evaluator
import ScriptShell.Program.Installed

/-!
# What stands around a call is not seen

Names are looked up in the innermost frame and then in the session, so a run does not depend on the
frames around the innermost one, and a call does not depend on any frame. The proof runs every
evaluator twice, in states with different frames, by an induction on fuel over all of them at once.
-/

namespace ScriptShell

/-! ### States with other frames -/

/-- A state with other frames. -/
def State.withFrames (frames : List Scope) (s : State) : State :=
  { s with env := { s.env with frames := frames } }

/-- A state with the given frames, and the same with as many other ones. -/
structure Reframed (frames frames' : List Scope) (s s' : State) : Prop where
  own : s.env.frames = frames
  others : s' = s.withFrames frames'
  length : frames'.length = frames.length

/-- A state in a call, with the given frames around it, and the same with as many other ones around
it. -/
def Surrounded (outer outer' : List Scope) (s s' : State) : Prop :=
  ∃ frame, Reframed (frame :: outer) (frame :: outer') s s'

/-- Other frames are as deep as the given ones. -/
theorem Reframed.depth_eq {frames frames' : List Scope} {s s' : State}
    (h : Reframed frames frames' s s') : s'.env.depth = s.env.depth := by
  obtain ⟨rfl, rfl, hlength⟩ := h
  exact hlength

/-- What differed in the frames stands around the frame of a call. -/
theorem Reframed.pushFrame {frames frames' : List Scope} {s s' : State}
    (h : Reframed frames frames' s s') : Surrounded frames frames'
      { s with env := s.env.pushFrame } { s' with env := s'.env.pushFrame } := by
  obtain ⟨rfl, rfl, hlength⟩ := h
  exact ⟨[], rfl, rfl, congrArg (· + 1) hlength⟩

/-- A change outside the frames is the same whatever the frames are. -/
theorem replaceOutside_withFrames (env : Environment) (frames : List Scope) (name : String)
    (v : Value) : Environment.replace.replaceOutside name v { env with frames := frames } =
      { Environment.replace.replaceOutside name v env with frames := frames } := by
  unfold Environment.replace.replaceOutside
  split
  · rfl
  · split <;> rfl

namespace Surrounded

variable {outer outer' : List Scope} {s s' : State}

/-- A name is bound to the same value. -/
theorem lookUp_eq (h : Surrounded outer outer' s s') (name : String) :
    lookUp name s' = lookUp name s := by
  obtain ⟨frame, hframes, rfl, -⟩ := h
  simp only [lookUp, Environment.get?, State.withFrames, hframes, List.head?_cons]

/-- A binding goes to the innermost frame. -/
theorem bind (h : Surrounded outer outer' s s') (name : String) (v : Value) :
    Surrounded outer outer' (s.bind name v) (s'.bind name v) := by
  obtain ⟨frame, hframes, rfl, hlength⟩ := h
  refine ⟨frame.insert name v, ?_, ?_, hlength⟩
  · simp only [State.bind, Environment.set, hframes]
  · simp only [State.bind, Environment.set, State.withFrames, hframes]

/-- Parameters are bound in the innermost frame. -/
theorem bindAll (h : Surrounded outer outer' s s') (names : List String) (vs : List Value) :
    Surrounded outer outer' (s.bindAll names vs) (s'.bindAll names vs) := by
  induction names generalizing s s' vs with
  | nil => simpa only [State.bindAll] using h
  | cons name names ih =>
    cases vs with
    | nil => simpa only [State.bindAll] using h
    | cons v vs => exact ih (h.bind name v) vs

/-- A change of a binding is made where the name is bound, and never in the frames around. -/
theorem replace (h : Surrounded outer outer' s s') (name : String) (v : Value) :
    Surrounded outer outer' { s with env := s.env.replace name v }
      { s' with env := s'.env.replace name v } := by
  obtain ⟨frame, hframes, rfl, hlength⟩ := h
  have houtside := replaceOutside_withFrames s.env (frame :: outer') name v
  unfold Environment.replace
  simp only [State.withFrames, hframes]
  split
  · exact ⟨frame.insert name v, rfl, rfl, hlength⟩
  · rw [houtside]
    exact ⟨frame, (Environment.frames_replaceOutside name v s.env).trans hframes, rfl, hlength⟩

/-- A definition is made in the innermost frame, with the same number on both sides. -/
theorem define (h : Surrounded outer outer' s s') (name : String) (params : List String)
    (body : List Stmt) :
    Surrounded outer outer' (define name params body s) (define name params body s') := by
  obtain ⟨frame, hframes, rfl, hlength⟩ := h
  let counted : State := { s with env := s.env.nextSerial.2 }
  have hcounted : Surrounded outer outer' counted (counted.withFrames (frame :: outer')) :=
    ⟨frame, hframes, rfl, hlength⟩
  exact hcounted.bind name _

end Surrounded

/-! ### Runs -/

/-- Two runs that come to the same end, in states that are related, or both come to none. -/
inductive Run.Matches {α : Type} (R : State → State → Prop) : Run α → Run α → Prop where
  | unfinished : Matches R .unfinished .unfinished
  | done (r : Except EvalError α) {s s' : State} : R s s' → Matches R (.done r s) (.done r s')

namespace Run.Matches

variable {α β : Type} {R : State → State → Prop} {run run' : Run α}

/-- Runs that match with related states match with states that are related more loosely. -/
theorem mono {R' : State → State → Prop} (h : run.Matches R run')
    (hR : ∀ {s s'}, R s s' → R' s s') : run.Matches R' run' := by
  cases h with
  | unfinished => exact .unfinished
  | done r h => exact .done r (hR h)

/-- One run after another. -/
theorem andThen (h : run.Matches R run') {next next' : α → State → Run β}
    (hnext : ∀ a s s', R s s' → (next a s).Matches R (next' a s')) :
    (run.andThen next).Matches R (run'.andThen next') := by
  cases h with
  | unfinished => exact .unfinished
  | done r h =>
    cases r with
    | error e => exact .done _ h
    | ok a => exact hnext a _ _ h

/-- A call is left on both sides. -/
theorem popFrame {frames frames' : List Scope} (h : run.Matches (Surrounded frames frames') run') :
    (run.mapEnv Environment.popFrame).Matches (Reframed frames frames')
      (run'.mapEnv Environment.popFrame) := by
  cases h with
  | unfinished => exact .unfinished
  | done r h =>
    obtain ⟨frame, hframes, rfl, hlength⟩ := h
    refine .done r ⟨?_, rfl, Nat.succ.inj hlength⟩
    rw [Environment.popFrame, hframes, List.tail_cons]

end Run.Matches

/-- What is run in a call sees no frame around the innermost one. -/
def SeesOneFrame {α : Type} (run : State → Run α) : Prop :=
  ∀ ⦃outer outer' s s'⦄, Surrounded outer outer' s s' →
    (run s).Matches (Surrounded outer outer') (run s')

/-- What is run sees no frame at all. -/
def SeesNoFrame {α : Type} (run : State → Run α) : Prop :=
  ∀ ⦃frames frames' s s'⦄, Reframed frames frames' s s' →
    (run s).Matches (Reframed frames frames') (run s')

/-- What sees no frame at all can be run in a call. -/
theorem SeesNoFrame.seesOneFrame {α : Type} {run : State → Run α} (h : SeesNoFrame run) :
    SeesOneFrame run := by
  rintro outer outer' s s' ⟨frame, hframe⟩
  exact (h hframe).mono fun h => ⟨frame, h⟩

section SeesOneFrame

variable {α β : Type}

/-- A result that does not depend on the state sees no frame. -/
theorem seesOneFrame_result (r : Except EvalError α) : SeesOneFrame (Run.result r) :=
  fun _ _ _ _ h => .done r h

/-- One run after another. -/
theorem SeesOneFrame.andThen {run : State → Run α} (h : SeesOneFrame run)
    {next : α → State → Run β} (hnext : ∀ a, SeesOneFrame (next a)) :
    SeesOneFrame fun s => (run s).andThen next :=
  fun _ _ _ _ hs => (h hs).andThen fun a _ _ hs' => hnext a hs'

/-- A run after a name is bound. -/
theorem SeesOneFrame.bound {run : State → Run α} (h : SeesOneFrame run) (x : String) (v : Value) :
    SeesOneFrame fun s => run (s.bind x v) :=
  fun _ _ _ _ hs => h (hs.bind x v)

end SeesOneFrame

/-- What is run after a run that sees no frame sees none either, if it does not by itself. -/
theorem SeesNoFrame.andThen {α β : Type} {run : State → Run α} (h : SeesNoFrame run)
    {next : α → State → Run β} (hnext : ∀ a, SeesNoFrame (next a)) :
    SeesNoFrame fun s => (run s).andThen next :=
  fun _ _ _ _ hs => (h hs).andThen fun a _ _ hs' => hnext a hs'

theorem seesNoFrame_result {α : Type} (r : Except EvalError α) : SeesNoFrame (Run.result r) :=
  fun _ _ _ _ h => .done r h

/-! ### Assignments and built-in functions -/

/-- An assignment sees the innermost frame and the globals. -/
theorem seesOneFrame_assign (name : String) (op : Option Operator) (v : Value) :
    SeesOneFrame (assign name op v) := by
  intro outer outer' s s' h
  unfold assign
  rw [h.lookUp_eq]
  split
  · exact .done _ (h.bind name v)
  · split
    · exact .done _ h
    · split
      · exact .done _ h
      · exact .done _ (h.bind name _)

/-- An assignment to an item sees the innermost frame and the globals. -/
theorem seesOneFrame_assignItem (name : String) (index v : Value) :
    SeesOneFrame (assignItem name index v) := by
  intro outer outer' s s' h
  unfold assignItem
  rw [h.lookUp_eq]
  split
  · exact .done _ h
  · split
    · exact .done _ h
    · exact .done _ (h.replace name _)

/-- Built-in functions look at no frame. -/
theorem seesNoFrame_callBuiltin (b : Builtin) (args : List Value) :
    SeesNoFrame (callBuiltin b args) := by
  rintro frames frames' s s' ⟨hframes, rfl, hlength⟩
  unfold callBuiltin
  split
  · split
    · exact .done _ ⟨hframes, rfl, hlength⟩
    · exact .done _ ⟨hframes, rfl, hlength⟩
  · exact .done _ ⟨hframes, rfl, hlength⟩

/-! ### The induction on fuel -/

/-- With a given amount of fuel no evaluator sees a frame around the innermost one, and no call sees
a frame at all. -/
structure SeesWith (fuel : Nat) : Prop where
  eval : ∀ e, SeesOneFrame (eval fuel e)
  evalAll : ∀ es, SeesOneFrame (evalAll fuel es)
  evalPairs : ∀ pairs es, SeesOneFrame (evalPairs fuel pairs es)
  call : ∀ f args, SeesNoFrame (call fuel f args)
  thread : ∀ v fs, SeesNoFrame (thread fuel v fs)
  callFunction : ∀ f args, SeesNoFrame (callFunction fuel f args)
  block : ∀ script, SeesOneFrame (block fuel script)
  exec : ∀ st, SeesOneFrame (exec fuel st)
  choose : ∀ branches otherwise, SeesOneFrame (choose fuel branches otherwise)
  loopWhile : ∀ c body, SeesOneFrame (loopWhile fuel c body)
  loopFor : ∀ x items body, SeesOneFrame (loopFor fuel x items body)

section Step

variable {fuel : Nat} (ih : SeesWith fuel)
include ih

/-- One step of fuel more shows expressions no frame around the innermost one. -/
theorem seesOneFrame_eval (e : Expr) : SeesOneFrame (eval (fuel + 1) e) := by
  cases e with
  | none | bool | int | float | str => exact seesOneFrame_result _
  | name x =>
    intro outer outer' s s' h
    rw [eval, eval, h.lookUp_eq]
    exact .done _ h
  | list items => exact (ih.evalAll items).andThen fun vs => seesOneFrame_result _
  | dict pairs => exact (ih.evalPairs pairs []).andThen fun es => seesOneFrame_result _
  | neg e => exact (ih.eval e).andThen fun v => seesOneFrame_result _
  | not e => exact (ih.eval e).andThen fun v => seesOneFrame_result _
  | binary op l r =>
    exact (ih.eval l).andThen fun a => (ih.eval r).andThen fun b => seesOneFrame_result _
  | and l r =>
    refine (ih.eval l).andThen fun a => ?_
    split
    · exact ih.eval r
    · exact seesOneFrame_result _
  | or l r =>
    refine (ih.eval l).andThen fun a => ?_
    split
    · exact seesOneFrame_result _
    · exact ih.eval r
  | call f args =>
    exact (ih.eval f).andThen fun f =>
      (ih.evalAll args).andThen fun args => (ih.call f args).seesOneFrame
  | index t i =>
    exact (ih.eval t).andThen fun t => (ih.eval i).andThen fun i => seesOneFrame_result _

/-- One step of fuel more shows lists of expressions no frame around the innermost one. -/
theorem seesOneFrame_evalAll (es : List Expr) : SeesOneFrame (evalAll (fuel + 1) es) := by
  cases es with
  | nil => exact seesOneFrame_result _
  | cons e es =>
    exact (ih.eval e).andThen fun v => (ih.evalAll es).andThen fun vs => seesOneFrame_result _

/-- One step of fuel more shows the pairs of a dict no frame around the innermost one. -/
theorem seesOneFrame_evalPairs (pairs : List (Expr × Expr)) (es : Entries Value) :
    SeesOneFrame (evalPairs (fuel + 1) pairs es) := by
  cases pairs with
  | nil => exact seesOneFrame_result _
  | cons pair pairs =>
    refine (ih.eval pair.1).andThen fun k => ?_
    split
    · exact (ih.eval pair.2).andThen fun v => ih.evalPairs pairs _
    · exact seesOneFrame_result _

/-- One step of fuel more shows calls no frame at all, since functions have frames of their own. -/
theorem seesNoFrame_call (f : Value) (args : List Value) :
    SeesNoFrame (call (fuel + 1) f args) := by
  intro frames frames' s s' h
  rw [call.eq_def, call.eq_def]
  dsimp only
  split
  · split
    · exact .done _ h
    · exact ih.thread _ _ h
  · exact seesNoFrame_callBuiltin _ args h
  · exact ih.callFunction _ args h
  · exact .done _ h

/-- One step of fuel more shows values that are threaded through functions no frame at all. -/
theorem seesNoFrame_thread (v : Value) (fs : List Value) :
    SeesNoFrame (thread (fuel + 1) v fs) := by
  cases fs with
  | nil => exact seesNoFrame_result _
  | cons f fs => exact (ih.call f [v]).andThen fun v => ih.thread v fs

omit ih in
/-- A call is refused alike wherever as many calls are under way. -/
theorem Function.refusal?_congr {s s' : State} (h : s'.env.depth = s.env.depth) (f : Function)
    (args : List Value) : f.refusal? args s = f.refusal? args s' := by
  rw [refusal?, refusal?, h]

/-- The body of a function runs in a new frame, so all that differs stands around it. -/
theorem seesNoFrame_callFunction (f : Function) (args : List Value) :
    SeesNoFrame (callFunction (fuel + 1) f args) := by
  intro frames frames' s s' h
  rw [callFunction, callFunction, f.refusal?_congr h.depth_eq]
  split
  · exact .done _ h
  · have hbody := ih.block f.body (h.pushFrame.bindAll f.params args)
    exact hbody.popFrame.andThen fun flow s s' h => .done _ h

/-- One step of fuel more shows statements in a row no frame around the innermost one. -/
theorem seesOneFrame_block (script : List Stmt) : SeesOneFrame (block (fuel + 1) script) := by
  cases script with
  | nil => exact seesOneFrame_result _
  | cons st rest =>
    refine (ih.exec st).andThen fun flow => ?_
    split
    · exact ih.block rest
    · exact seesOneFrame_result _

/-- One step of fuel more shows a statement no frame around the innermost one. -/
theorem seesOneFrame_exec (st : Stmt) : SeesOneFrame (exec (fuel + 1) st) := by
  cases st with
  | expr e => exact (ih.eval e).andThen fun v => seesOneFrame_result _
  | assign name op e => exact (ih.eval e).andThen fun v => seesOneFrame_assign name op v
  | setItem name i e =>
    exact (ih.eval i).andThen fun i =>
      (ih.eval e).andThen fun v => seesOneFrame_assignItem name i v
  | define name params body => exact fun _ _ _ _ h => .done _ (h.define name params body)
  | choose branches otherwise => exact ih.choose branches otherwise
  | loopWhile c body => exact ih.loopWhile c body
  | loopFor name e body =>
    refine (ih.eval e).andThen fun v => ?_
    split
    · exact ih.loopFor name _ body
    · exact seesOneFrame_result _
  | giveBack value =>
    cases value with
    | none => exact seesOneFrame_result _
    | some e => exact (ih.eval e).andThen fun v => seesOneFrame_result _
  | leave | next | pass => exact seesOneFrame_result _

/-- One step of fuel more shows a choice no frame around the innermost one. -/
theorem seesOneFrame_choose (branches : List (Expr × List Stmt))
    (otherwise : Option (List Stmt)) : SeesOneFrame (choose (fuel + 1) branches otherwise) := by
  cases branches with
  | nil =>
    cases otherwise with
    | none => exact seesOneFrame_result _
    | some body => exact ih.block body
  | cons branch branches =>
    refine (ih.eval branch.1).andThen fun v => ?_
    split
    · exact ih.block branch.2
    · exact ih.choose branches otherwise

/-- One step of fuel more shows a loop no frame around the innermost one. -/
theorem seesOneFrame_loopWhile (c : Expr) (body : List Stmt) :
    SeesOneFrame (loopWhile (fuel + 1) c body) := by
  refine (ih.eval c).andThen fun v => ?_
  split
  · refine (ih.block body).andThen fun flow => ?_
    split
    · exact seesOneFrame_result _
    · exact seesOneFrame_result _
    · exact ih.loopWhile c body
  · exact seesOneFrame_result _

/-- One step of fuel more shows a loop over items no frame around the innermost one. -/
theorem seesOneFrame_loopFor (x : String) (items : Value.Items) (body : List Stmt) :
    SeesOneFrame (loopFor (fuel + 1) x items body) := by
  intro outer outer' s s' h
  rw [loopFor, loopFor]
  split
  · exact .done _ h
  · next v items _ =>
    refine ((ih.block body).bound x v).andThen (fun flow => ?_) h
    split
    · exact seesOneFrame_result _
    · exact seesOneFrame_result _
    · exact ih.loopFor x items body

end Step

/-- No evaluator sees a frame around the innermost one, with any amount of fuel. -/
theorem seesWith (fuel : Nat) : SeesWith fuel := by
  induction fuel with
  | zero => constructor <;> intros <;> exact fun _ _ _ _ _ => .unfinished
  | succ fuel ih =>
    exact ⟨seesOneFrame_eval ih, seesOneFrame_evalAll ih, seesOneFrame_evalPairs ih,
      seesNoFrame_call ih, seesNoFrame_thread ih, seesNoFrame_callFunction ih,
      seesOneFrame_block ih, seesOneFrame_exec ih, seesOneFrame_choose ih,
      seesOneFrame_loopWhile ih, seesOneFrame_loopFor ih⟩

/-! ### Agreement -/

/-- Two states that agree on all but the frames, of which there are as many in both. -/
structure State.AgreesOutside (s s' : State) : Prop where
  globals : s'.env.globals = s.env.globals
  locals : s'.env.locals = s.env.locals
  depth : s'.env.depth = s.env.depth
  exit : s'.env.exitRequested = s.env.exitRequested
  defined : s'.env.defined = s.env.defined
  world : s'.world = s.world

/-- Two states that agree on the innermost frame besides. -/
structure State.AgreesInside (s s' : State) : Prop extends s.AgreesOutside s' where
  innermost : s'.env.frames.head? = s.env.frames.head?

/-- States that agree on all but as many frames are one state with other frames. -/
theorem State.AgreesOutside.reframed {s s' : State} (h : s.AgreesOutside s') :
    Reframed s.env.frames s'.env.frames s s' := by
  obtain ⟨⟨globals, locals, frames, exit, defined⟩, world⟩ := s
  obtain ⟨⟨globals', locals', frames', exit', defined'⟩, world'⟩ := s'
  obtain ⟨rfl, rfl, hdepth, rfl, rfl, rfl⟩ := h
  exact ⟨rfl, rfl, hdepth⟩

/-- A state agrees with the same state with other frames on all but these. -/
theorem Reframed.agrees {frames frames' : List Scope} {s s' : State}
    (h : Reframed frames frames' s s') : s.AgreesOutside s' := by
  obtain ⟨rfl, rfl, hlength⟩ := h
  exact ⟨rfl, rfl, hlength, rfl, rfl, rfl⟩

/-- In a call, states that agree inside differ at most in what stands around the frame. -/
theorem State.AgreesInside.surrounded {s s' : State} (h : s.AgreesInside s')
    (hcall : 1 ≤ s.env.depth) : Surrounded s.env.frames.tail s'.env.frames.tail s s' := by
  have hdepth := h.depth
  have hinnermost := h.innermost
  have hreframed := h.reframed
  unfold Environment.depth at hdepth hcall
  cases hframes : s.env.frames with
  | nil =>
    rw [hframes] at hcall
    cases hcall
  | cons frame outer =>
    cases hframes' : s'.env.frames with
    | nil =>
      rw [hframes, hframes'] at hdepth
      cases hdepth
    | cons frame' outer' =>
      rw [hframes, hframes'] at hinnermost hreframed
      cases hinnermost
      exact ⟨frame, hreframed⟩

/-- Two runs, from given states, that both come to no end, or come to the same result in states that
again agree inside, with the frames around as they were on either side. -/
inductive Run.SameInside {α : Type} (s s' : State) : Run α → Run α → Prop where
  | unfinished : SameInside s s' .unfinished .unfinished
  | done (r : Except EvalError α) {t t' : State} (agree : t.AgreesInside t')
      (outer : t.env.frames.tail = s.env.frames.tail)
      (outer' : t'.env.frames.tail = s'.env.frames.tail) :
      SameInside s s' (.done r t) (.done r t')

/-- Two runs, from given states, that both come to no end, or come to the same result in states that
again agree outside, with all frames as they were on either side. -/
inductive Run.SameOutside {α : Type} (s s' : State) : Run α → Run α → Prop where
  | unfinished : SameOutside s s' .unfinished .unfinished
  | done (r : Except EvalError α) {t t' : State} (agree : t.AgreesOutside t')
      (frames : t.env.frames = s.env.frames) (frames' : t'.env.frames = s'.env.frames) :
      SameOutside s s' (.done r t) (.done r t')

/-- Runs that match with other frames around them agree inside, and leave those frames as they were.
-/
theorem Run.Matches.sameInside {α : Type} {s s' : State} {run run' : Run α}
    (h : run.Matches (Surrounded s.env.frames.tail s'.env.frames.tail) run') :
    Run.SameInside s s' run run' := by
  cases h with
  | unfinished => exact .unfinished
  | done r h =>
    obtain ⟨frame, h⟩ := h
    have hagree := h.agrees
    obtain ⟨hframes, rfl, -⟩ := h
    refine .done r ⟨hagree, ?_⟩ ?_ rfl
    · rw [hframes]
      rfl
    · rw [hframes]
      rfl

/-- Runs that match with other frames agree outside, and leave all frames as they were. -/
theorem Run.Matches.sameOutside {α : Type} {s s' : State} {run run' : Run α}
    (h : run.Matches (Reframed s.env.frames s'.env.frames) run') :
    Run.SameOutside s s' run run' := by
  cases h with
  | unfinished => exact .unfinished
  | done r h =>
    refine .done r h.agrees h.own ?_
    rw [h.others]
    rfl

/-- In two states that agree on all but the frames around the innermost one, expressions and
statements come to the same result, in states that again agree so, and the frames around stay on
either side as they were. And a call comes to the same result in two states that agree on all but
the frames, and leaves all frames as they were: a function neither sees nor changes the variables of
its caller. -/
theorem outer_frames_unseen {s s' : State} (h : s.AgreesInside s') (hcall : 1 ≤ s.env.depth)
    (fuel : Nat) :
    (∀ e, Run.SameInside s s' (eval fuel e s) (eval fuel e s')) ∧
      (∀ st, Run.SameInside s s' (exec fuel st s) (exec fuel st s')) ∧
      ∀ (t t' : State) f args, t.AgreesOutside t' →
        Run.SameOutside t t' (call fuel f args t) (call fuel f args t') := by
  have hsurrounded := h.surrounded hcall
  have hsees := seesWith fuel
  refine ⟨fun e => ?_, fun st => ?_, fun t t' f args hagree => ?_⟩
  · exact (hsees.eval e hsurrounded).sameInside
  · exact (hsees.exec st hsurrounded).sameInside
  · exact (hsees.call f args hagree.reframed).sameOutside

/-- A name that is bound around the innermost frame only, on either side to another value, is
unbound on both, and the innermost frame is written to on both. -/
theorem outer_frames_unseen_name :
    let s : State :=
      ⟨⟨[], [], [[("x", .int 1)], [("y", .int 2)]], false, 0⟩, .installed 0 "/"⟩
    let s' : State :=
      ⟨⟨[], [], [[("x", .int 1)], [("y", .int 3)]], false, 0⟩, .installed 0 "/"⟩
    s.AgreesInside s' ∧ 1 ≤ s.env.depth ∧
      eval 1 (.name "y") s = .fault (.unboundName "y") s ∧
      Run.SameInside s s' (eval 1 (.name "y") s) (eval 1 (.name "y") s') ∧
      Run.SameInside s s' (exec 2 (.assign "x" none (.int 4)) s)
        (exec 2 (.assign "x" none (.int 4)) s') := by
  intro s s'
  have hagree : s.AgreesInside s' := ⟨⟨rfl, rfl, rfl, rfl, rfl, rfl⟩, rfl⟩
  have hcall : 1 ≤ s.env.depth := Nat.le_add_left 1 1
  exact ⟨hagree, hcall, rfl, (outer_frames_unseen hagree hcall 1).1 (.name "y"),
    (outer_frames_unseen hagree hcall 2).2.1 (.assign "x" none (.int 4))⟩

end ScriptShell
