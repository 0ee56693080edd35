import ScriptShell.Proofs.Evaluation.ComesTo

/-!
# Departures

How `break`, `continue` and `return` travel: they end the statements that they stand among and the
branches around these, a loop takes up the first two from its rounds and hands on the third, and a
call takes up the third from the body of its function. What an evaluator comes to is told here by
relations of their own, one round or one branch at a time, and by an induction on fuel in the one
direction and on the relation in the other they say the same as the evaluator.
-/

namespace ScriptShell

variable {s s' : State} {flow : Flow}

/-- Two runs in a row have a value where both have one. -/
theorem Run.andThen_eq_ok {α β : Type} {run : Run α} {next : α → State → Run β} {b : β} :
    run.andThen next = .done (.ok b) s' ↔
      ∃ a t, run = .done (.ok a) t ∧ next a t = .done (.ok b) s' := by
  constructor
  · intro h
    cases run with
    | unfinished => cases h
    | done r t =>
      cases r with
      | error e => cases h
      | ok a => exact ⟨a, t, rfl, h⟩
  · rintro ⟨a, t, rfl, h⟩
    exact h

/-! ### Statements in a row -/

/-- What is done behind a statement lasts. -/
theorem Flow.lasts_rest (flow : Flow) (rest : List Stmt) (s : State) :
    Lasts fun fuel => if flow.isNormal then block fuel rest s else .value flow s := by
  cases flow with
  | normal => exact block_lasts rest s
  | leave | next | giveBack => exact .const _

/-- Statements in a row end with the first that departs, or go on behind it. -/
theorem comesTo_block_cons {st : Stmt} {rest : List Stmt} :
    ComesTo (fun fuel => block fuel (st :: rest) s) (.ok flow) s' ↔
      (flow ≠ .normal ∧ ComesTo (fun fuel => exec fuel st s) (.ok flow) s') ∨
        ∃ t, ComesTo (fun fuel => exec fuel st s) (.ok .normal) t ∧
          ComesTo (fun fuel => block fuel rest t) (.ok flow) s' := by
  refine (comesTo_succ rfl).trans
    ((comesTo_andThen (exec_lasts st s) fun flow t => flow.lasts_rest rest t).trans ?_)
  constructor
  · rintro ⟨first, t, hfirst, hrest⟩
    cases first with
    | normal => exact .inr ⟨t, hfirst, hrest⟩
    | leave | next | giveBack =>
      obtain ⟨rfl, rfl⟩ := comesTo_value.mp hrest
      exact .inl ⟨nofun, hfirst⟩
  · rintro (⟨hdeparts, hfirst⟩ | ⟨t, hfirst, hrest⟩)
    · refine ⟨flow, s', hfirst, ?_⟩
      cases flow with
      | normal => exact absurd rfl hdeparts
      | leave | next | giveBack => exact comesTo_value.mpr ⟨rfl, rfl⟩
    · exact ⟨.normal, t, hfirst, hrest⟩

/-- A departure of statements in a row is that of one of them, before which all others have run and
behind which none does. -/
theorem block_departs_iff {script : List Stmt} (hflow : flow ≠ .normal) :
    ComesTo (fun fuel => block fuel script s) (.ok flow) s' ↔
      ∃ before st after t, script = before ++ st :: after ∧
        ComesTo (fun fuel => block fuel before s) (.ok .normal) t ∧
          ComesTo (fun fuel => exec fuel st t) (.ok flow) s' := by
  have hnil : ∀ t t' : State, ComesTo (fun fuel => block fuel [] t) (.ok flow) t' →
      flow = .normal := fun t t' h =>
    (comesTo_value.mp ((comesTo_succ rfl).mp h)).1.symm
  induction script generalizing s with
  | nil =>
    constructor
    · exact fun h => absurd (hnil _ _ h) hflow
    · rintro ⟨before, st, after, t, hsplit, -⟩
      exact absurd hsplit.symm (by simp)
  | cons first rest ih =>
    rw [comesTo_block_cons]
    constructor
    · rintro (⟨-, hfirst⟩ | ⟨t, hfirst, hrest⟩)
      · exact ⟨[], first, rest, s, rfl, ⟨1, rfl⟩, hfirst⟩
      · obtain ⟨before, st, after, u, rfl, hbefore, hst⟩ := ih.mp hrest
        exact ⟨first :: before, st, after, u, rfl,
          comesTo_block_cons.mpr (.inr ⟨t, hfirst, hbefore⟩), hst⟩
    · rintro ⟨before, st, after, u, hsplit, hbefore, hst⟩
      cases before with
      | nil =>
        obtain ⟨rfl, rfl⟩ := List.cons.inj hsplit
        obtain ⟨-, rfl⟩ := comesTo_value.mp ((comesTo_succ rfl).mp hbefore)
        exact .inl ⟨hflow, hst⟩
      | cons _ before =>
        obtain ⟨rfl, hrest⟩ := List.cons.inj hsplit
        rcases comesTo_block_cons.mp hbefore with ⟨hnormal, -⟩ | ⟨t, hfirst, hbefore⟩
        · exact absurd rfl hnormal
        · exact .inr ⟨t, hfirst, ih.mpr ⟨before, st, after, u, hrest, hbefore, hst⟩⟩

/-! ### Branches -/

/-- The branch that a choice takes, and the state after the conditions up to it. -/
inductive Chosen : List (Expr × List Stmt) → Option (List Stmt) → State → List Stmt → State →
    Prop where
  | first {c : Expr} {body : List Stmt} {branches : List (Expr × List Stmt)}
      {otherwise : Option (List Stmt)} {s t : State} {v : Value}
      (value : ComesTo (fun fuel => eval fuel c s) (.ok v) t) (holds : v.isTruthy = true) :
      Chosen ((c, body) :: branches) otherwise s body t
  | later {c : Expr} {skipped body : List Stmt} {branches : List (Expr × List Stmt)}
      {otherwise : Option (List Stmt)} {s t u : State} {v : Value}
      (value : ComesTo (fun fuel => eval fuel c s) (.ok v) t) (fails : v.isTruthy = false)
      (rest : Chosen branches otherwise t body u) :
      Chosen ((c, skipped) :: branches) otherwise s body u
  | otherwise (body : List Stmt) (s : State) : Chosen [] (some body) s body s
  | nothing (s : State) : Chosen [] none s [] s

/-- A choice ends as the branch that it takes. -/
theorem choose_comesTo_iff {branches : List (Expr × List Stmt)} {otherwise : Option (List Stmt)} :
    ComesTo (fun fuel => choose fuel branches otherwise s) (.ok flow) s' ↔
      ∃ body t, Chosen branches otherwise s body t ∧
        ComesTo (fun fuel => block fuel body t) (.ok flow) s' := by
  induction branches generalizing s with
  | nil =>
    cases otherwise with
    | none =>
      refine (comesTo_succ rfl).trans ⟨fun h => ⟨[], s, .nothing s, (comesTo_succ rfl).mpr h⟩, ?_⟩
      rintro ⟨_, _, ⟨⟩, h⟩
      exact (comesTo_succ rfl).mp h
    | some body =>
      refine (comesTo_succ rfl).trans ⟨fun h => ⟨body, s, .otherwise body s, h⟩, ?_⟩
      rintro ⟨_, _, ⟨⟩, h⟩
      exact h
  | cons branch branches ih =>
    refine (comesTo_succ rfl).trans
      ((comesTo_andThen (eval_lasts branch.1 s) fun v t =>
        (block_lasts branch.2 t).ite (choose_lasts branches otherwise t)).trans ?_)
    constructor
    · rintro ⟨v, t, hvalue, hbranch⟩
      cases hholds : v.isTruthy with
      | true =>
        simp only [hholds, if_true] at hbranch
        exact ⟨branch.2, t, .first hvalue hholds, hbranch⟩
      | false =>
        simp only [hholds, Bool.false_eq_true, if_false] at hbranch
        obtain ⟨body, u, hchosen, hbody⟩ := ih.mp hbranch
        exact ⟨body, u, .later hvalue hholds hchosen, hbody⟩
    · rintro ⟨body, u, hchosen, hbody⟩
      cases hchosen with
      | first hvalue hholds => exact ⟨_, u, hvalue, by simpa only [hholds, if_true] using hbody⟩
      | @later _ _ _ _ _ _ t _ _ hvalue hfails hrest =>
        refine ⟨_, t, hvalue, ?_⟩
        simp only [hfails, Bool.false_eq_true, if_false]
        exact ih.mpr ⟨body, u, hrest, hbody⟩

/-! ### Loops -/

/-- How a loop ends: when it is finished, when a round leaves it, and when a round gives back a
value; a round that runs out and one that goes on to the next are followed by another. -/
inductive LoopEnds {τ : Type} (finished : τ → State → Prop) (round : τ → Flow → τ → Prop)
    (left : τ → State) : τ → Flow → State → Prop where
  | finished {a : τ} {s : State} : finished a s → LoopEnds finished round left a .normal s
  | leave {a b : τ} : round a .leave b → LoopEnds finished round left a .normal (left b)
  | giveBack {a b : τ} {v : Value} : round a (.giveBack v) b →
      LoopEnds finished round left a (.giveBack v) (left b)
  | again {a b : τ} {flow flow' : Flow} {s : State} : round a flow b →
      flow = .normal ∨ flow = .next → LoopEnds finished round left b flow' s →
        LoopEnds finished round left a flow' s

/-- A loop takes up what leaves it and what goes on to the next round. -/
theorem LoopEnds.normal_or_giveBack {τ : Type} {finished : τ → State → Prop}
    {round : τ → Flow → τ → Prop} {left : τ → State} {a : τ}
    (h : LoopEnds finished round left a flow s) : flow = .normal ∨ ∃ v, flow = .giveBack v := by
  induction h with
  | finished | leave => exact .inl rfl
  | giveBack => exact .inr ⟨_, rfl⟩
  | again _ _ _ ih => exact ih

/-- The condition of a `while` loop fails. -/
def WhileOver (c : Expr) (s s' : State) : Prop :=
  ∃ v, ComesTo (fun fuel => eval fuel c s) (.ok v) s' ∧ v.isTruthy = false

/-- In a round of a `while` loop the condition holds and the body comes to an end. -/
def WhileRound (c : Expr) (body : List Stmt) (s : State) (flow : Flow) (s' : State) : Prop :=
  ∃ v t, ComesTo (fun fuel => eval fuel c s) (.ok v) t ∧ v.isTruthy = true ∧
    ComesTo (fun fuel => block fuel body t) (.ok flow) s'

/-- A loop that comes to an end does so by its rounds. -/
theorem loopEnds_of_loopWhile {c : Expr} {body : List Stmt} {fuel : Nat}
    (h : loopWhile fuel c body s = .done (.ok flow) s') :
    LoopEnds (WhileOver c) (WhileRound c body) id s flow s' := by
  induction fuel generalizing s with
  | zero => cases h
  | succ fuel ih =>
    obtain ⟨v, t, hvalue, h⟩ := Run.andThen_eq_ok.mp h
    split at h
    · next hholds =>
      obtain ⟨ending, u, hbody, h⟩ := Run.andThen_eq_ok.mp h
      have hround : WhileRound c body s ending u := ⟨v, t, ⟨fuel, hvalue⟩, hholds, fuel, hbody⟩
      split at h
      · cases h
        exact .leave hround
      · cases h
        exact .giveBack hround
      · next hleave hgiveBack =>
        refine .again hround ?_ (ih h)
        cases ending with
        | normal => exact .inl rfl
        | next => exact .inr rfl
        | leave => exact absurd rfl hleave
        | giveBack v => exact absurd rfl (hgiveBack v)
    · next hfails =>
      cases h
      exact .finished ⟨v, ⟨fuel, hvalue⟩, by simpa using hfails⟩

/-- What a loop makes of the end of a round comes to the same end with more fuel. -/
theorem Flow.lasts_afterRound (flow : Flow) {again : Nat → Run Flow} (h : Lasts again)
    (s : State) :
    Lasts fun fuel => match flow with
      | .leave => .value .normal s
      | .giveBack v => .value (.giveBack v) s
      | _ => again fuel := by
  cases flow with
  | normal | next => exact h
  | leave | giveBack => exact .const _

/-- A loop goes on behind a round as the end of the round says. -/
theorem comesTo_loopWhile_of_round {c : Expr} {body : List Stmt} {ending : Flow} {t : State}
    (hround : WhileRound c body s ending t)
    (h : ComesTo (fun fuel => match ending with
      | .leave => .value .normal t
      | .giveBack v => .value (.giveBack v) t
      | _ => loopWhile fuel c body t) (.ok flow) s') :
    ComesTo (fun fuel => loopWhile fuel c body s) (.ok flow) s' := by
  obtain ⟨v, u, hvalue, hholds, hbody⟩ := hround
  have hlasts : ∀ u, Lasts fun fuel => (block fuel body u).andThen fun flow s =>
      match flow with
      | .leave => .value .normal s
      | .giveBack v => .value (.giveBack v) s
      | _ => loopWhile fuel c body s := fun u =>
    (block_lasts body u).andThen fun flow s => flow.lasts_afterRound (loopWhile_lasts c body s) s
  refine (comesTo_succ rfl).mpr ((comesTo_andThen (eval_lasts c s) fun v u =>
    (hlasts u).ite (.const _)).mpr ⟨v, u, hvalue, ?_⟩)
  simp only [hholds, if_true]
  exact (comesTo_andThen (block_lasts body u) fun flow s =>
    flow.lasts_afterRound (loopWhile_lasts c body s) s).mpr ⟨ending, t, hbody, h⟩

/-- A loop comes to the end that its rounds come to. -/
theorem loopWhile_of_loopEnds {c : Expr} {body : List Stmt}
    (h : LoopEnds (WhileOver c) (WhileRound c body) id s flow s') :
    ComesTo (fun fuel => loopWhile fuel c body s) (.ok flow) s' := by
  induction h with
  | @finished s s' hover =>
    obtain ⟨v, ⟨fuel, hvalue⟩, hfails⟩ := hover
    refine ⟨fuel + 1, Run.andThen_eq_ok.mpr ⟨v, s', hvalue, ?_⟩⟩
    rw [hfails]
    rfl
  | leave hround => exact comesTo_loopWhile_of_round hround (comesTo_value.mpr ⟨rfl, rfl⟩)
  | giveBack hround => exact comesTo_loopWhile_of_round hround (comesTo_value.mpr ⟨rfl, rfl⟩)
  | again hround hflow _ ih =>
    rcases hflow with rfl | rfl <;> exact comesTo_loopWhile_of_round hround ih

/-- A `while` loop ends as its rounds say. -/
theorem loopWhile_comesTo_iff {c : Expr} {body : List Stmt} :
    ComesTo (fun fuel => loopWhile fuel c body s) (.ok flow) s' ↔
      LoopEnds (WhileOver c) (WhileRound c body) id s flow s' :=
  ⟨fun ⟨_, h⟩ => loopEnds_of_loopWhile h, loopWhile_of_loopEnds⟩

/-- No item is left for a `for` loop. -/
def ForOver (a : Value.Items × State) (s' : State) : Prop := a.1.next? = none ∧ s' = a.2

/-- In a round of a `for` loop the name is bound to the next item and the body comes to an end. -/
def ForRound (x : String) (body : List Stmt) (a : Value.Items × State) (flow : Flow)
    (b : Value.Items × State) : Prop :=
  ∃ v, a.1.next? = some (v, b.1) ∧
    ComesTo (fun fuel => block fuel body (a.2.bind x v)) (.ok flow) b.2

/-- A loop over items that comes to an end does so by its rounds. -/
theorem loopEnds_of_loopFor {x : String} {items : Value.Items} {body : List Stmt} {fuel : Nat}
    (h : loopFor fuel x items body s = .done (.ok flow) s') :
    LoopEnds ForOver (ForRound x body) Prod.snd (items, s) flow s' := by
  induction fuel generalizing items s with
  | zero => cases h
  | succ fuel ih =>
    rw [loopFor] at h
    split at h
    · next hnone =>
      cases h
      exact .finished ⟨hnone, rfl⟩
    · next v others hnext =>
      obtain ⟨ending, u, hbody, h⟩ := Run.andThen_eq_ok.mp h
      have hround : ForRound x body (items, s) ending (others, u) := ⟨v, hnext, fuel, hbody⟩
      split at h
      · cases h
        exact .leave hround
      · cases h
        exact .giveBack hround
      · next hleave hgiveBack =>
        refine .again hround ?_ (ih h)
        cases ending with
        | normal => exact .inl rfl
        | next => exact .inr rfl
        | leave => exact absurd rfl hleave
        | giveBack v => exact absurd rfl (hgiveBack v)

/-- A loop over items goes on behind a round as the end of the round says. -/
theorem comesTo_loopFor_of_round {x : String} {body : List Stmt} {a b : Value.Items × State}
    {ending : Flow} (hround : ForRound x body a ending b)
    (h : ComesTo (fun fuel => match ending with
      | .leave => .value .normal b.2
      | .giveBack v => .value (.giveBack v) b.2
      | _ => loopFor fuel x b.1 body b.2) (.ok flow) s') :
    ComesTo (fun fuel => loopFor fuel x a.1 body a.2) (.ok flow) s' := by
  obtain ⟨v, hnext, hbody⟩ := hround
  refine (comesTo_succ rfl).mpr ?_
  simp only [loopFor, hnext]
  exact (comesTo_andThen (block_lasts body _) fun flow s =>
    flow.lasts_afterRound (loopFor_lasts x b.1 body s) s).mpr ⟨ending, b.2, hbody, h⟩

/-- A loop over items comes to the end that its rounds come to. -/
theorem loopFor_of_loopEnds {x : String} {body : List Stmt} {a : Value.Items × State}
    (h : LoopEnds ForOver (ForRound x body) Prod.snd a flow s') :
    ComesTo (fun fuel => loopFor fuel x a.1 body a.2) (.ok flow) s' := by
  induction h with
  | finished hover =>
    obtain ⟨hnone, rfl⟩ := hover
    refine (comesTo_succ rfl).mpr ?_
    simp only [loopFor, hnone]
    exact comesTo_value.mpr ⟨rfl, rfl⟩
  | leave hround => exact comesTo_loopFor_of_round hround (comesTo_value.mpr ⟨rfl, rfl⟩)
  | giveBack hround => exact comesTo_loopFor_of_round hround (comesTo_value.mpr ⟨rfl, rfl⟩)
  | again hround hflow _ ih =>
    rcases hflow with rfl | rfl <;> exact comesTo_loopFor_of_round hround ih

/-- A `for` loop ends as its rounds say. -/
theorem loopFor_comesTo_iff {x : String} {items : Value.Items} {body : List Stmt} :
    ComesTo (fun fuel => loopFor fuel x items body s) (.ok flow) s' ↔
      LoopEnds ForOver (ForRound x body) Prod.snd (items, s) flow s' :=
  ⟨fun ⟨_, h⟩ => loopEnds_of_loopFor h, loopFor_of_loopEnds⟩

/-! ### Calls -/

/-- A call has the value that was given back, or none at the end of the body. -/
theorem callResult_eq_ok {v : Value} :
    callResult flow = .ok v ↔ flow = .giveBack v ∨ flow = .normal ∧ v = .none := by
  cases flow <;> simp [callResult, eq_comm]

/-- A call that is made gives back what the body of the function gives back, or nothing if the body
runs out, and it leaves the frame of the body. -/
theorem callFunction_comesTo_iff {f : Function} {args : List Value} {v : Value} :
    ComesTo (fun fuel => callFunction fuel f args s) (.ok v) s' ↔
      args.length = f.params.length ∧ s.env.depth < greatestDepth ∧
        ∃ flow t, ComesTo (fun fuel => block fuel f.body (f.entered args s)) (.ok flow) t ∧
          (flow = .giveBack v ∨ flow = .normal ∧ v = .none) ∧
          s' = { t with env := t.env.popFrame } := by
  rw [comesTo_succ rfl, ← and_assoc, ← Function.refusal?_eq_none_iff]
  cases hrefused : f.refusal? args s with
  | some e =>
    simp only [callFunction, hrefused, reduceCtorEq, false_and, iff_false]
    exact comesTo_fault
  | none =>
    simp only [callFunction, hrefused, true_and]
    refine (comesTo_andThen ((block_lasts f.body _).mapEnv _) fun flow t => ?_).trans ?_
    · exact .const _
    constructor
    · rintro ⟨flow, u, hpopped, hresult⟩
      obtain ⟨hvalue, rfl⟩ := comesTo_done.mp hresult
      obtain ⟨t, hbody, hleft⟩ := comesTo_mapEnv.mp hpopped
      exact ⟨flow, t, hbody, callResult_eq_ok.mp hvalue, hleft⟩
    · rintro ⟨flow, t, hbody, hresult, rfl⟩
      exact ⟨flow, _, comesTo_mapEnv.mpr ⟨t, hbody, rfl⟩,
        comesTo_done.mpr ⟨callResult_eq_ok.mpr hresult, rfl⟩⟩

end ScriptShell
