import ScriptShell.Proofs.Evaluation.Frames
import ScriptShell.Proofs.Script.Grammar

/-!
# Names that scripts bind

The session gains no name but by a statement outside of functions that binds it: evaluating an
expression binds none, and what a function binds is gone with its frame. The names that a script
binds are names among its tokens.
-/

namespace ScriptShell

/-- The statement and those in its branches and loops bind names of a class only; what stands in a
function that it defines does not count. -/
inductive Stmt.BindsOnly (P : String → Prop) : Stmt → Prop where
  | expr (e : Expr) : BindsOnly P (.expr e)
  | assign {name : String} (op : Option Operator) (e : Expr) : P name →
      BindsOnly P (.assign name op e)
  | setItem (name : String) (i e : Expr) : BindsOnly P (.setItem name i e)
  | define {name : String} (params : List String) (body : List Stmt) : P name →
      BindsOnly P (.define name params body)
  | choose {branches : List (Expr × List Stmt)} {otherwise : Option (List Stmt)} :
      (∀ branch ∈ branches, ∀ st ∈ branch.2, BindsOnly P st) →
      (∀ body, otherwise = some body → ∀ st ∈ body, BindsOnly P st) →
      BindsOnly P (.choose branches otherwise)
  | loopWhile (c : Expr) {body : List Stmt} : (∀ st ∈ body, BindsOnly P st) →
      BindsOnly P (.loopWhile c body)
  | loopFor {name : String} (e : Expr) {body : List Stmt} : P name →
      (∀ st ∈ body, BindsOnly P st) → BindsOnly P (.loopFor name e body)
  | giveBack (value : Option Expr) : BindsOnly P (.giveBack value)
  | leave : BindsOnly P .leave
  | next : BindsOnly P .next
  | pass : BindsOnly P .pass

/-- The session gains names of a class only. -/
def Gains (P : String → Prop) (before after : Environment) : Prop :=
  ∀ x ∈ after.locals.keys, x ∈ before.locals.keys ∨ P x

namespace Gains

variable {P : String → Prop}

theorem refl (env : Environment) : Gains P env env := fun _ => .inl

theorem trans {a b c : Environment} (h : Gains P a b) (h' : Gains P b c) : Gains P a c := by
  intro x hx
  rcases h' x hx with hb | hP
  · exact h x hb
  · exact .inr hP

/-- Evaluating an expression binds nothing for the session. -/
theorem of_kept {a b : Environment} (h : Kept a b) : Gains P a b := by
  intro x hx
  rw [h.locals.keys_eq] at hx
  exact .inl hx

/-- A scope with another item binds no other name. -/
theorem insert {name : String} (hname : P name) (v : Value) {scope : Scope} {x : String}
    (hx : x ∈ (scope.insert name v).keys) : x ∈ scope.keys ∨ P x := by
  rw [Entries.keys_insert] at hx
  split at hx
  · exact .inl hx
  · rcases List.mem_append.mp hx with hx | hx
    · exact .inl hx
    · obtain rfl := List.mem_singleton.mp hx
      exact .inr hname

theorem set {name : String} (hname : P name) (v : Value) (env : Environment) :
    Gains P env (env.set name v) := by
  unfold Environment.set
  split
  · exact refl env
  · exact fun x => insert hname v

/-- Changing what a name is bound to binds no other name. -/
theorem replace (name : String) (v : Value) (env : Environment) :
    Gains P env (env.replace name v) := by
  have houtside : Gains P env (Environment.replace.replaceOutside name v env) := by
    unfold Environment.replace.replaceOutside
    split
    · next hhas =>
      intro x hx
      rw [Entries.keys_insert, if_pos (Entries.has_iff_mem_keys.mp hhas)] at hx
      exact .inl hx
    · split
      · exact refl env
      · exact refl env
  unfold Environment.replace
  split
  · split
    · exact refl env
    · exact houtside
  · exact houtside

end Gains

/-! ### Runs -/

section Runs

variable {P : String → Prop} {α β : Type} {s : State}

/-- An expression evaluated before what is run. -/
theorem Run.Keeps.gainsThen {run : Run α} (h : run.Keeps Kept s) {next : α → State → Run β}
    (hnext : ∀ a s', (next a s').Keeps (Gains P) s') : (run.andThen next).Keeps (Gains P) s :=
  (h.mono Gains.of_kept).andThen (fun _ _ _ => Gains.trans) hnext

theorem gains_result (r : Except EvalError α) (s : State) : (Run.result r s).Keeps (Gains P) s :=
  .done (.refl s.env) r

/-- An assignment binds its name at most. -/
theorem gains_assign {name : String} (hname : P name) (op : Option Operator) (v : Value)
    (s : State) : (assign name op v s).Keeps (Gains P) s := by
  unfold assign
  split
  · exact .done (.set hname v s.env) _
  · split
    · exact gains_result _ s
    · split
      · exact gains_result _ s
      · exact .done (.set hname _ s.env) _

/-- An assignment to an item binds no new name. -/
theorem gains_assignItem (name : String) (index v : Value) (s : State) :
    (assignItem name index v s).Keeps (Gains P) s := by
  unfold assignItem
  split
  · exact gains_result _ s
  · split
    · exact gains_result _ s
    · exact .done (.replace name _ s.env) _

/-- The session gains names of a class only, by what runs with a given amount of fuel. -/
structure GainsWith (P : String → Prop) (fuel : Nat) : Prop where
  block : ∀ script s, (∀ st ∈ script, Stmt.BindsOnly P st) →
    (block fuel script s).Keeps (Gains P) s
  exec : ∀ st s, Stmt.BindsOnly P st → (exec fuel st s).Keeps (Gains P) s
  choose : ∀ branches otherwise s, (∀ branch ∈ branches, ∀ st ∈ branch.2, Stmt.BindsOnly P st) →
    (∀ body, otherwise = some body → ∀ st ∈ body, Stmt.BindsOnly P st) →
    (choose fuel branches otherwise s).Keeps (Gains P) s
  loopWhile : ∀ c body s, (∀ st ∈ body, Stmt.BindsOnly P st) →
    (loopWhile fuel c body s).Keeps (Gains P) s
  loopFor : ∀ x items body s, P x → (∀ st ∈ body, Stmt.BindsOnly P st) →
    (loopFor fuel x items body s).Keeps (Gains P) s

variable {fuel : Nat}

section Step

variable (ih : GainsWith P fuel)
include ih

/-- One step of fuel more binds the names of statements in a row at most. -/
theorem gains_block {script : List Stmt} (h : ∀ st ∈ script, Stmt.BindsOnly P st) (s : State) :
    (block (fuel + 1) script s).Keeps (Gains P) s := by
  cases script with
  | nil => exact gains_result _ s
  | cons st rest =>
    obtain ⟨hst, hrest⟩ := List.forall_mem_cons.mp h
    refine (ih.exec st s hst).andThen (fun _ _ _ => Gains.trans) fun flow s => ?_
    split
    · exact ih.block rest s hrest
    · exact gains_result _ s

/-- One step of fuel more binds the names of a statement at most. -/
theorem gains_exec {st : Stmt} (h : Stmt.BindsOnly P st) (s : State) :
    (exec (fuel + 1) st s).Keeps (Gains P) s := by
  have heval := (keepsWith fuel).eval
  cases h with
  | expr e => exact (heval e s).gainsThen fun v s => gains_result _ s
  | assign op e hname => exact (heval e s).gainsThen fun v s => gains_assign hname op v s
  | setItem name i e =>
    exact (heval i s).gainsThen fun i s =>
      (heval e s).gainsThen fun v s => gains_assignItem name i v s
  | define params body hname => exact .done (.set hname _ s.env.nextSerial.2) _
  | choose hbranches hotherwise => exact ih.choose _ _ s hbranches hotherwise
  | loopWhile c hbody => exact ih.loopWhile c _ s hbody
  | loopFor e hname hbody =>
    refine (heval e s).gainsThen fun v s => ?_
    split
    · exact ih.loopFor _ _ _ s hname hbody
    · exact gains_result _ s
  | giveBack value =>
    cases value with
    | none => exact gains_result _ s
    | some e => exact (heval e s).gainsThen fun v s => gains_result _ s
  | leave | next | pass => exact gains_result _ s

/-- One step of fuel more binds the names of the branches at most. -/
theorem gains_choose {branches : List (Expr × List Stmt)} {otherwise : Option (List Stmt)}
    (hbranches : ∀ branch ∈ branches, ∀ st ∈ branch.2, Stmt.BindsOnly P st)
    (hotherwise : ∀ body, otherwise = some body → ∀ st ∈ body, Stmt.BindsOnly P st) (s : State) :
    (choose (fuel + 1) branches otherwise s).Keeps (Gains P) s := by
  cases branches with
  | nil =>
    cases otherwise with
    | none => exact gains_result _ s
    | some body => exact ih.block body s (hotherwise body rfl)
  | cons branch branches =>
    obtain ⟨hfirst, hothers⟩ := List.forall_mem_cons.mp hbranches
    refine ((keepsWith fuel).eval branch.1 s).gainsThen fun v s => ?_
    split
    · exact ih.block branch.2 s hfirst
    · exact ih.choose branches otherwise s hothers hotherwise

/-- One step of fuel more binds the names of the body at most. -/
theorem gains_loopWhile (c : Expr) {body : List Stmt} (h : ∀ st ∈ body, Stmt.BindsOnly P st)
    (s : State) : (loopWhile (fuel + 1) c body s).Keeps (Gains P) s := by
  refine ((keepsWith fuel).eval c s).gainsThen fun v s => ?_
  split
  · refine (ih.block body s h).andThen (fun _ _ _ => Gains.trans) fun flow s => ?_
    split
    · exact gains_result _ s
    · exact gains_result _ s
    · exact ih.loopWhile c body s h
  · exact gains_result _ s

/-- One step of fuel more binds the variable and the names of the body at most. -/
theorem gains_loopFor {x : String} (hx : P x) (items : Value.Items) {body : List Stmt}
    (h : ∀ st ∈ body, Stmt.BindsOnly P st) (s : State) :
    (loopFor (fuel + 1) x items body s).Keeps (Gains P) s := by
  rw [loopFor]
  split
  · exact gains_result _ s
  · next v items _ =>
    have hbody : (block fuel body (s.bind x v)).Keeps (Gains P) s :=
      fun r s' heq => (Gains.set hx v s.env).trans (ih.block body _ h r s' heq)
    refine hbody.andThen (fun _ _ _ => Gains.trans) fun flow s => ?_
    split
    · exact gains_result _ s
    · exact gains_result _ s
    · exact ih.loopFor x items body s hx h

end Step

/-- By what runs with any amount of fuel the session gains names of a class only, if the statements
that run bind no others. -/
theorem gainsWith (P : String → Prop) (fuel : Nat) : GainsWith P fuel := by
  induction fuel with
  | zero => constructor <;> intros <;> exact .unfinished
  | succ fuel ih =>
    exact ⟨fun _ s h => gains_block ih h s, fun _ s h => gains_exec ih h s,
      fun _ _ s hb ho => gains_choose ih hb ho s, fun c _ s h => gains_loopWhile ih c h s,
      fun _ items _ s hx h => gains_loopFor ih hx items h s⟩

/-- A script binds nothing for the session but the names of its statements. -/
theorem gains_runScript {script : List Stmt} (h : ∀ st ∈ script, Stmt.BindsOnly P st)
    (s : State) : (runScript fuel script s).Keeps (Gains P) s := by
  refine ((gainsWith P fuel).block script s h).andThen (fun _ _ _ => Gains.trans) fun flow s => ?_
  split
  · exact gains_result _ s
  · exact gains_result _ s

end Runs

/-! ### Scripts -/

/-- What it means for a part of a script to bind names of a class only. -/
def ScriptRule.BindsOnly (P : String → Prop) : (rule : ScriptRule) → rule.Tree → Prop
  | .simple, st | .compound, st => Stmt.BindsOnly P st
  | .alternatives, (branches, otherwise) =>
    (∀ branch ∈ branches, ∀ st ∈ branch.2, Stmt.BindsOnly P st) ∧
      ∀ body, otherwise = some body → ∀ st ∈ body, Stmt.BindsOnly P st
  | .parameters, _ => True
  | .program, p | .line, p | .simpleLine, p | .suite, p | .lines, p =>
    ∀ st ∈ p, Stmt.BindsOnly P st

/-- The names that a part of a script binds are among its tokens. -/
theorem ScriptRule.Derives.bindsOnly {P : String → Prop} {rule : ScriptRule} {us : List Token}
    {tree : rule.Tree} (h : rule.Derives us tree) (hP : ∀ x, .identifier x ∈ us → P x) :
    rule.BindsOnly P tree := by
  induction h with
  | emptyProgram => exact nofun
  | ofLines _ ih | ofSimpleLine _ ih | ofInlineSuite _ ih | lastLine _ ih => exact ih hP
  | ofCompound _ ih => exact fun st hst => List.mem_singleton.mp hst ▸ ih hP
  | lastSimple _ ih | lastSimpleWithSign _ ih =>
    exact fun st hst => List.mem_singleton.mp hst ▸ ih fun x hx => hP x (by simp [hx])
  | moreSimple _ _ ihs ihl =>
    exact List.forall_mem_cons.mpr
      ⟨ihs fun x hx => hP x (by simp [hx]), ihl fun x hx => hP x (by simp [hx])⟩
  | pass => exact .pass
  | leave => exact .leave
  | next => exact .next
  | giveBackNothing | giveBack => exact .giveBack _
  | assign => exact .assign _ _ (hP _ (by simp))
  | setItem => exact .setItem _ _ _
  | expr => exact .expr _
  | define => exact .define _ _ (hP _ (by simp))
  | choose _ _ _ ihb iha =>
    obtain ⟨hbranches, hotherwise⟩ := iha fun x hx => hP x (by simp [hx])
    exact .choose (List.forall_mem_cons.mpr ⟨ihb fun x hx => hP x (by simp [hx]), hbranches⟩)
      hotherwise
  | loopWhile _ _ ihb => exact .loopWhile _ (ihb fun x hx => hP x (by simp [hx]))
  | loopFor _ _ ihb => exact .loopFor _ (hP _ (by simp)) (ihb fun x hx => hP x (by simp [hx]))
  | noAlternative => exact ⟨nofun, nofun⟩
  | otherwise _ ih =>
    refine ⟨nofun, fun body hbody => ?_⟩
    cases hbody
    exact ih fun x hx => hP x (by simp [hx])
  | elseIf _ _ _ ihb iha =>
    obtain ⟨hbranches, hotherwise⟩ := iha fun x hx => hP x (by simp [hx])
    exact ⟨List.forall_mem_cons.mpr ⟨ihb fun x hx => hP x (by simp [hx]), hbranches⟩, hotherwise⟩
  | noParameter | lastParameter | moreParameters => trivial
  | block _ ih => exact ih fun x hx => hP x (by simp [hx])
  | moreLines _ _ ihf ihl =>
    exact List.forall_mem_append.mpr
      ⟨ihf fun x hx => hP x (by simp [hx]), ihl fun x hx => hP x (by simp [hx])⟩

end ScriptShell
