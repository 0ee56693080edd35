import Mathlib.Logic.Basic
import ScriptShell.Evaluation.Environment

/-!
# Bindings of environments

The scopes of an environment and what names are bound to in each of them. A name is found in the
first scope that binds it, of those in which it is looked up. Every write changes the binding of one
name in one scope: a new binding goes to the innermost scope, and a changed one stays where the name
is found.
-/

namespace ScriptShell

/-- The scopes of an environment: the frames of the calls that are under way, the innermost one
first, the locals and the globals. -/
inductive ScopePlace where
  | frame (outward : Nat)
  | locals
  | globals
  deriving DecidableEq

namespace Environment

/-- The scope at a place. -/
def scope? (env : Environment) : ScopePlace → Option Scope
  | .frame n => env.frames[n]?
  | .locals => some env.locals
  | .globals => some env.globals

/-- What a name is bound to in the scope at a place. -/
def binding? (env : Environment) (place : ScopePlace) (name : String) : Option Value :=
  (env.scope? place).bind (Entries.find? name)

/-- The scope to which a new binding goes. -/
def assignedIn (env : Environment) : ScopePlace :=
  if env.frames.isEmpty then .locals else .frame 0

/-- The first scope that binds a name, of those in which it is looked up. -/
def foundIn (name : String) (env : Environment) : Option ScopePlace :=
  if (env.binding? (.frame 0) name).isSome then some (.frame 0)
  else if (env.binding? .locals name).isSome then some .locals
  else if (env.binding? .globals name).isSome then some .globals
  else none

/-- The binding of one name in one scope is changed, and it is all that is. -/
structure ChangedOnly (place : ScopePlace) (name : String) (v : Value)
    (before after : Environment) : Prop where
  bound : after.binding? place name = some v
  others : ∀ place' name', place' ≠ place ∨ name' ≠ name →
    after.binding? place' name' = before.binding? place' name'
  depth : after.depth = before.depth
  exitRequested : after.exitRequested = before.exitRequested
  defined : after.defined = before.defined

/-- Binds a name in the scope at a place. -/
def putIn (place : ScopePlace) (name : String) (v : Value) (env : Environment) : Environment :=
  match place with
  | .frame n => { env with frames := env.frames.modify n (Entries.insert name v) }
  | .locals => { env with locals := env.locals.insert name v }
  | .globals => { env with globals := env.globals.insert name v }

variable {env : Environment} {place : ScopePlace} {name : String} {v : Value}

/-- A name is looked up in the innermost frame, then among the locals, then among the globals. -/
theorem get?_eq_or (name : String) (env : Environment) :
    env.get? name = (env.binding? (.frame 0) name).or
      ((env.binding? .locals name).or (env.binding? .globals name)) := by
  have hframe : env.binding? (.frame 0) name = env.frames.head?.bind (Entries.find? name) := by
    rw [binding?, scope?, List.head?_eq_getElem?]
  rw [hframe]
  rfl

/-- What a name is bound to is its binding in the scope where it is found. -/
theorem get?_eq_binding? (name : String) (env : Environment) :
    env.get? name = (env.foundIn name).bind fun place => env.binding? place name := by
  rw [get?_eq_or]
  unfold foundIn
  cases hframe : env.binding? (.frame 0) name with
  | some v => simp [hframe]
  | none =>
    cases hlocals : env.binding? .locals name with
    | some v => simp [hlocals]
    | none =>
      cases hglobals : env.binding? .globals name <;> simp [hglobals]

/-- The scope that a name is put into binds it. -/
theorem scope?_putIn_self (place : ScopePlace) (name : String) (v : Value) (env : Environment) :
    (env.putIn place name v).scope? place = (env.scope? place).map (Entries.insert name v) := by
  cases place with
  | frame n => exact List.getElem?_modify_eq ..
  | locals => rfl
  | globals => rfl

/-- The other scopes stay as they are. -/
theorem scope?_putIn_of_ne {place' : ScopePlace} (h : place' ≠ place) (name : String) (v : Value)
    (env : Environment) : (env.putIn place name v).scope? place' = env.scope? place' := by
  cases place with
  | frame n =>
    cases place' with
    | frame m => exact List.getElem?_modify_ne _ _ fun heq => h (congrArg _ heq.symm)
    | locals | globals => rfl
  | locals => cases place' with
    | locals => exact absurd rfl h
    | frame | globals => rfl
  | globals => cases place' with
    | globals => exact absurd rfl h
    | frame | locals => rfl

/-- Putting a name into a scope changes that name in that scope only. -/
theorem changedOnly_putIn (h : (env.scope? place).isSome) :
    ChangedOnly place name v env (env.putIn place name v) := by
  obtain ⟨scope, hscope⟩ := Option.isSome_iff_exists.mp h
  have hafter := scope?_putIn_self place name v env
  rw [hscope] at hafter
  refine ⟨?_, fun place' name' hne => ?_, ?_, ?_, ?_⟩
  · rw [binding?, hafter]
    exact Entries.find?_insert_self ..
  · by_cases hplace : place' = place
    · subst hplace
      have hname := hne.resolve_left (· rfl)
      rw [binding?, binding?, hafter, hscope]
      exact Entries.find?_insert_of_ne hname ..
    · rw [binding?, binding?, scope?_putIn_of_ne hplace]
  · cases place with
    | frame n => exact List.length_modify ..
    | locals | globals => rfl
  · cases place <;> rfl
  · cases place <;> rfl

/-- Binding a name changes it in the scope that assignments go to. -/
theorem changedOnly_set (name : String) (v : Value) (env : Environment) :
    ChangedOnly env.assignedIn name v env (env.set name v) := by
  have hput : env.set name v = env.putIn env.assignedIn name v ∧
      (env.scope? env.assignedIn).isSome := by
    unfold set assignedIn
    split
    · next hframes => simp [putIn, scope?, hframes]
    · next hframes => simp [putIn, scope?, hframes]
  rw [hput.1]
  exact changedOnly_putIn hput.2

/-- An innermost frame that does not bind a name leaves a change of its binding to the scopes
outside the frames. -/
theorem replace_eq_replaceOutside (h : (env.binding? (.frame 0) name).isSome = false) (v : Value) :
    env.replace name v = replace.replaceOutside name v env := by
  unfold replace
  split
  · next frame outer hframes =>
    have hhas : frame.has name = false := by
      rw [← h, binding?, scope?, hframes]
      rfl
    rw [hhas, if_neg Bool.false_ne_true]
  · rfl

/-- Binding a name anew puts it into the scope where it is found. -/
theorem replace_eq_putIn (h : env.foundIn name = some place) (v : Value) :
    env.replace name v = env.putIn place name v := by
  unfold foundIn at h
  split at h
  · next hframe =>
    cases h
    unfold replace
    split
    · next frame outer hframes =>
      have hhas : frame.has name = true := by
        rw [← hframe, binding?, scope?, hframes]
        rfl
      rw [if_pos hhas, putIn, hframes]
      rfl
    · next hframes =>
      rw [binding?, scope?, hframes] at hframe
      cases hframe
  · next hframe =>
    rw [replace_eq_replaceOutside (Bool.eq_false_iff.mpr hframe)]
    unfold replace.replaceOutside
    split at h
    · next hlocals =>
      cases h
      exact if_pos hlocals
    · next hlocals =>
      split at h
      · next hglobals =>
        cases h
        exact (if_neg hlocals).trans (if_pos hglobals)
      · cases h

/-- A name that is found is bound where it is found. -/
theorem isSome_of_foundIn (h : env.foundIn name = some place) :
    (env.binding? place name).isSome := by
  unfold foundIn at h
  split at h
  · next hframe => exact Option.some.inj h ▸ hframe
  · split at h
    · next hlocals => exact Option.some.inj h ▸ hlocals
    · split at h
      · next hglobals => exact Option.some.inj h ▸ hglobals
      · cases h

/-- Binding a name anew changes it in the scope where it is found. -/
theorem changedOnly_replace (h : env.foundIn name = some place) (v : Value) :
    ChangedOnly place name v env (env.replace name v) := by
  have hscope : (env.scope? place).isSome := by
    have hbinding := isSome_of_foundIn h
    unfold binding? at hbinding
    cases hscope : env.scope? place with
    | some scope => rfl
    | none =>
      rw [hscope] at hbinding
      cases hbinding
  rw [replace_eq_putIn h]
  exact changedOnly_putIn hscope

/-- Binding a global name changes it among the globals. -/
theorem changedOnly_setGlobal (name : String) (v : Value) (env : Environment) :
    ChangedOnly .globals name v env (env.setGlobal name v) :=
  changedOnly_putIn rfl

/-- A name that is not bound is not changed. -/
theorem replace_of_unbound (h : env.get? name = none) (v : Value) : env.replace name v = env := by
  rw [get?_eq_or, Option.or_eq_none_iff, Option.or_eq_none_iff] at h
  obtain ⟨hframe, hlocals, hglobals⟩ := h
  rw [replace_eq_replaceOutside (by rw [hframe, Option.isSome_none])]
  unfold replace.replaceOutside
  have hunbound : ∀ {scope : Scope}, scope.find? name = none → ¬scope.has name = true :=
    fun hnone => by simp [Entries.has, hnone]
  rw [if_neg (hunbound hlocals), if_neg (hunbound hglobals)]

/-- Where names are bound is not changed by a change of a binding that is there. -/
theorem ChangedOnly.foundIn_eq {after : Environment} (h : ChangedOnly place name v env after)
    (hbound : (env.binding? place name).isSome) (other : String) :
    after.foundIn other = env.foundIn other := by
  have hsame : ∀ place', (after.binding? place' other).isSome =
      (env.binding? place' other).isSome := by
    intro place'
    by_cases hcell : place' = place ∧ other = name
    · obtain ⟨rfl, rfl⟩ := hcell
      rw [h.bound, hbound, Option.isSome_some]
    · rw [h.others place' other (not_and_or.mp hcell)]
  unfold foundIn
  rw [hsame, hsame, hsame]

/-- A changed name is looked up with its new value, and every other one as before. -/
theorem get?_replace (h : (env.get? name).isSome) (v : Value) (other : String) :
    (env.replace name v).get? other = if other = name then some v else env.get? other := by
  rw [get?_eq_binding?] at h
  obtain ⟨place, hplace⟩ : ∃ place, env.foundIn name = some place :=
    Option.isSome_iff_exists.mp (Option.isSome_of_isSome_bind h)
  have hchanged := changedOnly_replace hplace v
  rw [get?_eq_binding?, get?_eq_binding?, hchanged.foundIn_eq (isSome_of_foundIn hplace)]
  split
  · next hname =>
    rw [hname, hplace]
    exact hchanged.bound
  · next hname =>
    cases env.foundIn other with
    | none => rfl
    | some place' => exact hchanged.others place' other (.inr hname)

/-! ### Calls -/

/-- What is bound in a call is bound in its frame. -/
theorem exists_foldl_set (writes : List (String × Value)) {frame : Scope} {outer : List Scope}
    (h : env.frames = frame :: outer) : ∃ frame',
      writes.foldl (fun env w => env.set w.1 w.2) env = { env with frames := frame' :: outer } := by
  induction writes generalizing env frame with
  | nil => exact ⟨frame, h ▸ rfl⟩
  | cons w writes ih =>
    have hset : env.set w.1 w.2 = { env with frames := frame.insert w.1 w.2 :: outer } := by
      rw [set, h]
    obtain ⟨frame', hframe'⟩ := ih (congrArg frames hset)
    exact ⟨frame', by rw [List.foldl_cons, hframe', hset]⟩

/-- A call that only binds names leaves nothing behind. -/
theorem popFrame_foldl_set (writes : List (String × Value)) (env : Environment) :
    (writes.foldl (fun env w => env.set w.1 w.2) env.pushFrame).popFrame = env := by
  have hpushed : env.pushFrame.frames = [] :: env.frames := rfl
  obtain ⟨frame, hframe⟩ := exists_foldl_set writes hpushed
  rw [hframe]
  rfl

/-- Outside of calls there is no frame to leave. -/
theorem popFrame_of_depth_eq_zero (h : env.depth = 0) : env.popFrame = env := by
  have hframes : env.frames = [] := List.eq_nil_of_length_eq_zero h
  rw [popFrame, hframes, List.tail_nil, ← hframes]

end Environment

end ScriptShell
