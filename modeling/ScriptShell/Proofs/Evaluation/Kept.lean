import Mathlib.Data.List.Forall2
import ScriptShell.Evaluation.Evaluator

/-!
# What evaluation keeps of an environment

Two relations between the environment before a run and the one after it. An expression may change
values of the session only in place: a list keeps its length and a dict its keys, and the frames of
the calls under way stay as they are. Statements may besides bind names in the innermost frame, or
for the session where there is no call under way.
-/

namespace ScriptShell

/-! ### Scopes -/

/-- Inserting an entry leaves the keys there that were, in their order. -/
theorem keys_prefix_insert {α : Type} (key : String) (item : α) (es : Entries α) :
    es.keys <+: (es.insert key item).keys := by
  rw [Entries.keys_insert]
  split
  · exact List.prefix_refl _
  · exact List.prefix_append _ _

/-- A value changed in place: a list keeps its length, a dict keeps its keys in their order and can
gain further ones behind them, and no other value changes. -/
inductive Reshaped : Value → Value → Prop where
  | same (v : Value) : Reshaped v v
  | list {before after : List Value} (length : after.length = before.length) :
      Reshaped (.list before) (.list after)
  | dict {before after : Entries Value} (keys : before.keys <+: after.keys) :
      Reshaped (.dict before) (.dict after)

/-- A value that changes its shape twice has changed it. -/
theorem Reshaped.trans {u v w : Value} (h : Reshaped u v) (h' : Reshaped v w) : Reshaped u w := by
  cases h with
  | same => exact h'
  | list hl =>
    cases h' with
    | same => exact .list hl
    | list hl' => exact .list (hl'.trans hl)
  | dict hk =>
    cases h' with
    | same => exact .dict hk
    | dict hk' => exact .dict (hk.trans hk')

/-- Assigning an item changes a value in place. -/
theorem reshaped_of_withItem {target index item after : Value}
    (h : target.withItem index item = .ok after) : Reshaped target after := by
  unfold Value.withItem at h
  split at h
  · next items =>
    cases hp : Value.position index items.length .listTarget with
    | error e =>
      rw [hp] at h
      cases h
    | ok i =>
      rw [hp] at h
      cases h
      exact .list (List.length_set ..)
  · split at h
    · cases h
      exact .dict (keys_prefix_insert _ _ _)
    · cases h
  · cases h

/-- A scope in which no name is bound or unbound, and values change in place only. -/
def ScopeKept (before after : Scope) : Prop :=
  List.Forall₂ (fun x y => x.1 = y.1 ∧ Reshaped x.2 y.2) before after

namespace ScopeKept

theorem refl (scope : Scope) : ScopeKept scope scope :=
  List.forall₂_same.mpr fun x _ => ⟨rfl, .same x.2⟩

theorem trans {a b c : Scope} (h : ScopeKept a b) (h' : ScopeKept b c) : ScopeKept a c := by
  induction h generalizing c with
  | nil => exact h'
  | cons hx _ ih =>
    cases h' with
    | cons hy hys => exact .cons ⟨hx.1.trans hy.1, hx.2.trans hy.2⟩ (ih hys)

/-- The names stay bound, and no other is. -/
theorem keys_eq {a b : Scope} (h : ScopeKept a b) : b.keys = a.keys := by
  induction h with
  | nil => rfl
  | cons hx _ ih =>
    simp only [Entries.keys, List.map_cons] at ih ⊢
    rw [hx.1, ih]

/-- A scope keeps its names when the value of one of them changes in place. -/
theorem insert {scope : Scope} {name : String} {v w : Value} (hv : scope.find? name = some v)
    (hw : Reshaped v w) : ScopeKept scope (scope.insert name w) := by
  induction scope with
  | nil => cases hv
  | cons x scope ih =>
    obtain ⟨k, u⟩ := x
    by_cases hk : k = name
    · simp only [Entries.find?, Entries.insert, hk, if_true, Option.some.injEq] at hv ⊢
      rw [hv]
      exact .cons ⟨rfl, hw⟩ (refl scope)
    · simp only [Entries.find?, Entries.insert, hk, if_false] at hv ⊢
      exact .cons ⟨rfl, .same u⟩ (ih hv)

/-- Built-in functions do not change in place. -/
theorem eq_of_builtins {a b : Scope} (h : ScopeKept a b)
    (ha : ∀ x ∈ a, ∃ f, x.2 = .builtin f) : b = a := by
  induction h with
  | nil => rfl
  | @cons x y xs ys hx _ ih =>
    obtain ⟨f, hf⟩ := ha x (List.mem_cons_self ..)
    rw [ih fun z hz => ha z (List.mem_cons_of_mem _ hz)]
    obtain ⟨k, v⟩ := x
    obtain ⟨k', v'⟩ := y
    obtain ⟨rfl, hv⟩ := hx
    subst hf
    cases hv
    rfl

end ScopeKept

/-! ### Environments -/

/-- What evaluating an expression keeps: the frames as they are, what the session and the globals
bind apart from changes in place, and a request to end the session. -/
structure Kept (before after : Environment) : Prop where
  frames : after.frames = before.frames
  locals : ScopeKept before.locals after.locals
  globals : ScopeKept before.globals after.globals
  exit : before.exitRequested = true → after.exitRequested = true

/-- What running statements keeps: all frames but the innermost, what the session binds apart from
changes in place if a call is under way, the names it binds in any case, the globals and a request
to end the session. -/
structure KeptOutside (before after : Environment) : Prop where
  depth : after.depth = before.depth
  outer : after.frames.tail = before.frames.tail
  locals : before.frames ≠ [] → ScopeKept before.locals after.locals
  bound : before.locals.keys <+: after.locals.keys
  globals : ScopeKept before.globals after.globals
  exit : before.exitRequested = true → after.exitRequested = true

namespace Kept

theorem refl (env : Environment) : Kept env env := ⟨rfl, .refl _, .refl _, id⟩

theorem trans {a b c : Environment} (h : Kept a b) (h' : Kept b c) : Kept a c :=
  ⟨h'.frames.trans h.frames, h.locals.trans h'.locals, h.globals.trans h'.globals,
    fun he => h'.exit (h.exit he)⟩

/-- What keeps all frames keeps those around the innermost one. -/
theorem outside {a b : Environment} (h : Kept a b) : KeptOutside a b where
  depth := congrArg List.length h.frames
  outer := congrArg List.tail h.frames
  locals _ := h.locals
  bound := h.locals.keys_eq ▸ List.prefix_refl _
  globals := h.globals
  exit := h.exit

/-- Asking for the end of the session keeps all bindings. -/
theorem requestExit (env : Environment) : Kept env env.requestExit :=
  ⟨rfl, .refl _, .refl _, fun _ => rfl⟩

/-- A change in place of what the session or the globals bind a name to. -/
theorem replaceOutside {env : Environment} {name : String} {v w : Value}
    (hv : (env.locals.find? name).or (env.globals.find? name) = some v) (hw : Reshaped v w) :
    Kept env (Environment.replace.replaceOutside name w env) := by
  unfold Environment.replace.replaceOutside
  cases hl : env.locals.find? name with
  | some u =>
    have hhas : env.locals.has name = true := by rw [Entries.has, hl, Option.isSome_some]
    rw [hl, Option.some_or] at hv
    cases hv
    rw [if_pos hhas]
    exact ⟨rfl, .insert hl hw, .refl _, id⟩
  | none =>
    have hhas : ¬env.locals.has name = true := by simp [Entries.has, hl]
    rw [hl, Option.none_or] at hv
    rw [if_neg hhas]
    split
    · exact ⟨rfl, .refl _, .insert hv hw, id⟩
    · exact refl env

end Kept

namespace KeptOutside

theorem refl (env : Environment) : KeptOutside env env := (Kept.refl env).outside

/-- The innermost frame of a call stays there. -/
theorem frames_ne_nil {a b : Environment} (h : KeptOutside a b) (ha : a.frames ≠ []) :
    b.frames ≠ [] := by
  have hdepth := h.depth
  unfold Environment.depth at hdepth
  intro hb
  rw [hb] at hdepth
  exact ha (List.eq_nil_of_length_eq_zero hdepth.symm)

theorem trans {a b c : Environment} (h : KeptOutside a b) (h' : KeptOutside b c) :
    KeptOutside a c where
  depth := h'.depth.trans h.depth
  outer := h'.outer.trans h.outer
  locals ha := (h.locals ha).trans (h'.locals (h.frames_ne_nil ha))
  bound := h.bound.trans h'.bound
  globals := h.globals.trans h'.globals
  exit he := h'.exit (h.exit he)

/-- Counting the functions defined changes no name. -/
theorem nextSerial (env : Environment) : KeptOutside env env.nextSerial.2 :=
  ⟨rfl, rfl, fun _ => .refl _, List.prefix_refl _, .refl _, id⟩

/-- The innermost frame can be any other. -/
theorem innermost {env : Environment} {frame : Scope} {outer : List Scope}
    (hf : env.frames = frame :: outer) (frame' : Scope) :
    KeptOutside env { env with frames := frame' :: outer } := by
  refine ⟨?_, ?_, fun _ => .refl _, List.prefix_refl _, .refl _, id⟩
  · simp only [Environment.depth, hf, List.length_cons]
  · rw [hf, List.tail_cons, List.tail_cons]

/-- A binding is made in the innermost frame, or for the session where no call is under way. -/
theorem set (name : String) (v : Value) (env : Environment) : KeptOutside env (env.set name v) := by
  unfold Environment.set
  split
  · next frame outer hf => exact innermost hf _
  · next hf =>
    exact ⟨rfl, rfl, fun ha => absurd hf ha, keys_prefix_insert name v _, .refl _, id⟩

/-- A change in place of what a name is bound to is made where the name is bound. -/
theorem replace {env : Environment} {name : String} {v w : Value} (hv : env.get? name = some v)
    (hw : Reshaped v w) : KeptOutside env (env.replace name w) := by
  unfold Environment.get? at hv
  unfold Environment.replace
  split
  · next frame outer hf =>
    split
    · exact innermost hf _
    · next hhas =>
      have hnone : frame.find? name = none := by
        simpa only [Entries.has, Option.not_isSome_iff_eq_none] using hhas
      simp only [hf, List.head?_cons, Option.bind_some, hnone, Option.none_or] at hv
      exact (Kept.replaceOutside hv hw).outside
  · next hf =>
    simp only [hf, List.head?_nil, Option.bind_none, Option.none_or] at hv
    exact (Kept.replaceOutside hv hw).outside

/-- After a call its frame is gone, and the frames around it are as they were. -/
theorem popFrame {env after : Environment} {frame : Scope}
    (h : KeptOutside { env with frames := frame :: env.frames } after) :
    Kept env after.popFrame where
  frames := h.outer
  locals := h.locals (List.cons_ne_nil _ _)
  globals := h.globals
  exit := h.exit

end KeptOutside

end ScriptShell
