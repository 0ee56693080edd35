import ScriptShell.Evaluation.Environment

/-!
# Parts of values

A class of values that is told by the outermost part of each carries over to all parts, at any depth
of lists and dicts, and from there to what an environment binds. Binding a name, looking it up and
calling a function keep the class throughout.
-/

namespace ScriptShell

/-- The values that stand in a value: the items of a list and those of a dict. -/
def Value.parts : Value → List Value
  | .list items => items
  | .dict entries => entries.map Prod.snd
  | _ => []

/-- A value is of a class, and so is all that stands in it, at any depth of lists and dicts. -/
inductive Value.Throughout (Q : Value → Prop) : Value → Prop where
  | intro {v : Value} (here : Q v) (inside : ∀ part ∈ v.parts, Throughout Q part) : Throughout Q v

/-- A class that all operations keep: what is neither a dict nor a function is of it, and so are
the dicts whose keys are distinct and those that are got from a dict of it by inserting an item. -/
structure Value.Stable (Q : Value → Prop) : Prop where
  plain : ∀ v : Value, v.kind ≠ .dict → v.kind ≠ .function → Q v
  dict : ∀ es : Entries Value, es.keys.Nodup → Q (.dict es)
  insert : ∀ (es : Entries Value) key v, Q (.dict es) → Q (.dict (es.insert key v))

/-- The values of a scope or dict are of a class throughout. -/
def Entries.Throughout (Q : Value → Prop) (es : Entries Value) : Prop :=
  ∀ entry ∈ es, entry.2.Throughout Q

/-- The values that an environment binds are of a class throughout. -/
structure Environment.Throughout (Q : Value → Prop) (env : Environment) : Prop where
  globals : Entries.Throughout Q env.globals
  locals : Entries.Throughout Q env.locals
  frames : ∀ frame ∈ env.frames, Entries.Throughout Q frame

section

variable {Q : Value → Prop}

/-! ### Putting values together -/

/-- A value that is of a class throughout is of it. -/
theorem Value.Throughout.here {v : Value} (h : v.Throughout Q) : Q v := by
  cases h with
  | intro here _ => exact here

/-- So are the items of a list. -/
theorem Value.Throughout.items {items : List Value} (h : (Value.list items).Throughout Q) :
    ∀ v ∈ items, v.Throughout Q := by
  cases h with
  | intro _ inside => exact inside

/-- So are the values of a dict. -/
theorem Value.Throughout.entries {es : Entries Value} (h : (Value.dict es).Throughout Q) :
    es.Throughout Q := by
  cases h with
  | intro _ inside => exact fun entry hentry => inside entry.2 (List.mem_map_of_mem hentry)

namespace Value.Stable

variable (hQ : Stable Q)
include hQ

theorem none : Value.none.Throughout Q := .intro (hQ.plain _ nofun nofun) nofun

theorem bool (b : Bool) : (Value.bool b).Throughout Q := .intro (hQ.plain _ nofun nofun) nofun

theorem int (n : Int64) : (Value.int n).Throughout Q := .intro (hQ.plain _ nofun nofun) nofun

theorem float (x : Float) : (Value.float x).Throughout Q := .intro (hQ.plain _ nofun nofun) nofun

theorem str (s : String) : (Value.str s).Throughout Q := .intro (hQ.plain _ nofun nofun) nofun

theorem range (r : Progression) : (Value.range r).Throughout Q :=
  .intro (hQ.plain _ nofun nofun) nofun

theorem builtin (b : Builtin) : (Value.builtin b).Throughout Q :=
  .intro (hQ.plain _ nofun nofun) nofun

/-- A list is of a class throughout if its items are. -/
theorem list {items : List Value} (h : ∀ v ∈ items, v.Throughout Q) :
    (Value.list items).Throughout Q := .intro (hQ.plain _ nofun nofun) h

/-- A dict with distinct keys is of a class throughout if its values are. -/
theorem ofKeys {es : Entries Value} (hkeys : es.keys.Nodup) (h : es.Throughout Q) :
    (Value.dict es).Throughout Q := by
  refine .intro (hQ.dict es hkeys) fun part hpart => ?_
  obtain ⟨entry, hentry, rfl⟩ := List.mem_map.mp hpart
  exact h entry hentry

end Value.Stable

/-! ### Scopes and environments -/

namespace Entries.Throughout

/-- What a dict holds at a key is of the class. -/
theorem find? {es : Entries Value} (h : es.Throughout Q) {key : String} {v : Value}
    (hv : es.find? key = some v) : v.Throughout Q := by
  induction es with
  | nil => cases hv
  | cons e es ih =>
    obtain ⟨k, a⟩ := e
    obtain ⟨ha, hes⟩ := List.forall_mem_cons.mp h
    unfold Entries.find? at hv
    split at hv
    · cases hv
      exact ha
    · exact ih hes hv

/-- A dict with another item of the class stays of it. -/
theorem insert {es : Entries Value} (h : es.Throughout Q) {v : Value} (hv : v.Throughout Q)
    (key : String) : (es.insert key v).Throughout Q := by
  intro entry hentry
  rcases Entries.mem_insert hentry with hmem | heq
  · exact h entry hmem
  · rw [heq]
    exact hv

end Entries.Throughout

/-- A dict with another item. -/
theorem Value.Stable.insertItem (hQ : Value.Stable Q) {es : Entries Value}
    (h : (Value.dict es).Throughout Q) {v : Value} (hv : v.Throughout Q) (key : String) :
    (Value.dict (es.insert key v)).Throughout Q := by
  refine .intro (hQ.insert es key v h.here) fun part hpart => ?_
  obtain ⟨entry, hentry, rfl⟩ := List.mem_map.mp hpart
  exact h.entries.insert hv key entry hentry

namespace Environment.Throughout

variable {env : Environment}

/-- What a name is bound to is of the class. -/
theorem get? (h : env.Throughout Q) {name : String} {v : Value} (hv : env.get? name = some v) :
    v.Throughout Q := by
  unfold Environment.get? at hv
  rcases Option.or_eq_some_iff.mp hv with hframe | ⟨-, hv⟩
  · obtain ⟨frame, hhead, hfind⟩ := Option.bind_eq_some_iff.mp hframe
    exact (h.frames frame (List.mem_of_head? hhead)).find? hfind
  · rcases Option.or_eq_some_iff.mp hv with hlocal | ⟨-, hglobal⟩
    · exact h.locals.find? hlocal
    · exact h.globals.find? hglobal

/-- The innermost frame can be any other of which this holds. -/
theorem innermost (h : env.Throughout Q) {frame : Scope} {outer : List Scope}
    (hframes : env.frames = frame :: outer) {frame' : Scope}
    (hframe : Entries.Throughout Q frame') :
    Environment.Throughout Q { env with frames := frame' :: outer } := by
  have hall := h.frames
  rw [hframes] at hall
  exact ⟨h.globals, h.locals,
    List.forall_mem_cons.mpr ⟨hframe, (List.forall_mem_cons.mp hall).2⟩⟩

/-- A name bound to a value of the class leaves the environment of it. -/
theorem set (h : env.Throughout Q) (name : String) {v : Value} (hv : v.Throughout Q) :
    (env.set name v).Throughout Q := by
  unfold Environment.set
  split
  · next frame outer hframes =>
    have hframe := h.frames frame (hframes ▸ List.mem_cons_self ..)
    exact h.innermost hframes (hframe.insert hv name)
  · exact ⟨h.globals, h.locals.insert hv name, h.frames⟩

/-- A name bound anew to a value of the class leaves the environment of it. -/
theorem replace (h : env.Throughout Q) (name : String) {v : Value} (hv : v.Throughout Q) :
    (env.replace name v).Throughout Q := by
  have houtside : (Environment.replace.replaceOutside name v env).Throughout Q := by
    unfold Environment.replace.replaceOutside
    split
    · exact ⟨h.globals, h.locals.insert hv name, h.frames⟩
    · split
      · exact ⟨h.globals.insert hv name, h.locals, h.frames⟩
      · exact h
  unfold Environment.replace
  split
  · next frame outer hframes =>
    split
    · have hframe := h.frames frame (hframes ▸ List.mem_cons_self ..)
      exact h.innermost hframes (hframe.insert hv name)
    · exact houtside
  · exact houtside

/-- A new frame binds nothing. -/
theorem pushFrame (h : env.Throughout Q) : env.pushFrame.Throughout Q :=
  ⟨h.globals, h.locals, List.forall_mem_cons.mpr ⟨nofun, h.frames⟩⟩

/-- The frames that are left are of the class. -/
theorem popFrame (h : env.Throughout Q) : env.popFrame.Throughout Q :=
  ⟨h.globals, h.locals, fun frame hframe => h.frames frame (List.mem_of_mem_tail hframe)⟩

/-- Asking for the end of the session binds nothing. -/
theorem requestExit (h : env.Throughout Q) : env.requestExit.Throughout Q :=
  ⟨h.globals, h.locals, h.frames⟩

/-- A number for a definition binds nothing. -/
theorem nextSerial (h : env.Throughout Q) : env.nextSerial.2.Throughout Q :=
  ⟨h.globals, h.locals, h.frames⟩

/-- A global name bound to a value of the class leaves the environment of it. -/
theorem setGlobal (h : env.Throughout Q) (name : String) {v : Value} (hv : v.Throughout Q) :
    (env.setGlobal name v).Throughout Q := ⟨h.globals.insert hv name, h.locals, h.frames⟩

end Environment.Throughout

/-- At the start of a session only built-in functions are bound. -/
theorem Value.Stable.withBuiltins (hQ : Value.Stable Q) :
    Environment.withBuiltins.Throughout Q := by
  have hempty : Environment.empty.Throughout Q := ⟨nofun, nofun, nofun⟩
  have hall : ∀ (bs : List Builtin) (env : Environment), env.Throughout Q →
      (bs.foldl (fun env b => env.setGlobal b.name (.builtin b)) env).Throughout Q := by
    intro bs
    induction bs with
    | nil => exact fun env h => h
    | cons b bs ih => exact fun env h => ih _ (h.setGlobal b.name (hQ.builtin b))
  exact hall Builtin.all _ hempty

end

end ScriptShell
