import ScriptShell.Proofs.Value.Operations

/-!
# Functions inside values

Values are taken apart, put together and handed to built-in functions, and none of this makes a
function: where all functions that stand anywhere in the values at hand are of one class, so are
those in what comes out.
-/

namespace ScriptShell

/-- All functions that a script defined and that stand in a value, at any depth of lists and dicts,
are of a class. -/
inductive Value.HoldsOnly (P : Function → Prop) : Value → Prop where
  | none : HoldsOnly P .none
  | bool (b : Bool) : HoldsOnly P (.bool b)
  | int (n : Int64) : HoldsOnly P (.int n)
  | float (x : Float) : HoldsOnly P (.float x)
  | str (s : String) : HoldsOnly P (.str s)
  | list {items : List Value} (parts : ∀ v ∈ items, HoldsOnly P v) : HoldsOnly P (.list items)
  | dict {entries : Entries Value} (parts : ∀ entry ∈ entries, HoldsOnly P entry.2) :
      HoldsOnly P (.dict entries)
  | range (r : Progression) : HoldsOnly P (.range r)
  | function (serial : Nat) {f : Function} : P f → HoldsOnly P (.function serial f)
  | builtin (b : Builtin) : HoldsOnly P (.builtin b)

/-- All functions in the values of a scope or dict are of a class. -/
def Entries.HoldOnly (P : Function → Prop) (es : Entries Value) : Prop :=
  ∀ entry ∈ es, entry.2.HoldsOnly P

/-- All functions in the values that an environment binds are of a class. -/
structure Environment.HoldsOnly (P : Function → Prop) (env : Environment) : Prop where
  globals : Entries.HoldOnly P env.globals
  locals : Entries.HoldOnly P env.locals
  frames : ∀ frame ∈ env.frames, Entries.HoldOnly P frame

/-! ### Functions as parts -/

/-- If a value is a function that a script defined, it is of a class. -/
def Value.IsOf (P : Function → Prop) (v : Value) : Prop := ∀ serial f, v = .function serial f → P f

section

variable {P : Function → Prop}

/-- The class of values that hold functions of a kind only is kept by all operations. -/
theorem Value.stable_isOf : Stable (IsOf P) where
  plain v _ hkind := by
    rintro serial f rfl
    exact absurd rfl hkind
  dict _ _ := nofun
  insert _ _ _ _ := nofun

/-- What holds functions of a kind only does so throughout. -/
theorem Value.HoldsOnly.throughout {v : Value} (h : v.HoldsOnly P) : v.Throughout (IsOf P) := by
  induction h with
  | none | bool | int | float | str | range | builtin => exact .intro nofun nofun
  | list _ ih => exact stable_isOf.list ih
  | dict _ ih =>
    refine .intro nofun fun part hpart => ?_
    obtain ⟨entry, hentry, rfl⟩ := List.mem_map.mp hpart
    exact ih entry hentry
  | function serial hf =>
    refine .intro (fun _ _ heq => ?_) nofun
    cases heq
    exact hf

/-- What is a function of the kind wherever it is one holds no other. -/
theorem Value.Throughout.holdsOnly {v : Value} (h : v.Throughout (IsOf P)) : v.HoldsOnly P := by
  induction h with
  | @intro v here _ ih =>
    cases v with
    | none => exact .none
    | bool b => exact .bool b
    | int n => exact .int n
    | float x => exact .float x
    | str s => exact .str s
    | list items => exact .list ih
    | dict es => exact .dict fun entry hentry => ih entry.2 (List.mem_map_of_mem hentry)
    | range r => exact .range r
    | function serial f => exact .function serial (here serial f rfl)
    | builtin b => exact .builtin b

/-- Holding functions of a kind only is a class throughout. -/
theorem Value.holdsOnly_eq : HoldsOnly P = Throughout (IsOf P) :=
  funext fun _ => propext ⟨HoldsOnly.throughout, Throughout.holdsOnly⟩

/-- The same for the values of a scope or dict. -/
theorem Entries.holdOnly_eq : Entries.HoldOnly P = Entries.Throughout (Value.IsOf P) := by
  unfold Entries.HoldOnly Entries.Throughout
  rw [Value.holdsOnly_eq]

/-- The same for what an environment binds. -/
theorem Environment.holdsOnly_iff {env : Environment} :
    env.HoldsOnly P ↔ env.Throughout (Value.IsOf P) := by
  constructor
  · rintro ⟨globals, locals, frames⟩
    rw [Entries.holdOnly_eq] at globals locals frames
    exact ⟨globals, locals, frames⟩
  · rintro ⟨globals, locals, frames⟩
    rw [← Entries.holdOnly_eq] at globals locals frames
    exact ⟨globals, locals, frames⟩

/-! ### Scopes and environments -/

/-- A dict with another such item holds functions of the kind only. -/
theorem Entries.HoldOnly.insert {es : Entries Value} (h : es.HoldOnly P) {v : Value}
    (hv : v.HoldsOnly P) (key : String) : (es.insert key v).HoldOnly P := by
  rw [Entries.holdOnly_eq] at h ⊢
  exact h.insert hv.throughout key

namespace Environment.HoldsOnly

variable {env : Environment} (h : env.HoldsOnly P)
include h

/-- What a name is bound to holds functions of the kind only. -/
theorem get? {name : String} {v : Value} (hv : env.get? name = some v) : v.HoldsOnly P :=
  ((holdsOnly_iff.mp h).get? hv).holdsOnly

/-- Binding such a value keeps the environment to functions of the kind. -/
theorem set (name : String) {v : Value} (hv : v.HoldsOnly P) : (env.set name v).HoldsOnly P :=
  holdsOnly_iff.mpr ((holdsOnly_iff.mp h).set name hv.throughout)

/-- Binding such a value anew keeps the environment to functions of the kind. -/
theorem replace (name : String) {v : Value} (hv : v.HoldsOnly P) :
    (env.replace name v).HoldsOnly P :=
  holdsOnly_iff.mpr ((holdsOnly_iff.mp h).replace name hv.throughout)

theorem pushFrame : env.pushFrame.HoldsOnly P := holdsOnly_iff.mpr (holdsOnly_iff.mp h).pushFrame

theorem popFrame : env.popFrame.HoldsOnly P := holdsOnly_iff.mpr (holdsOnly_iff.mp h).popFrame

theorem requestExit : env.requestExit.HoldsOnly P :=
  holdsOnly_iff.mpr (holdsOnly_iff.mp h).requestExit

theorem nextSerial : env.nextSerial.2.HoldsOnly P :=
  holdsOnly_iff.mpr (holdsOnly_iff.mp h).nextSerial

end Environment.HoldsOnly

/-! ### Operations -/

/-- All functions in the items that are still to come are of a class. -/
def Value.Items.HoldOnly (P : Function → Prop) : Value.Items → Prop
  | .values vs => ∀ v ∈ vs, v.HoldsOnly P
  | .steps _ _ => True

/-- The same for items that are still to come. -/
theorem Value.Items.holdOnly_eq : Items.HoldOnly P = Items.Throughout (IsOf P) := by
  funext items
  cases items with
  | values vs => simp only [HoldOnly, Items.Throughout, Value.holdsOnly_eq]
  | steps r i => rfl

/-- The next item holds functions of the kind only, and so do those after it. -/
theorem Value.Items.HoldOnly.next? {items others : Value.Items} (h : items.HoldOnly P) {v : Value}
    (hnext : items.next? = some (v, others)) : v.HoldsOnly P ∧ others.HoldOnly P := by
  rw [holdOnly_eq, Value.holdsOnly_eq] at *
  exact Items.Throughout.next? stable_isOf h hnext

namespace Value.HoldsOnly

/-- An item of such a value is such a value. -/
theorem item {target : Value} (h : target.HoldsOnly P) (index : Value) :
    Gives (HoldsOnly P) (target.item index) := by
  rw [holdsOnly_eq] at *
  exact (Throughout.item stable_isOf h index).gives

/-- Replacing an item by such a value makes such a value. -/
theorem withItem {target item : Value} (h : target.HoldsOnly P) (hitem : item.HoldsOnly P)
    (index : Value) : Gives (HoldsOnly P) (target.withItem index item) := by
  rw [holdsOnly_eq] at *
  exact (Throughout.withItem stable_isOf h hitem index).gives

/-- A loop over such a value runs over such values. -/
theorem iterate {v : Value} (h : v.HoldsOnly P) : Gives (Items.HoldOnly P) v.iterate := by
  rw [Items.holdOnly_eq]
  exact (h.throughout.iterate stable_isOf).gives

/-- An operator makes such a value of such values. -/
theorem apply {a b : Value} (ha : a.HoldsOnly P) (hb : b.HoldsOnly P) (op : Operator) :
    Gives (HoldsOnly P) (op.apply a b) := by
  rw [holdsOnly_eq] at *
  exact (Throughout.apply stable_isOf ha hb op).gives

end Value.HoldsOnly

/-- A negated number holds no function. -/
theorem holdsOnly_negate (v : Value) : Gives (Value.HoldsOnly P) v.negate := by
  rw [Value.holdsOnly_eq]
  exact (delivers_negate Value.stable_isOf v).gives

/-- A built-in function gives back only functions that stand in its arguments. -/
theorem Builtin.holdsOnly_call (b : Builtin) {args : List Value} (h : ∀ v ∈ args, v.HoldsOnly P)
    (w : World) : Gives (Value.HoldsOnly P) (b.call args w).1 := by
  rw [Value.holdsOnly_eq] at *
  exact (delivers_call Value.stable_isOf b h w).gives

end

end ScriptShell
