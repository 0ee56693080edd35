import ScriptShell.Function.Builtin
import ScriptShell.Proofs.Value.Numbers
import ScriptShell.Proofs.Value.Parts

/-!
# Operations on values

What the operators and the built-in functions come to. A class of values that each of them keeps at
the outermost part is kept throughout: values are taken apart and put together, and nothing else is
made of them. None of the operations fails with a departure that is out of place.
-/

namespace ScriptShell

/-- What comes out, if anything does, is of a class. -/
def Gives {α : Type} (A : α → Prop) (r : Except EvalError α) : Prop := ∀ a, r = .ok a → A a

/-- What comes out, if anything does, is of a class, and nothing fails as a syntax error. -/
structure Delivers {α : Type} (A : α → Prop) (r : Except EvalError α) : Prop where
  gives : Gives A r
  fails : ∀ e, r = .error e → e.category ≠ .syntaxError

theorem Gives.ok {α : Type} {A : α → Prop} {a : α} (h : A a) : Gives A (.ok a) := by
  intro b hb
  cases hb
  exact h

theorem Gives.error {α : Type} {A : α → Prop} (e : EvalError) : Gives A (.error e) := by
  intro b hb
  cases hb

namespace Delivers

variable {α β : Type} {A : α → Prop}

theorem ok {a : α} (h : A a) : Delivers A (.ok a) := ⟨.ok h, nofun⟩

theorem error {e : EvalError} (h : e.category ≠ .syntaxError) : Delivers A (.error e) := by
  refine ⟨.error e, fun e' he => ?_⟩
  cases he
  exact h

/-- A choice between two results of a class gives one of the class. -/
theorem ite {condition : Prop} [Decidable condition] {r r' : Except EvalError α}
    (h : Delivers A r) (h' : Delivers A r') : Delivers A (if condition then r else r') := by
  split
  · exact h
  · exact h'

/-- One step after another. -/
theorem bind {B : β → Prop} {r : Except EvalError β} (h : Delivers B r)
    {next : β → Except EvalError α} (hnext : ∀ b, B b → Delivers A (next b)) :
    Delivers A (r >>= next) := by
  cases r with
  | error e => exact error (h.fails e rfl)
  | ok b => exact hnext b (h.gives b rfl)

/-- What is made of a result of a class is of another one. -/
theorem map {B : β → Prop} {r : Except EvalError β} (h : Delivers B r) {f : β → α}
    (hf : ∀ b, B b → A (f b)) : Delivers A (r.map f) := by
  cases r with
  | error e => exact error (h.fails e rfl)
  | ok b => exact ok (hf b (h.gives b rfl))

end Delivers

/-- Nothing fails as a syntax error, whatever comes out. -/
abbrev Succeeds {α : Type} (r : Except EvalError α) : Prop := Delivers (fun _ => True) r

section

variable {Q : Value → Prop}

/-! ### Items -/

/-- The items that are still to come are of a class throughout. -/
def Value.Items.Throughout (Q : Value → Prop) : Value.Items → Prop
  | .values vs => ∀ v ∈ vs, v.Throughout Q
  | .steps _ _ => True

/-- A position that is no index is no syntax error. -/
theorem succeeds_position (index : Value) (length : Nat) (sequence : Sequence) :
    Succeeds (index.position length sequence) := by
  unfold Value.position
  split
  · exact .error nofun
  · exact .ite (.ok trivial) (.error nofun)

namespace Value.Throughout

variable (hQ : Stable Q)
include hQ

/-- The characters of a string and the keys of a dict. -/
theorem of_mem_map_str {α : Type} {xs : List α} {text : α → String} {v : Value}
    (h : v ∈ xs.map fun x => Value.str (text x)) : v.Throughout Q := by
  obtain ⟨x, -, rfl⟩ := List.mem_map.mp h
  exact hQ.str _

/-- What stands in a value at an index is of the class of its parts. -/
theorem item {target : Value} (h : target.Throughout Q) (index : Value) :
    Delivers (Throughout Q) (target.item index) := by
  unfold Value.item
  split
  · next items =>
    refine (succeeds_position ..).bind fun i _ => .ok ?_
    rw [List.getD_eq_getElem?_getD]
    cases hi : items[i]? with
    | none => exact hQ.none
    | some v => exact h.items v (List.mem_of_getElem? hi)
  · refine (succeeds_position ..).bind fun i _ => ?_
    split
    · exact .ok (hQ.int _)
    · exact .error nofun
  · refine (succeeds_position ..).bind fun i _ => ?_
    split
    · exact .ok (hQ.str _)
    · exact .error nofun
  · split
    · split
      · next hfind => exact .ok (h.entries.find? hfind)
      · exact .error nofun
    · exact .error nofun
  · exact .error nofun

/-- A value of a class with one item replaced by another of the class stays of it. -/
theorem withItem {target item : Value} (h : target.Throughout Q) (hitem : item.Throughout Q)
    (index : Value) : Delivers (Throughout Q) (target.withItem index item) := by
  unfold Value.withItem
  split
  · refine (succeeds_position ..).bind fun i _ => .ok (hQ.list fun v hv => ?_)
    rcases List.mem_or_eq_of_mem_set hv with hmem | rfl
    · exact h.items v hmem
    · exact hitem
  · split
    · exact .ok (hQ.insertItem h hitem _)
    · exact .error nofun
  · exact .error nofun

/-- The items that a loop runs over are of the class of the value. -/
theorem iterate {v : Value} (h : v.Throughout Q) : Delivers (Items.Throughout Q) v.iterate := by
  unfold Value.iterate
  split
  · exact .ok h.items
  · exact .ok trivial
  · exact .ok fun v hv => of_mem_map_str hQ hv
  · exact .ok fun v hv => of_mem_map_str hQ hv
  · exact .error nofun

/-- The items that a value is turned into a list of are of its class. -/
theorem collect {v : Value} (h : v.Throughout Q) :
    Delivers (fun items => ∀ item ∈ items, item.Throughout Q) v.collect := by
  unfold Value.collect
  split
  · exact .ok h.items
  · split
    · exact .error nofun
    · refine .ok fun v hv => ?_
      obtain ⟨n, -, rfl⟩ := List.mem_map.mp hv
      exact hQ.int n
  · exact .ok fun v hv => of_mem_map_str hQ hv
  · exact .ok fun v hv => of_mem_map_str hQ hv
  · exact .error nofun

end Value.Throughout

/-- The next item and those after it are among the items. -/
theorem Value.Items.Throughout.next? (hQ : Value.Stable Q) {items others : Value.Items}
    (h : items.Throughout Q) {v : Value} (hnext : items.next? = some (v, others)) :
    v.Throughout Q ∧ others.Throughout Q := by
  unfold Value.Items.next? at hnext
  split at hnext
  · cases hnext
  · cases hnext
    exact List.forall_mem_cons.mp h
  · obtain ⟨n, -, heq⟩ := Option.map_eq_some_iff.mp hnext
    cases heq
    exact ⟨hQ.int n, trivial⟩

/-! ### Comparisons -/

/-- Numbers that are not ordered are no syntax error. -/
theorem succeeds_orderOfNumbers (op : Operator) (a b : Value) :
    Succeeds (Value.orderOfNumbers op a b) := by
  unfold Value.orderOfNumbers
  split
  · exact .ok trivial
  · exact .error nofun

mutual

/-- Values that are not ordered are no syntax error, at any depth of lists. -/
theorem succeeds_order (op : Operator) : ∀ a b : Value, Succeeds (a.order op b)
  | a, b => by
    unfold Value.order
    split
    · exact .ok trivial
    · exact .ok trivial
    · exact succeeds_orderOfItems op _ _
    · exact succeeds_orderOfNumbers op _ _

/-- Items that are not ordered are no syntax error. -/
theorem succeeds_orderOfItems (op : Operator) :
    ∀ xs ys : List Value, Succeeds (Value.orderOfItems op xs ys)
  | [], [] => .ok trivial
  | [], _ :: _ => .ok trivial
  | _ :: _, [] => .ok trivial
  | x :: xs, y :: ys => by
    rw [Value.orderOfItems]
    refine (succeeds_order op x y).bind fun decided _ => ?_
    split
    · exact succeeds_orderOfItems op xs ys
    · exact .ok trivial

end

/-- Values that cannot be compared are no syntax error. -/
theorem succeeds_compare (op : Operator) (a b : Value) : Succeeds (Value.compare op a b) :=
  (succeeds_order op a b).bind fun _ _ => .ok trivial

/-- A value that contains nothing is no syntax error. -/
theorem succeeds_contains (container item : Value) : Succeeds (container.contains item) := by
  unfold Value.contains
  split
  · exact .ok trivial
  · exact .ok trivial
  · split
    · exact .ok trivial
    · exact .error nofun
  · split
    · exact .ok trivial
    · exact .ok trivial
  · exact .error nofun

/-! ### Operators -/

section Operators

variable (hQ : Value.Stable Q)
include hQ

/-- A number is of every class that all operations keep. -/
theorem delivers_of_isNumeric {result : Except EvalError Value} (h : IsNumeric result) :
    Delivers (Value.Throughout Q) result := by
  cases h with
  | int n => exact .ok (hQ.int n)
  | float x => exact .ok (hQ.float x)
  | overflow => exact .error nofun
  | divisionByZero => exact .error nofun
  | operandKinds => exact .error nofun

/-- Arithmetic delivers numbers. -/
theorem delivers_ofNumbers (op : Operator) (a b : Value) :
    Delivers (Value.Throughout Q) (op.ofNumbers a b) :=
  delivers_of_isNumeric hQ (op.isNumeric_ofNumbers a b)

omit hQ in
/-- Too many repetitions are no syntax error. -/
theorem succeeds_repetitions (times : Int64) (length : Nat) :
    Succeeds (repetitions times length) := by
  unfold repetitions
  exact .ite (.ok trivial) (.error nofun)

/-- A repeated text is of every class that all operations keep. -/
theorem delivers_repeatText (times : Int64) (s : String) :
    Delivers (Value.Throughout Q) (repeatText times s) :=
  (succeeds_repetitions ..).bind fun _ _ => .ok (hQ.str _)

/-- A repeated list has the items of the list only. -/
theorem delivers_repeatItems (times : Int64) {items : List Value}
    (h : ∀ v ∈ items, v.Throughout Q) :
    Delivers (Value.Throughout Q) (repeatItems times items) := by
  refine (succeeds_repetitions ..).bind fun count _ => .ok (hQ.list fun v hv => ?_)
  split at hv
  · cases hv
  · obtain ⟨copy, hcopy, hmem⟩ := List.mem_flatten.mp hv
    rw [List.eq_of_mem_replicate hcopy] at hmem
    exact h v hmem

/-- An operator delivers what is of the class of its operands. -/
theorem Value.Throughout.apply {a b : Value} (ha : a.Throughout Q) (hb : b.Throughout Q)
    (op : Operator) : Delivers (Throughout Q) (op.apply a b) := by
  have hcompare : ∀ op, Delivers (Throughout Q) ((Value.compare op a b).map .bool) :=
    fun op => (succeeds_compare op a b).map fun holds _ => hQ.bool holds
  unfold Operator.apply
  split
  · exact .ok (hQ.bool _)
  · exact .ok (hQ.bool _)
  · exact hcompare _
  · exact hcompare _
  · exact hcompare _
  · exact hcompare _
  · exact (succeeds_contains b a).map fun holds _ => hQ.bool holds
  · split
    · exact .ok (hQ.str _)
    · exact .ok (hQ.list (List.forall_mem_append.mpr ⟨ha.items, hb.items⟩))
    · exact delivers_ofNumbers hQ _ _ _
  · split
    · exact delivers_repeatText hQ _ _
    · exact delivers_repeatText hQ _ _
    · exact delivers_repeatItems hQ _ ha.items
    · exact delivers_repeatItems hQ _ hb.items
    · exact delivers_ofNumbers hQ _ _ _
  · exact delivers_ofNumbers hQ _ _ _

/-- A negated number is a number. -/
theorem delivers_negate (v : Value) : Delivers (Value.Throughout Q) v.negate := by
  unfold Value.negate
  split
  · exact .ok (hQ.float _)
  · split
    · exact delivers_of_isNumeric hQ (isNumeric_exactly? _)
    · exact .error nofun

end Operators

/-! ### Arguments of built-in functions -/

namespace Builtin

/-- Too few or too many arguments are no syntax error. -/
theorem succeeds_checkCount (b : Builtin) (least most : Nat) (args : List Value) :
    Succeeds (checkCount b least most args) := by
  unfold checkCount
  split
  · exact .ok trivial
  · exact .error nofun

/-- An argument that is no text is no syntax error. -/
theorem succeeds_textArg (b : Builtin) (v : Value) : Succeeds (textArg b v) := by
  unfold textArg
  split
  · exact .ok trivial
  · exact .error nofun

/-- An argument that is no integer is no syntax error. -/
theorem succeeds_intArg (b : Builtin) (v : Value) : Succeeds (intArg b v) := by
  unfold intArg
  split
  · exact .ok trivial
  · exact .error nofun

/-- An argument that is no path is no syntax error. -/
theorem succeeds_pathArg (b : Builtin) (v : Value) : Succeeds (pathArg b v) := by
  unfold pathArg
  split
  · split
    · exact .ok trivial
    · exact .error nofun
  · exact succeeds_textArg b _

/-- A directory that is no text is no syntax error. -/
theorem succeeds_directoryArg (b : Builtin) (v : Option Value) : Succeeds (directoryArg b v) := by
  unfold directoryArg
  split
  · exact .ok trivial
  · exact .ok trivial
  · exact succeeds_pathArg b _

/-- A bound that is no integer is no syntax error. -/
theorem succeeds_bound (v : Value) : Succeeds (bound v) := by
  unfold bound
  split
  · exact .ok trivial
  · exact .error nofun

/-- Bounds that are no integers are no syntax error. -/
theorem succeeds_bounds (vs : List Value) : Succeeds (vs.mapM bound) := by
  induction vs with
  | nil => exact .ok trivial
  | cons v vs ih =>
    rw [List.mapM_cons]
    exact (succeeds_bound v).bind fun n _ => ih.bind fun ns _ => .ok trivial

/-- A refusal of the file system is no syntax error. -/
theorem succeeds_onPath {α : Type} (action : PathAction) (path : String)
    (result : Except Refusal α) : Succeeds (onPath action path result) := by
  unfold onPath
  split
  · exact .ok trivial
  · exact .error nofun

/-! ### Built-in functions -/

section

variable (hQ : Value.Stable Q)
include hQ

/-- A length is a number. -/
theorem delivers_lengthOf (v : Value) : Delivers (Value.Throughout Q) (lengthOf v) := by
  unfold lengthOf
  split
  all_goals first
    | exact .ok (hQ.int _)
    | exact .error nofun

/-- A conversion to an integer delivers one. -/
theorem delivers_toInt (v : Value) : Delivers (Value.Throughout Q) (toInt v) := by
  unfold toInt
  repeat' split
  all_goals first
    | exact .ok (hQ.int _)
    | exact .error nofun

/-- A conversion to a float delivers one. -/
theorem delivers_toFloat (v : Value) : Delivers (Value.Throughout Q) (toFloat v) := by
  unfold toFloat
  repeat' split
  all_goals first
    | exact .ok (hQ.float _)
    | exact .error nofun

/-- A range is of every class that all operations keep. -/
theorem delivers_progression (ns : List Int64) :
    Delivers (Value.Throughout Q) (progression ns) := by
  unfold progression
  repeat' split
  all_goals first
    | exact .ok (hQ.range _)
    | exact .error nofun

/-- A conversion delivers what is of the class of its arguments. -/
theorem delivers_convert (b : Builtin) {args : List Value} (h : ∀ v ∈ args, v.Throughout Q) :
    Delivers (Value.Throughout Q) (convert b args) := by
  unfold convert
  split
  · exact (succeeds_checkCount ..).bind fun _ _ => delivers_lengthOf hQ _
  · exact (succeeds_checkCount ..).bind fun _ _ => .ok (hQ.str _)
  · refine (succeeds_checkCount ..).bind fun _ _ => ?_
    cases args.head? with
    | none => exact .ok (hQ.int 0)
    | some v => exact delivers_toInt hQ v
  · refine (succeeds_checkCount ..).bind fun _ _ => ?_
    cases args.head? with
    | none => exact .ok (hQ.float 0)
    | some v => exact delivers_toFloat hQ v
  · exact (succeeds_checkCount ..).bind fun _ _ => .ok (hQ.str _)
  · refine (succeeds_checkCount ..).bind fun _ _ => ?_
    cases hhead : args.head? with
    | none => exact .ok (hQ.list nofun)
    | some v =>
      exact ((h v (List.mem_of_head? hhead)).collect hQ).map fun items hitems => hQ.list hitems
  · exact (succeeds_checkCount ..).bind fun _ _ =>
      (succeeds_bounds args).bind fun ns _ => delivers_progression hQ ns
  · exact .ok hQ.none

/-- A time is a text, or there is none. -/
theorem throughout_timeValue (time : Option Int) : (timeValue time).Throughout Q := by
  unfold timeValue
  split
  · exact hQ.str _
  · exact hQ.none

/-- The keys of the entries of a listing are distinct. -/
theorem throughout_entryValue (w : World) (path : String) :
    (entryValue w path).Throughout Q := by
  unfold entryValue
  have hkeys : ["name", "path", "created", "modified", "type"].Nodup := by decide
  refine hQ.ofKeys hkeys fun entry hentry => ?_
  simp only [List.mem_cons, List.not_mem_nil, or_false] at hentry
  rcases hentry with rfl | rfl | rfl | rfl | rfl
  · exact hQ.str _
  · exact hQ.str _
  · exact throughout_timeValue hQ _
  · exact throughout_timeValue hQ _
  · exact hQ.str _

/-- The keys of what a search finds are distinct. -/
theorem throughout_hitValue {name path : Value} (hname : name.Throughout Q)
    (hpath : path.Throughout Q) (line : List Char) (number : Nat) :
    (hitValue name path line number).Throughout Q := by
  unfold hitValue
  have hkeys : ["name", "path", "line_number", "line"].Nodup := by decide
  refine hQ.ofKeys hkeys fun entry hentry => ?_
  simp only [List.mem_cons, List.not_mem_nil, or_false] at hentry
  rcases hentry with rfl | rfl | rfl | rfl
  · exact hname
  · exact hpath
  · exact hQ.int _
  · exact hQ.str _

/-- A hit of a search is a dict of texts and numbers. -/
theorem throughout_hitsIn {w : World} {needle path : String} {v : Value}
    (h : v ∈ hitsIn w needle path) : v.Throughout Q := by
  have hentry : ∀ key, (((entryValue w path).get? key).getD .none).Throughout Q := by
    intro key
    have hdict := throughout_entryValue hQ w path
    unfold entryValue at hdict ⊢
    cases hfind : (Value.dict _).get? key with
    | none => exact hQ.none
    | some v => exact hdict.entries.find? hfind
  unfold hitsIn at h
  split at h
  · cases h
  · obtain ⟨⟨line, number⟩, -, hhit⟩ := List.mem_filterMap.mp h
    dsimp only at hhit
    split at hhit
    · cases hhit
      exact throughout_hitValue hQ (hentry _) (hentry _) _ _
    · cases hhit

omit hQ in
/-- What a function gives back that leaves another world. -/
theorem delivers_leaving {r : Except EvalError (Value × World)}
    (h : Delivers (fun p => p.1.Throughout Q) r) (w : World) :
    Delivers (Value.Throughout Q) (leaving w r).1 := by
  cases r with
  | error e => exact .error (h.fails e rfl)
  | ok p => exact .ok (h.gives p rfl)

/-- Going to a directory delivers nothing. -/
theorem delivers_runGoto (args : List Value) (w : World) :
    Delivers (Value.Throughout Q) (runGoto args w).1 := by
  have hpath : Succeeds (args.head?.elim (.ok ".") (pathArg .goto)) := by
    cases args.head? with
    | none => exact .ok trivial
    | some v => exact succeeds_pathArg .goto v
  unfold runGoto
  split
  · next hcount => exact .error ((succeeds_checkCount ..).fails _ hcount)
  · next hrefused _ => exact .error (hpath.fails _ hrefused)
  · split
    · exact .ok hQ.none
    · exact .error nofun

/-- Copying and moving deliver a text. -/
theorem delivers_runTransfer (b : Builtin) (action : PathAction) (done : String)
    (transfer : World → String → String → Except Refusal Unit × World) (args : List Value)
    (w : World) : Delivers (Value.Throughout Q) (runTransfer b action done transfer args w).1 := by
  unfold runTransfer
  split
  · next hcount => exact .error ((succeeds_checkCount ..).fails _ hcount)
  · next hpath _ => exact .error ((succeeds_pathArg ..).fails _ hpath)
  · next htext _ _ => exact .error ((succeeds_textArg ..).fails _ htext)
  · split
    · exact .ok (hQ.str _)
    · exact .error nofun

/-- Making a directory delivers a text. -/
theorem delivers_runMakeDirectory (args : List Value) (w : World) :
    Delivers (Value.Throughout Q) (runMakeDirectory args w).1 := by
  unfold runMakeDirectory
  split
  · next hcount => exact .error ((succeeds_checkCount ..).fails _ hcount)
  · next htext _ => exact .error ((succeeds_textArg ..).fails _ htext)
  · split
    · exact .error nofun
    · split
      · exact .ok (hQ.str _)
      · exact .error nofun

/-- Deleting delivers a text. -/
theorem delivers_runDelete (args : List Value) (w : World) :
    Delivers (Value.Throughout Q) (runDelete args w).1 := by
  unfold runDelete
  split
  · next hcount => exact .error ((succeeds_checkCount ..).fails _ hcount)
  · next hpath _ => exact .error ((succeeds_pathArg ..).fails _ hpath)
  · split
    · exact .error nofun
    · split
      · exact .ok (hQ.str _)
      · exact .error nofun

/-- A listing is a list of dicts of texts and numbers. -/
theorem delivers_runFiles (args : List Value) (w : World) :
    Delivers (Value.Throughout Q) (runFiles args w) := by
  have hdepth : Succeeds (args[2]?.elim (.ok 0) fun v =>
      (intArg .files v).map fun n => n.toInt.toNat) := by
    cases args[2]? with
    | none => exact .ok trivial
    | some v => exact (succeeds_intArg ..).map fun _ _ => trivial
  refine (succeeds_checkCount ..).bind fun _ _ => (succeeds_directoryArg ..).bind fun path _ =>
    hdepth.bind fun depth _ => (succeeds_onPath ..).bind fun paths _ => .ok (hQ.list fun v hv => ?_)
  obtain ⟨path, -, rfl⟩ := List.mem_map.mp hv
  exact throughout_entryValue hQ w path

/-- The hits of a search are a list of such dicts. -/
theorem delivers_runSearch (args : List Value) (w : World) :
    Delivers (Value.Throughout Q) (runSearch args w) := by
  refine (succeeds_checkCount ..).bind fun _ _ => (succeeds_textArg ..).bind fun needle _ =>
    (succeeds_directoryArg ..).bind fun path _ => (succeeds_onPath ..).bind fun paths _ =>
      .ok (hQ.list fun v hv => ?_)
  obtain ⟨path, -, hhit⟩ := List.mem_flatMap.mp hv
  exact throughout_hitsIn hQ hhit

/-- Whatever a builtin does to files, it delivers values of every class that all operations keep. -/
theorem delivers_accessFiles (b : Builtin) (args : List Value) (w : World) :
    Delivers (Value.Throughout Q) (accessFiles b args w).1 := by
  unfold accessFiles
  split
  · refine (succeeds_checkCount ..).bind fun _ _ => ?_
    split
    · exact .ok (hQ.str _)
    · exact .error nofun
  · exact delivers_runGoto hQ args w
  · exact delivers_runFiles hQ args w
  · exact (succeeds_checkCount ..).bind fun _ _ => (succeeds_pathArg ..).bind fun _ _ =>
      (succeeds_onPath ..).bind fun _ _ => .ok (hQ.str _)
  · exact delivers_leaving ((succeeds_checkCount ..).bind fun _ _ =>
      (succeeds_textArg ..).bind fun _ _ => (succeeds_onPath ..).bind fun _ _ => .ok (hQ.str _)) w
  · exact delivers_runMakeDirectory hQ args w
  · exact delivers_runTransfer hQ ..
  · exact delivers_runTransfer hQ ..
  · exact delivers_runDelete hQ args w
  · exact delivers_runSearch hQ args w
  · exact .ok hQ.none

/-- What a program wrote is delivered as a text. -/
theorem delivers_runCommand (command : String) (w : World) :
    Delivers (Value.Throughout Q) (runCommand command w).1 := by
  unfold runCommand
  cases Piece.textsOfLine command with
  | nil => exact .error nofun
  | cons name args =>
    dsimp only
    generalize w.runProgram (name :: args) true = answer
    obtain ⟨r | result, w⟩ := answer
    · refine .error ?_
      cases r.isNotFound <;> nofun
    · exact .ok (hQ.str _)

/-- An argument that is run as a command delivers what the program wrote. -/
theorem delivers_runProgram (args : List Value) (w : World) :
    Delivers (Value.Throughout Q) (runProgram args w).1 := by
  unfold runProgram
  cases hcount : checkCount .run 1 1 args with
  | error e => exact .error ((succeeds_checkCount ..).fails e hcount)
  | ok =>
    cases htext : textArg .run (args.headD .none) with
    | error e => exact .error ((succeeds_textArg ..).fails e htext)
    | ok command => exact delivers_runCommand hQ command w

/-- What a built-in function gives back is of the class of its arguments. -/
theorem delivers_call (b : Builtin) {args : List Value} (h : ∀ v ∈ args, v.Throughout Q)
    (w : World) : Delivers (Value.Throughout Q) (b.call args w).1 := by
  unfold call
  split
  · exact .ok hQ.none
  · unfold runClear
    split
    · exact .ok hQ.none
    · next hcount => exact .error ((succeeds_checkCount ..).fails _ hcount)
  · exact delivers_runProgram hQ args w
  · exact delivers_convert hQ .len h
  · exact delivers_convert hQ .str h
  · exact delivers_convert hQ .int h
  · exact delivers_convert hQ .float h
  · exact delivers_convert hQ .type h
  · exact delivers_convert hQ .list h
  · exact delivers_convert hQ .range h
  · exact .ok hQ.none
  · exact .ok hQ.none
  · exact delivers_accessFiles hQ b args w

end

end Builtin

end

end ScriptShell
