import ScriptShell.Text.Blank
import ScriptShell.Value.Equality
import ScriptShell.Value.Fault

/-!
# Items of values

Lists, strings, progressions and dicts hold items: they can be indexed, gone through and searched.
An index below zero counts from the end. Going through a value takes its items one by one from a
snapshot; a progression computes each item when it is asked for, so that only turning it into a
list needs a limit on its length.
-/

namespace ScriptShell

/-- The greatest length of a list or string that one step may build. -/
def greatestLength : Nat := 1 <<< 24

namespace Value

/-- The position in a sequence that an index denotes. -/
def position (index : Value) (length : Nat) (sequence : Sequence) : Except EvalError Nat :=
  match index.asInt? with
  | Option.none => .error (.indexKind sequence index.kind)
  | some i =>
    let length : Int := min length (Integer.bound - 1)
    let place := if i < 0 then i.toInt + length else i.toInt
    if 0 ≤ place ∧ place < length then .ok place.toNat else .error (.outOfRange sequence)

/-- The item of a value at an index. -/
def item (target index : Value) : Except EvalError Value :=
  match target with
  | .list items => do
    let i ← position index items.length .list
    return items.getD i .none
  | .range r => do
    let i ← position index r.length .range
    match r.get? i with
    | some n => return .int n
    | Option.none => .error (.outOfRange .range)
  | .str s => do
    let cs := s.toList
    let i ← position index cs.length .string
    match cs[i]? with
    | some c => return .str (String.ofList [c])
    | Option.none => .error (.outOfRange .string)
  | .dict entries =>
    match index with
    | .str key =>
      match Entries.find? key entries with
      | some v => .ok v
      | Option.none => .error (.missingKey index)
    | _ => .error (.missingKey index)
  | other => .error (.notSubscriptable other.kind)

/-- A value with another item at an index. -/
def withItem (target index item : Value) : Except EvalError Value :=
  match target with
  | .list items => do
    let i ← position index items.length .listTarget
    return .list (items.set i item)
  | .dict entries =>
    match index with
    | .str key => .ok (.dict (Entries.insert key item entries))
    | other => .error (.keyKind other.kind)
  | other => .error (.notAssignable other.kind)

/-- The items of a value that are still to come. -/
inductive Items where
  | values (items : List Value)
  | steps (r : Progression) (next : Nat)

/-- The next item and what comes after it. -/
def Items.next? : Items → Option (Value × Items)
  | .values [] => Option.none
  | .values (v :: vs) => some (v, .values vs)
  | .steps r i => (r.get? i).map fun n => (.int n, .steps r (i + 1))

/-- The items of a value, if it has any notion of them: of a dict they are its keys. -/
def iterate : Value → Except EvalError Items
  | .list items => .ok (.values items)
  | .range r => .ok (.steps r 0)
  | .str s => .ok (.values (s.toList.map fun c => .str (String.ofList [c])))
  | .dict entries => .ok (.values (entries.map fun e => .str e.1))
  | other => .error (.notIterable other.kind)

/-- The items of a value as a list. -/
def collect : Value → Except EvalError (List Value)
  | .list items => .ok items
  | .range r =>
    if greatestLength < r.length then .error (.rangeTooLong r) else .ok (r.items.map .int)
  | .str s => .ok (s.toList.map fun c => .str (String.ofList [c]))
  | .dict entries => .ok (entries.map fun e => .str e.1)
  | other => .error (.notIterable other.kind)

/-- Whether a number is an item of a progression. A floating-point number is one when it is whole
and the nearest integer to it is one. -/
def isStep (r : Progression) : Value → Bool
  | .float x =>
    if Binary64.isWhole x then ((Binary64.truncate? x).map Integer.clamp).any r.contains else false
  | v => v.asInt?.any r.contains

/-- Whether an item is in a value. -/
def contains (container item : Value) : Except EvalError Bool :=
  match container with
  | .list items => .ok (items.any fun v => v.equals item)
  | .range r => .ok (isStep r item)
  | .str s =>
    match item with
    | .str t => .ok (s.contains t)
    | other => .error (.notAString other.kind)
  | .dict entries =>
    match item with
    | .str key => .ok (Entries.has key entries)
    | _ => .ok false
  | other => .error (.notAContainer other.kind)

end Value

end ScriptShell
