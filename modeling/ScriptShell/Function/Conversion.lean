import ScriptShell.Function.Arguments
import ScriptShell.Value.Items

/-!
# Functions that convert and measure

The built-in functions that only look at their arguments: lengths, conversions between texts and
numbers, names of types, lists and progressions.
-/

namespace ScriptShell.Builtin

/-- The length of a value. -/
def lengthOf : Value → Except EvalError Value
  | .str s => .ok (.int (Integer.clamp s.length))
  | .list items => .ok (.int (Integer.clamp items.length))
  | .dict entries => .ok (.int (Integer.clamp entries.length))
  | .range r => .ok (.int (Integer.clamp r.length))
  | v => .error (.noLength v.kind)

/-- The integer that a value is converted to: a floating-point number loses its fraction and is
moved into the range of integers. -/
def toInt : Value → Except EvalError Value
  | .float x =>
    match Binary64.truncate? x with
    | some n => .ok (.int (Integer.clamp n))
    | none => .error (.notFinite x)
  | .str s =>
    match Integer.parse? (Text.trim s.toList) with
    | some n => .ok (.int n)
    | none => .error (.notAnIntegerText s)
  | v =>
    match v.asInt? with
    | some n => .ok (.int n)
    | none => .error (.notNumeric Builtin.int.name v.kind)

/-- The floating-point number that a value is converted to. -/
def toFloat : Value → Except EvalError Value
  | .str s =>
    match FloatText.parse? (Text.trim s.toList) with
    | some x => .ok (.float x)
    | none => .error (.notAFloatText s)
  | v =>
    match v.asFloat? with
    | some x => .ok (.float x)
    | none => .error (.notNumeric Builtin.float.name v.kind)

/-- A bound or step of a progression. -/
def bound (v : Value) : Except EvalError Int64 :=
  match v.asInt? with
  | some n => .ok n
  | none => .error (.notAnInteger v.kind)

/-- The progression with the given bounds and step. -/
def progression : List Int64 → Except EvalError Value
  | start :: stop :: step :: _ =>
    match Progression.of? start stop step with
    | some r => .ok (.range r)
    | none => .error .zeroStep
  | [start, stop] => .ok (.range ⟨start, stop, 1, by decide⟩)
  | [stop] => .ok (.range ⟨0, stop, 1, by decide⟩)
  | [] => .ok (.range ⟨0, 0, 1, by decide⟩)

/-- What a function that only looks at its arguments gives back; other functions give back
nothing. -/
def convert (b : Builtin) (args : List Value) : Except EvalError Value := do
  match b with
  | .len =>
    checkCount b 1 1 args
    lengthOf (args.headD .none)
  | .str =>
    checkCount b 0 1 args
    return .str ((args.head?.map Value.display).getD "")
  | .int =>
    checkCount b 0 1 args
    args.head?.elim (.ok (.int 0)) toInt
  | .float =>
    checkCount b 0 1 args
    args.head?.elim (.ok (.float 0)) toFloat
  | .type =>
    checkCount b 1 1 args
    return .str (args.headD .none).kind.name
  | .list =>
    checkCount b 0 1 args
    args.head?.elim (.ok (.list [])) fun v => (Value.collect v).map .list
  | .range =>
    checkCount b 1 3 args
    progression (← args.mapM bound)
  | _ => return .none

end ScriptShell.Builtin
