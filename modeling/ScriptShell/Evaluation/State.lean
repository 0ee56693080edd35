import ScriptShell.Evaluation.Environment
import ScriptShell.Files.World
import ScriptShell.Value.Fault

/-!
# Runs

A run starts in a state, which is what a session has bound together with the world around it, and
comes to an end with a result or a fault and the state it leaves. A run that is given too little
fuel does not come to an end; a fault is an end like any other. The statements of a block also say
how they leave it.
-/

namespace ScriptShell

/-- What runs read and change. -/
structure State where
  env : Environment
  world : World

/-- What a run comes to. -/
inductive Run (α : Type) where
  | done (result : Except EvalError α) (state : State)
  | unfinished

namespace Run

/-- A run that gives back a value and changes nothing. -/
def value {α : Type} (a : α) (s : State) : Run α := .done (.ok a) s

/-- A run that fails and changes nothing. -/
def fault {α : Type} (e : EvalError) (s : State) : Run α := .done (.error e) s

/-- A run with the given result that changes nothing. -/
def result {α : Type} (r : Except EvalError α) (s : State) : Run α := .done r s

/-- Goes on with a value after a run, unless it failed or did not come to an end. -/
@[inline] def andThen {α β : Type} (r : Run α) (next : α → State → Run β) : Run β :=
  match r with
  | .done (.ok a) s => next a s
  | .done (.error e) s => .done (.error e) s
  | .unfinished => .unfinished

@[simp] theorem andThen_value {α β : Type} (a : α) (s : State) (next : α → State → Run β) :
    (value a s).andThen next = next a s := rfl

/-- A run with the environment it leaves changed. -/
def mapEnv {α : Type} (f : Environment → Environment) : Run α → Run α
  | .done r s => .done r { s with env := f s.env }
  | .unfinished => .unfinished

end Run

/-- How statements end: by running out, or by leaving the loop or function they stand in. -/
inductive Flow where
  | normal
  | leave
  | next
  | giveBack (value : Value)

/-- The departure that is under way, if one is. -/
def Flow.departure? : Flow → Option Departure
  | .normal => none
  | .leave => some .leave
  | .next => some .next
  | .giveBack _ => some .giveBack

/-- Whether no departure is under way. -/
def Flow.isNormal (f : Flow) : Bool := f.departure?.isNone

end ScriptShell
