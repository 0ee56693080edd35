import ScriptShell.Value.Basic

/-!
# Environments

The names that a session has bound. Built-in functions are global, what the user binds at the
prompt is local to the session, and every call of a defined function has a frame of its own. A name
is looked up in the innermost frame, then among the locals, then among the globals, so a function
sees the session but not its caller. A binding goes to the innermost frame, or to the locals when
there is none.
-/

namespace ScriptShell

/-- The variables of one scope. -/
abbrev Scope := Entries Value

/-- The names that are bound, the innermost frame first, with what a session has to remember
besides: whether it is to end, and how many functions it has defined. -/
structure Environment where
  globals : Scope
  locals : Scope
  frames : List Scope
  exitRequested : Bool
  defined : Nat

namespace Environment

/-- An environment that binds nothing. -/
def empty : Environment := ⟨[], [], [], false, 0⟩

/-- Binds a global name. -/
def setGlobal (name : String) (v : Value) (env : Environment) : Environment :=
  { env with globals := env.globals.insert name v }

/-- An environment that binds the built-in functions. -/
def withBuiltins : Environment :=
  Builtin.all.foldl (fun env b => env.setGlobal b.name (.builtin b)) empty

/-- Binds a name in the innermost frame, or for the session. -/
def set (name : String) (v : Value) (env : Environment) : Environment :=
  match env.frames with
  | frame :: outer => { env with frames := frame.insert name v :: outer }
  | [] => { env with locals := env.locals.insert name v }

/-- What a name is bound to. -/
def get? (name : String) (env : Environment) : Option Value :=
  let inFrame := env.frames.head?.bind (Entries.find? name)
  inFrame.or ((env.locals.find? name).or (env.globals.find? name))

/-- Whether a name is bound. -/
def binds (name : String) (env : Environment) : Bool := (env.get? name).isSome

/-- Changes what a bound name is bound to, where it is bound. -/
def replace (name : String) (v : Value) (env : Environment) : Environment :=
  match env.frames with
  | frame :: outer =>
    if frame.has name then { env with frames := frame.insert name v :: outer }
    else replaceOutside env
  | [] => replaceOutside env
where
  /-- Changes a binding outside the frames. -/
  replaceOutside (env : Environment) : Environment :=
    if env.locals.has name then { env with locals := env.locals.insert name v }
    else if env.globals.has name then { env with globals := env.globals.insert name v }
    else env

/-- Enters a call. -/
def pushFrame (env : Environment) : Environment := { env with frames := [] :: env.frames }

/-- Leaves the innermost call, if there is one. -/
def popFrame (env : Environment) : Environment := { env with frames := env.frames.tail }

/-- The number of calls that are under way. -/
def depth (env : Environment) : Nat := env.frames.length

/-- Asks for the session to end. -/
def requestExit (env : Environment) : Environment := { env with exitRequested := true }

/-- A serial number for the next function to be defined. -/
def nextSerial (env : Environment) : Nat × Environment :=
  (env.defined, { env with defined := env.defined + 1 })

theorem depth_set (name : String) (v : Value) (env : Environment) :
    (env.set name v).depth = env.depth := by
  unfold set depth
  split
  · next hframes => rw [hframes]; rfl
  · rfl

/-- A change outside the frames leaves the frames. -/
theorem frames_replaceOutside (name : String) (v : Value) (env : Environment) :
    (replace.replaceOutside name v env).frames = env.frames := by
  unfold replace.replaceOutside
  split
  · rfl
  · split <;> rfl

theorem depth_replace (name : String) (v : Value) (env : Environment) :
    (env.replace name v).depth = env.depth := by
  have houtside := congrArg List.length (frames_replaceOutside name v env)
  unfold replace depth
  split
  · next hframes =>
    split
    · rw [hframes]; rfl
    · exact houtside
  · exact houtside

end Environment

end ScriptShell
