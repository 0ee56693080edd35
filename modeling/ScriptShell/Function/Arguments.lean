import ScriptShell.Value.Fault

/-!
# Arguments of built-in functions

How many arguments a built-in function takes, and what it takes for a string, an integer or a path.
A path can be given as a dict that has it as an entry, as listings of directories do.
-/

namespace ScriptShell.Builtin

/-- Refuses a number of arguments outside of the given bounds. -/
def checkCount (b : Builtin) (least most : Nat) (args : List Value) : Except EvalError Unit :=
  if least ≤ args.length ∧ args.length ≤ most then .ok ()
  else .error (.builtinArgumentCount b.name least most args.length)

/-- An argument that has to be a string. -/
def textArg (b : Builtin) : Value → Except EvalError String
  | .str s => .ok s
  | v => .error (.argumentKind b.name .str v.kind)

/-- An argument that has to be an integer. -/
def intArg (b : Builtin) (v : Value) : Except EvalError Int64 :=
  match v.asInt? with
  | some n => .ok n
  | none => .error (.argumentKind b.name .int v.kind)

/-- An argument that has to be a path. -/
def pathArg (b : Builtin) : Value → Except EvalError String
  | .dict entries =>
    match Entries.find? "path" entries with
    | some (.str path) => .ok path
    | _ => .error (.missingKey (.str "path"))
  | v => textArg b v

/-- A path argument that stands for the working directory when it is missing or nothing. -/
def directoryArg (b : Builtin) : Option Value → Except EvalError String
  | none | some .none => .ok "."
  | some v => pathArg b v

end ScriptShell.Builtin
