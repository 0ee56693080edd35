import ScriptShell.Number.FloatText
import ScriptShell.Script.Tree
import ScriptShell.Value.Entries
import ScriptShell.Value.Progression

/-!
# Values

What expressions evaluate to: nothing, truth values, numbers, strings, lists, dicts with string
keys, progressions, and functions, which are either defined by a script or built in. A defined
function carries a serial number, and two of them are one function exactly when their serial
numbers agree.
-/

namespace ScriptShell

/-- The functions that are there from the start. -/
inductive Builtin where
  | print | len | str | int | float | type | list | range | pipe | clear | exit
  | cwd | goto | files | read | makeFile | makeDirectory | copy | move | delete | search | run
  deriving DecidableEq, Repr

/-- The name of a built-in function. -/
def Builtin.name : Builtin → String
  | .print => "print"
  | .len => "len"
  | .str => "str"
  | .int => "int"
  | .float => "float"
  | .type => "type"
  | .list => "list"
  | .range => "range"
  | .pipe => "pipe"
  | .clear => "clear"
  | .exit => "exit"
  | .cwd => "cwd"
  | .goto => "goto"
  | .files => "files"
  | .read => "read"
  | .makeFile => "make_file"
  | .makeDirectory => "make_directory"
  | .copy => "copy"
  | .move => "move"
  | .delete => "delete"
  | .search => "search"
  | .run => "run"

/-- Every built-in function. -/
def Builtin.all : List Builtin :=
  [.print, .len, .str, .int, .float, .type, .list, .range, .pipe, .clear, .exit, .cwd, .goto,
    .files, .read, .makeFile, .makeDirectory, .copy, .move, .delete, .search, .run]

/-- A function that a script defines. -/
structure Function where
  name : String
  params : List String
  body : List Stmt

/-- A value. -/
inductive Value where
  | none
  | bool (value : Bool)
  | int (value : Int64)
  | float (value : Float)
  | str (text : String)
  | list (items : List Value)
  | dict (entries : List (String × Value))
  | range (items : Progression)
  | function (serial : Nat) (definition : Function)
  | builtin (function : Builtin)

instance : Inhabited Value := ⟨.none⟩

/-- The types of values. -/
inductive Kind where
  | none | bool | int | float | str | list | dict | range | function | builtin
  deriving DecidableEq, Repr

/-- The name of a type. -/
def Kind.name : Kind → String
  | .none => "NoneType"
  | .bool => "bool"
  | .int => "int"
  | .float => "float"
  | .str => "str"
  | .list => "list"
  | .dict => "dict"
  | .range => "range"
  | .function => "function"
  | .builtin => "builtin_function"

namespace Value

/-- The type of a value. -/
def kind : Value → Kind
  | .none => .none
  | .bool _ => .bool
  | .int _ => .int
  | .float _ => .float
  | .str _ => .str
  | .list _ => .list
  | .dict _ => .dict
  | .range _ => .range
  | .function _ _ => .function
  | .builtin _ => .builtin

/-- Whether a condition with this value holds: nothing, zero and what is empty do not. -/
def isTruthy : Value → Bool
  | .none => false
  | .bool b => b
  | .int n => n != 0
  | .float x => x != 0
  | .str s => !s.isEmpty
  | .list items => !items.isEmpty
  | .dict entries => !entries.isEmpty
  | .range r => !r.isEmpty
  | .function _ _ | .builtin _ => true

/-- Whether a value is nothing. -/
def isNone : Value → Bool
  | .none => true
  | _ => false

/-- The integer that a value stands for; truth values count as zero and one. -/
def asInt? : Value → Option Int64
  | .int n => some n
  | .bool b => some (if b then 1 else 0)
  | _ => Option.none

/-- The floating-point number that a value stands for. -/
def asFloat? : Value → Option Float
  | .int n => some n.toFloat
  | .float x => some x
  | .bool b => some (if b then 1 else 0)
  | _ => Option.none

/-- The item of a dict under a key. -/
def get? (key : String) : Value → Option Value
  | .dict entries => Entries.find? key entries
  | _ => Option.none

end Value

end ScriptShell
