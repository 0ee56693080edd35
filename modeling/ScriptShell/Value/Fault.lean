import ScriptShell.Value.Text

/-!
# Faults of evaluation

Why an expression has no value or a statement no effect. Every fault has a category and a message,
and the message is determined by what went wrong.
-/

namespace ScriptShell

/-- The kinds of sequence that have items in places. -/
inductive Sequence where
  | list | string | range | listTarget
  deriving DecidableEq, Repr

/-- A sequence as messages name it. -/
def Sequence.name : Sequence → String
  | .list => "list"
  | .string => "string"
  | .range => "range object"
  | .listTarget => "list assignment"

/-- The statements that leave a loop or function. -/
inductive Departure where
  | leave | next | giveBack
  deriving DecidableEq, Repr

/-- The word of a departure. -/
def Departure.word : Departure → String
  | .leave => "break"
  | .next => "continue"
  | .giveBack => "return"

/-- What a departure has to stand in. -/
def Departure.place : Departure → String
  | .giveBack => "function"
  | _ => "loop"

/-- The categories of faults. -/
inductive Category where
  | name | type | value | zeroDivision | index | key | overflow | system | recursion | memory
  | syntaxError
  deriving DecidableEq, Repr

/-- A category as it is shown. -/
def Category.text : Category → String
  | .name => "NameError"
  | .type => "TypeError"
  | .value => "ValueError"
  | .zeroDivision => "ZeroDivisionError"
  | .index => "IndexError"
  | .key => "KeyError"
  | .overflow => "OverflowError"
  | .system => "OSError"
  | .recursion => "RecursionError"
  | .memory => "MemoryError"
  | .syntaxError => "SyntaxError"

/-- What is done to a path. -/
inductive PathAction where
  | enter | list | read | create | copy | move | delete
  deriving DecidableEq, Repr

/-- A path action as messages name it. -/
def PathAction.text : PathAction → String
  | .enter => "cannot enter"
  | .list => "cannot list"
  | .read => "cannot read"
  | .create => "cannot create"
  | .copy => "cannot copy"
  | .move => "cannot move"
  | .delete => "cannot delete"

/-- A fault of evaluation. -/
inductive EvalError where
  /-- A name is bound nowhere. -/
  | unboundName (name : String)
  /-- A key of a dict is no string. -/
  | keyKind (kind : Kind)
  /-- What is called is no function. -/
  | notCallable (kind : Kind)
  /-- A defined function is called with the wrong number of arguments. -/
  | argumentCount (name : String) (expected given : Nat)
  /-- A built-in function is called with the wrong number of arguments. -/
  | builtinArgumentCount (name : String) (least most given : Nat)
  /-- A value cannot be threaded through functions when there is none. -/
  | nothingToPipe
  /-- An argument of a built-in function has another type than `expected`. -/
  | argumentKind (name : String) (expected : Kind) (kind : Kind)
  /-- An argument is no number and spells none. -/
  | notNumeric (name : String) (kind : Kind)
  /-- A bound of a progression is no integer. -/
  | notAnInteger (kind : Kind)
  /-- An operator does not apply to operands of these types. -/
  | operandKinds (op : Operator) (left right : Kind)
  /-- Values of these types have no order. -/
  | unordered (op : Operator) (left right : Kind)
  /-- A value has no negative. -/
  | negatedKind (kind : Kind)
  /-- The place of an item is no integer. -/
  | indexKind (sequence : Sequence) (kind : Kind)
  /-- A value has no items to index. -/
  | notSubscriptable (kind : Kind)
  /-- A value has no items to assign. -/
  | notAssignable (kind : Kind)
  /-- A value has no items to go through. -/
  | notIterable (kind : Kind)
  /-- Nothing can be in a value. -/
  | notAContainer (kind : Kind)
  /-- What is looked for in a string is no string. -/
  | notAString (kind : Kind)
  /-- A value has no length. -/
  | noLength (kind : Kind)
  /-- A text spells no integer. -/
  | notAnIntegerText (text : String)
  /-- A text spells no floating-point number. -/
  | notAFloatText (text : String)
  /-- No integer is near a floating-point number. -/
  | notFinite (value : Float)
  /-- A progression has no steps of size zero. -/
  | zeroStep
  /-- No command is given. -/
  | noCommand
  | divisionByZero
  /-- A place lies outside a sequence. -/
  | outOfRange (sequence : Sequence)
  /-- A dict has no entry under a key. -/
  | missingKey (key : Value)
  /-- The exact result is no integer of the language. -/
  | integerOverflow
  /-- The system refuses what is done to a path. -/
  | path (action : PathAction) (path : String) (reason : String)
  /-- The system refuses something. -/
  | refused (reason : String)
  /-- A program is not there. -/
  | noProgram (name : String)
  /-- Calls are nested too deep. -/
  | tooDeep
  /-- A repetition is too long. -/
  | repetitionTooLong (length : Nat) (times : Int64)
  /-- A progression is too long to be made a list. -/
  | rangeTooLong (range : Progression)
  /-- A loop or function is left where there is none. -/
  | misplaced (departure : Departure)

namespace EvalError

/-- The category of a fault. -/
def category : EvalError → Category
  | .unboundName _ => .name
  | .keyKind _ | .notCallable _ | .argumentCount .. | .builtinArgumentCount .. | .nothingToPipe
  | .argumentKind .. | .notNumeric .. | .notAnInteger _ | .operandKinds .. | .unordered ..
  | .negatedKind _ | .indexKind .. | .notSubscriptable _ | .notAssignable _ | .notIterable _
  | .notAContainer _ | .notAString _ | .noLength _ => .type
  | .notAnIntegerText _ | .notAFloatText _ | .notFinite _ | .zeroStep | .noCommand => .value
  | .divisionByZero => .zeroDivision
  | .outOfRange _ => .index
  | .missingKey _ => .key
  | .integerOverflow => .overflow
  | .path .. | .refused _ | .noProgram _ => .system
  | .tooDeep => .recursion
  | .repetitionTooLong .. | .rangeTooLong _ => .memory
  | .misplaced _ => .syntaxError

/-- A text between single quotes. -/
def quoted (s : String) : String := "'" ++ s ++ "'"

/-- A type between single quotes. -/
def quotedKind (k : Kind) : String := quoted k.name

/-- A number in decimal digits. -/
def decimal (n : Nat) : String := String.ofList (Integer.naturalDigits n)

/-- The ending of a noun that is counted. -/
def plural (n : Nat) : String := if n = 1 then "" else "s"

/-- The numbers of arguments that a built-in function takes. -/
def countRange (least most : Nat) : String :=
  if least = most then decimal least else decimal least ++ " to " ++ decimal most

/-- The message of a fault. -/
def message : EvalError → String
  | .unboundName name => "name " ++ quoted name ++ " is not defined"
  | .keyKind k => "dict keys must be str, not " ++ quotedKind k
  | .notCallable k => quotedKind k ++ " object is not callable"
  | .argumentCount name expected given =>
    name ++ "() takes " ++ decimal expected ++ " positional argument" ++ plural expected ++
      " but " ++ decimal given ++ (if given = 1 then " was given" else " were given")
  | .builtinArgumentCount name least most given =>
    name ++ "() takes " ++ countRange least most ++ " argument" ++ plural most ++
      " (" ++ decimal given ++ " given)"
  | .nothingToPipe => "pipe() takes at least 1 argument (0 given)"
  | .argumentKind name expected k =>
    name ++ "() expected " ++ expected.name ++ ", got " ++ quotedKind k
  | .notNumeric name k =>
    name ++ "() argument must be a string or a number, not " ++ quotedKind k
  | .notAnInteger k => quotedKind k ++ " object cannot be interpreted as an integer"
  | .operandKinds op l r =>
    "unsupported operand type(s) for " ++ op.text ++ ": " ++ quotedKind l ++ " and " ++
      quotedKind r
  | .unordered op l r =>
    quoted op.text ++ " not supported between instances of " ++ quotedKind l ++ " and " ++
      quotedKind r
  | .negatedKind k => "bad operand type for unary -: " ++ quotedKind k
  | .indexKind s k => s.name ++ " indices must be integers, not " ++ quotedKind k
  | .notSubscriptable k => quotedKind k ++ " object is not subscriptable"
  | .notAssignable k => quotedKind k ++ " object does not support item assignment"
  | .notIterable k => quotedKind k ++ " object is not iterable"
  | .notAContainer k => "argument of type " ++ quotedKind k ++ " is not iterable"
  | .notAString k => "'in <string>' requires string as left operand, not " ++ k.name
  | .noLength k => "object of type " ++ quotedKind k ++ " has no len()"
  | .notAnIntegerText s =>
    "invalid literal for int() with base 10: " ++ Text.shownLiteral s
  | .notAFloatText s => "could not convert string to float: " ++ Text.shownLiteral s
  | .notFinite x => "cannot convert float " ++ FloatText.value x ++ " to integer"
  | .zeroStep => "range() arg 3 must not be zero"
  | .noCommand => "run() needs a command"
  | .divisionByZero => "division by zero"
  | .outOfRange s => s.name ++ " index out of range"
  | .missingKey key => key.shown
  | .integerOverflow => "integer overflow"
  | .path action p reason => action.text ++ " " ++ quoted p ++ ": " ++ reason
  | .refused reason => reason
  | .noProgram name => "No such file or directory: " ++ quoted name
  | .tooDeep => "maximum recursion depth exceeded"
  | .repetitionTooLong length times =>
    "cannot build a sequence of " ++ decimal length ++ " x " ++ Integer.render times ++ " items"
  | .rangeTooLong r => String.ofList r.text ++ " has too many items to build a list"
  | .misplaced d => quoted d.word ++ " outside " ++ d.place

end EvalError

end ScriptShell
