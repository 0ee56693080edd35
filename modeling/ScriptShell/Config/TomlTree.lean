/-!
# Trees of TOML

A document is a table of keys and values. While it is read, each table remembers how it came to be,
for that decides what may still be added to it: a table implied by the header of a table inside it
can still be declared, one written with dotted keys can take further dotted keys, and one that is
declared or written inline is closed to dotted keys from elsewhere.
-/

namespace ScriptShell

/-- How a table came to be. -/
inductive TableForm where
  | implied | dotted | declared | inline
  deriving DecidableEq, Repr

/-- A value of a document. Numbers and times are not told apart, as no setting is one, but for the
numbers that are too great to be held. -/
inductive Toml where
  | text (value : String)
  | boolean (value : Bool)
  | other
  | tooGreat
  | list (items : List Toml)
  | table (form : TableForm) (entries : List (String × Toml))
  | tables (items : List Toml)

namespace Toml

/-- The value under a key of a table. -/
def lookup (key : String) : List (String × Toml) → Option Toml
  | [] => none
  | (k, v) :: es => if k = key then some v else lookup key es

/-- Puts a value under a key, in place of the one there or at the end. -/
def putEntry (key : String) (value : Toml) : List (String × Toml) → List (String × Toml)
  | [] => [(key, value)]
  | (k, v) :: es => if k = key then (k, value) :: es else (k, v) :: putEntry key value es

/-- The table that a value is entered as: itself, or the last of several tables. -/
def entered? : Toml → Option (TableForm × List (String × Toml))
  | .table form es => some (form, es)
  | .tables items =>
    match items.getLast? with
    | some (.table form es) => some (form, es)
    | _ => none
  | _ => none

/-- A value with another table in place of the one that it is entered as. -/
def reentered (table : Toml) : Toml → Toml
  | .tables items => .tables (items.dropLast ++ [table])
  | _ => table

/-- Whether keys lead on through a value. Those of a header lead through every table that is not
inline, and `dotted` keys only through those that no header declares. -/
def isOpen (dotted : Bool) : Toml → Bool
  | .table .declared _ => !dotted
  | .table .inline _ => false
  | .table _ _ | .tables _ => true
  | _ => false

/-- Changes the table that some keys lead to, tables on the way being made with a form. -/
def changeAt (dotted : Bool) (change : TableForm → List (String × Toml) → Option Toml) :
    List String → Toml → Option Toml
  | [], t => do
    let (form, es) ← entered? t
    return reentered (← change form es) t
  | key :: keys, t => do
    let (form, es) ← entered? t
    let child := (lookup key es).getD (.table (if dotted then .dotted else .implied) [])
    if isOpen dotted child then
      return reentered (.table form (putEntry key (← changeAt dotted change keys child) es)) t
    else none

/-- Adds a value under a key that is not there. -/
def addNew (key : String) (value : Toml) (form : TableForm) (es : List (String × Toml)) :
    Option Toml :=
  match lookup key es with
  | none => some (.table form (putEntry key value es))
  | some _ => none

/-- Adds a value under dotted keys to a table. Where several keys lead to its place, that place is
in a table written with dotted keys. -/
def addDotted (keys : List String) (value : Toml) (t : Toml) : Option Toml :=
  match keys.getLast? with
  | none => none
  | some last =>
    let add := fun form es =>
      if 1 < keys.length && form != .dotted then none else addNew last value form es
    changeAt true add keys.dropLast t

/-- Declares the table under a key: it must not be there, or be implied only. -/
def declare (key : String) (form : TableForm) (es : List (String × Toml)) : Option Toml :=
  match lookup key es with
  | none => some (.table form (putEntry key (.table .declared []) es))
  | some (.table .implied inner) => some (.table form (putEntry key (.table .declared inner) es))
  | some _ => none

/-- Declares a further table of those under a key. -/
def declareNext (key : String) (form : TableForm) (es : List (String × Toml)) : Option Toml :=
  match lookup key es with
  | none => some (.table form (putEntry key (.tables [.table .declared []]) es))
  | some (.tables items) =>
    some (.table form (putEntry key (.tables (items ++ [.table .declared []])) es))
  | some _ => none

mutual

/-- Whether every number in a value can be held. -/
def isHeld : Toml → Bool
  | .tooGreat => false
  | .list items => allHeld items
  | .tables items => allHeld items
  | .table _ es => entriesHeld es
  | _ => true

/-- Whether every number in some values can be held. -/
def allHeld : List Toml → Bool
  | [] => true
  | v :: vs => isHeld v && allHeld vs

/-- Whether every number in some entries can be held. -/
def entriesHeld : List (String × Toml) → Bool
  | [] => true
  | (_, v) :: es => isHeld v && entriesHeld es

end

end Toml

end ScriptShell
