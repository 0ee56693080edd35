import ScriptShell.Text.Escape
import ScriptShell.Value.Basic

/-!
# The text of values

A value has two texts that differ for strings only: displayed, a string is the text itself, and
shown as an item of a list or dict it is a literal. Every other value shows as it displays. The
items of lists and the entries of dicts are shown between their brackets with a comma and a space
in between.
-/

namespace ScriptShell.Value

/-- A string as a literal. -/
def literalChars (s : String) : List Char :=
  Text.literal (Text.preferredQuote s.toList) s.toList

mutual

/-- A value as it is shown inside lists and dicts. -/
def shownChars : Value → List Char
  | .none => "None".toList
  | .bool b => if b then "True".toList else "False".toList
  | .int n => Integer.text n.toInt
  | .float x => FloatText.valueChars x
  | .str s => literalChars s
  | .list items => '[' :: itemsChars items ++ [']']
  | .dict entries => '\x7b' :: entriesChars entries ++ ['\x7d']
  | .range r => r.text
  | .function _ f => "<function ".toList ++ f.name.toList ++ ['>']
  | .builtin b => "<built-in function ".toList ++ b.name.toList ++ ['>']

/-- Items with commas between them. -/
def itemsChars : List Value → List Char
  | [] => []
  | v :: vs => v.shownChars ++ itemsCharsAfter vs

/-- Items with a comma before each. -/
def itemsCharsAfter : List Value → List Char
  | [] => []
  | v :: vs => ',' :: ' ' :: v.shownChars ++ itemsCharsAfter vs

/-- Entries with commas between them. -/
def entriesChars : List (String × Value) → List Char
  | [] => []
  | (key, v) :: es => literalChars key ++ ':' :: ' ' :: v.shownChars ++ entriesCharsAfter es

/-- Entries with a comma before each. -/
def entriesCharsAfter : List (String × Value) → List Char
  | [] => []
  | (key, v) :: es =>
    ',' :: ' ' :: literalChars key ++ ':' :: ' ' :: v.shownChars ++ entriesCharsAfter es

end

/-- A value as it is shown inside lists and dicts. -/
def shown (v : Value) : String := String.ofList v.shownChars

/-- A value as it is displayed. -/
def display : Value → String
  | .str s => s
  | v => v.shown

end ScriptShell.Value
