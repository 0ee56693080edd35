import ScriptShell.Config.TomlTree
import ScriptShell.Number.FloatText

/-!
# Reading TOML

A document is read line by line: headers of tables, keys with values, comments and blanks. Every
function here takes characters from the front and gives back what it read with the rest, or nothing
where the characters are none of what it reads. Recursion is bounded by twice the number of
characters, as no more than two steps read the same character, and brackets and dotted keys nest at
most eighty deep.
-/

namespace ScriptShell.TomlText

/-- Reads something from the front of a text. -/
abbrev Read (α : Type) := List Char → Option (α × List Char)

/-- Whether a character may stand in a comment or a literal string. -/
def isAllowed (c : Char) : Bool := c == '\t' || (0x20 ≤ c.toNat && c.toNat != 0x7F)

/-- Drops spaces and tabs. -/
def dropBlanks (cs : List Char) : List Char := cs.dropWhile fun c => c == ' ' || c == '\t'

/-- Reads the end of a line. -/
def lineEnd? : List Char → Option (List Char)
  | '\n' :: cs => some cs
  | '\r' :: '\n' :: cs => some cs
  | _ => none

/-- Drops a comment; its characters must be allowed. -/
def dropComment : List Char → Option (List Char)
  | '#' :: cs =>
    let body := cs.takeWhile fun c => c != '\n' && c != '\r'
    if body.all isAllowed then some (cs.drop body.length) else none
  | cs => some cs

/-- Drops blanks, comments and ends of lines; inside a comment, what is left of it comes first. -/
def gap (inComment : Bool) : List Char → Option (List Char)
  | [] => some []
  | '\n' :: cs => gap false cs
  | '\r' :: '\n' :: cs => gap false cs
  | c :: cs =>
    if inComment then if isAllowed c then gap true cs else none
    else if c == ' ' || c == '\t' then gap false cs
    else if c == '#' then gap true cs
    else some (c :: cs)

/-- Drops blanks, comments and ends of lines. -/
def dropGap (cs : List Char) : Option (List Char) := gap false cs

/-- The value of a digit of base sixteen. -/
def hexValue? (c : Char) : Option Nat :=
  if c.isDigit then some (c.toNat - '0'.toNat)
  else if 'a' ≤ c ∧ c ≤ 'f' then some (c.toNat - 'a'.toNat + 10)
  else if 'A' ≤ c ∧ c ≤ 'F' then some (c.toNat - 'A'.toNat + 10)
  else none

/-- Reads a character given by its number in `count` digits of base sixteen. -/
def numbered (count : Nat) : Read Char := fun cs => do
  let digits := cs.take count
  if digits.length < count then none
  else
    let values ← digits.mapM hexValue?
    let n := Digits.number 16 values
    if n.isValidChar then some (Char.ofNat n, cs.drop count) else none

/-- Reads the rest of an escape after its backslash. -/
def escape : Read Char
  | 'b' :: cs => some ('\x08', cs)
  | 't' :: cs => some ('\t', cs)
  | 'n' :: cs => some ('\n', cs)
  | 'f' :: cs => some ('\x0c', cs)
  | 'r' :: cs => some ('\r', cs)
  | 'e' :: cs => some ('\x1b', cs)
  | '"' :: cs => some ('"', cs)
  | '\\' :: cs => some ('\\', cs)
  | 'x' :: cs => numbered 2 cs
  | 'u' :: cs => numbered 4 cs
  | 'U' :: cs => numbered 8 cs
  | _ => none

/-- Reads the rest of a string on one line after its opening quote. -/
def basic : Nat → Read (List Char)
  | 0, _ => none
  | _ + 1, '"' :: cs => some ([], cs)
  | fuel + 1, '\\' :: cs => do
    let (c, cs) ← escape cs
    let (text, cs) ← basic fuel cs
    some (c :: text, cs)
  | fuel + 1, c :: cs =>
    if isAllowed c then (basic fuel cs).map fun (text, cs) => (c :: text, cs) else none
  | _, [] => none

/-- Reads the rest of a literal string on one line after its opening quote. -/
def literal : Read (List Char) := fun cs =>
  let body := cs.takeWhile (· != '\'')
  match cs.drop body.length with
  | '\'' :: rest => if body.all isAllowed then some (body, rest) else none
  | _ => none

/-- Drops the blanks and ends of lines that a backslash at the end of a line removes. -/
def dropFolded : List Char → List Char
  | [] => []
  | '\r' :: '\n' :: cs => dropFolded cs
  | c :: cs => if c == ' ' || c == '\t' || c == '\n' then dropFolded cs else c :: cs

/-- Whether only blanks are left on a line. -/
def endsHere (cs : List Char) : Bool := (lineEnd? (dropBlanks cs)).isSome

/-- The end of a string of several lines at three quotes: up to two quotes before the last three
belong to the string. -/
def closing? (quote : Char) (cs : List Char) : Option (List Char × List Char) :=
  let quotes := (cs.takeWhile (· == quote)).length
  if 3 ≤ quotes ∧ quotes ≤ 5 then some (List.replicate (quotes - 3) quote, cs.drop quotes)
  else none

/-- Reads the rest of a string of several lines after its opening quotes. -/
def several (quote : Char) (escapes : Bool) : Nat → Read (List Char)
  | 0, _ => none
  | _, [] => none
  | fuel + 1, c :: cs =>
    if c = quote ∧ 3 ≤ ((c :: cs).takeWhile (· == quote)).length then closing? quote (c :: cs)
    else if escapes && c == '\\' then
      if endsHere cs then several quote escapes fuel (dropFolded cs)
      else do
        let (c, cs) ← escape cs
        let (text, cs) ← several quote escapes fuel cs
        some (c :: text, cs)
    else if isAllowed c || (lineEnd? (c :: cs)).isSome then
      (several quote escapes fuel cs).map fun (text, cs) => (c :: text, cs)
    else none

/-- A text without the end of a line at its start. -/
def withoutFirstBreak (cs : List Char) : List Char := (lineEnd? cs).getD cs

/-- Reads a string. -/
def string (fuel : Nat) : Read String := fun cs => do
  let (text, rest) ← match cs with
    | '"' :: '"' :: '"' :: cs => several '"' true fuel (withoutFirstBreak cs)
    | '\'' :: '\'' :: '\'' :: cs => several '\'' false fuel (withoutFirstBreak cs)
    | '"' :: cs => basic fuel cs
    | '\'' :: cs => literal cs
    | _ => none
  some (String.ofList text, rest)

/-- Whether a character can stand in a key without quotes. -/
def isBareKey (c : Char) : Bool := c.isAlphanum || c == '_' || c == '-'

/-- Reads a key without dots. -/
def simpleKey (fuel : Nat) : Read String := fun cs =>
  match cs with
  | '"' :: rest => (basic fuel rest).map fun (text, cs) => (String.ofList text, cs)
  | '\'' :: rest => (literal rest).map fun (text, cs) => (String.ofList text, cs)
  | cs =>
    let bare := cs.takeWhile isBareKey
    if bare.isEmpty then none else some (String.ofList bare, cs.drop bare.length)

/-- The number of keys with dots between them, and of brackets inside each other. -/
def nestingLimit : Nat := 80

/-- Reads keys with dots between them, at most a number of them. -/
def keys (fuel : Nat) : Nat → Read (List String)
  | 0, _ => none
  | count + 1, cs => do
    let (first, cs) ← simpleKey fuel (dropBlanks cs)
    match dropBlanks cs with
    | '.' :: cs =>
      let (others, cs) ← keys fuel count cs
      some (first :: others, cs)
    | cs => some ([first], cs)

/-- Reads a key, which may be dotted. -/
def key (fuel : Nat) : Read (List String) := keys fuel nestingLimit

/-- Whether a text is digits of a class with single underscores between them. -/
def isDigits (isDigit : Char → Bool) : List Char → Bool
  | [] => false
  | [c] => isDigit c
  | c :: '_' :: cs => isDigit c && isDigits isDigit cs
  | c :: cs => isDigit c && isDigits isDigit cs

/-- A text without a sign at its start. -/
def unsigned : List Char → List Char
  | '+' :: cs => cs
  | '-' :: cs => cs
  | cs => cs

/-- A text without its underscores. -/
def withoutUnderscores (cs : List Char) : List Char := cs.filter (· != '_')

/-- Whether a text is decimal digits without a zero in front of others. -/
def isWhole (cs : List Char) : Bool :=
  isDigits Char.isDigit cs && (cs.head? != some '0' || cs.length == 1)

/-- The number that digits of a base spell. -/
def digitsValue (base : Nat) (cs : List Char) : Nat :=
  Digits.number base ((withoutUnderscores cs).map fun c => (hexValue? c).getD 0)

/-- The integer that a text is, if it is one. -/
def integer? (cs : List Char) : Option Int :=
  let ofBase := fun base isDigit cs =>
    if isDigits isDigit cs then some (digitsValue base cs : Int) else none
  match cs with
  | '0' :: 'x' :: cs => ofBase 16 (fun c => (hexValue? c).isSome) cs
  | '0' :: 'o' :: cs => ofBase 8 (fun c => '0' ≤ c && c ≤ '7') cs
  | '0' :: 'b' :: cs => ofBase 2 (fun c => c == '0' || c == '1') cs
  | '-' :: cs => if isWhole cs then some (-(digitsValue 10 cs : Int)) else none
  | cs => if isWhole (unsigned cs) then some (digitsValue 10 (unsigned cs)) else none

/-- Whether an integer can be held: in 128 bits, with a sign or without. -/
def isHeldInteger (n : Int) : Bool := -(1 <<< 127 : Nat) ≤ n && n < (1 <<< 128 : Nat)

/-- Whether a text is empty or an exponent. -/
def isExponent : List Char → Bool
  | [] => true
  | c :: cs => (c == 'e' || c == 'E') && isDigits Char.isDigit (unsigned cs)

/-- Whether a text is a number with a fraction or exponent, or the name of one. -/
def isFloat (cs : List Char) : Bool :=
  let cs := unsigned cs
  let isWholePart := fun c : Char => c.isDigit || c == '_'
  let whole := cs.takeWhile isWholePart
  let rest := cs.drop whole.length
  if cs == ['i', 'n', 'f'] || cs == ['n', 'a', 'n'] then true
  else if !isWhole whole then false
  else
    match rest with
    | '.' :: rest =>
      let fraction := rest.takeWhile isWholePart
      isDigits Char.isDigit fraction && isExponent (rest.drop fraction.length)
    | [] => false
    | rest => isExponent rest

/-- Whether a number with a fraction or exponent can be held: it is called infinite, or is not
rounded to an infinity. -/
def isHeldFloat (cs : List Char) : Bool :=
  match FloatText.parse? (withoutUnderscores cs) with
  | none => false
  | some x => unsigned cs == ['i', 'n', 'f'] || Binary64.parts x == .nan || Binary64.isFinite x

/-- Reads a number of exactly `count` decimal digits. -/
def fixed (count : Nat) : Read Nat := fun cs =>
  if count ≤ cs.length then
    (Integer.naturalOfDigits? (cs.take count)).map fun n => (n, cs.drop count)
  else none

/-- Drops a character. -/
def drop (c : Char) : List Char → Option (List Char)
  | [] => none
  | d :: cs => if c = d then some cs else none

/-- The number of days of a month. -/
def daysIn (year month : Nat) : Nat :=
  if month == 2 then
    if (year % 4 == 0 && year % 100 != 0) || year % 400 == 0 then 29 else 28
  else if month == 4 || month == 6 || month == 9 || month == 11 then 30
  else 31

/-- Drops a day of the calendar. -/
def dropDate (cs : List Char) : Option (List Char) := do
  let (year, cs) ← fixed 4 cs
  let (month, cs) ← fixed 2 (← drop '-' cs)
  let (day, cs) ← fixed 2 (← drop '-' cs)
  if 1 ≤ month ∧ month ≤ 12 ∧ 1 ≤ day ∧ day ≤ daysIn year month then some cs else none

/-- Drops a fraction of a second, if there is one. -/
def dropFraction : List Char → Option (List Char)
  | '.' :: cs =>
    let fraction := cs.takeWhile Char.isDigit
    if fraction.isEmpty then none else some (cs.drop fraction.length)
  | cs => some cs

/-- Drops a time of the day; its seconds may be missing. -/
def dropTime (cs : List Char) : Option (List Char) := do
  let (hour, cs) ← fixed 2 cs
  let (minute, cs) ← fixed 2 (← drop ':' cs)
  if hour ≤ 23 ∧ minute ≤ 59 then
    match cs with
    | ':' :: cs =>
      let (second, cs) ← fixed 2 cs
      if second ≤ 60 then dropFraction cs else none
    | cs => some cs
  else none

/-- Whether a text is empty or an offset from universal time. -/
def isOffset (cs : List Char) : Bool :=
  match cs with
  | [] | ['Z'] | ['z'] => true
  | c :: cs =>
    (c == '+' || c == '-') &&
      (match (do
        let (hour, cs) ← fixed 2 cs
        let (minute, cs) ← fixed 2 (← drop ':' cs)
        some (hour, minute, cs)) with
      | some (hour, minute, []) => hour ≤ 23 && minute ≤ 59
      | _ => false)

/-- Whether a text is a day, a time of the day, or both. -/
def isMoment (cs : List Char) : Bool :=
  match dropDate cs with
  | some [] => true
  | some (c :: cs) => (c == 'T' || c == 't' || c == ' ') && (dropTime cs).any isOffset
  | none => dropTime cs == some []

/-- The characters of numbers, times and truth values. -/
def isPlain (c : Char) : Bool :=
  c.isAlphanum || c == '_' || c == '+' || c == '-' || c == '.' || c == ':'

/-- Reads a text of such characters; a day may be followed by a space and a time. -/
def plain : Read (List Char) := fun cs =>
  let first := cs.takeWhile isPlain
  let rest := cs.drop first.length
  match rest with
  | ' ' :: d :: more =>
    if d.isDigit && dropDate first == some [] then
      let second := (d :: more).takeWhile isPlain
      some (first ++ ' ' :: second, (d :: more).drop second.length)
    else some (first, rest)
  | rest => some (first, rest)

/-- Reads a value that is neither a string nor in brackets. -/
def scalar : Read Toml := fun cs => do
  let (text, rest) ← plain cs
  if text == "true".toList then some (.boolean true, rest)
  else if text == "false".toList then some (.boolean false, rest)
  else
    match integer? text with
    | some n => some (if isHeldInteger n then .other else .tooGreat, rest)
    | none =>
      if isFloat text then some (if isHeldFloat text then .other else .tooGreat, rest)
      else if isMoment text then some (.other, rest)
      else none

mutual

/-- Reads a value, at most `depth` brackets being open in it at a time. -/
def value : Nat → Nat → Read Toml
  | 0, _, _ => none
  | fuel + 1, depth, cs =>
    match depth, cs with
    | 0, '[' :: _ | 0, '\x7b' :: _ => none
    | depth + 1, '[' :: cs => (items fuel depth cs).map fun (vs, cs) => (.list vs, cs)
    | depth + 1, '\x7b' :: cs => pairs fuel depth (.table .inline []) cs
    | _, c :: _ =>
      if c == '"' || c == '\'' then (string fuel cs).map fun (s, cs) => (.text s, cs) else scalar cs
    | _, [] => none

/-- Reads the values of a list up to its closing bracket. -/
def items : Nat → Nat → Read (List Toml)
  | 0, _, _ => none
  | fuel + 1, depth, cs => do
    match ← dropGap cs with
    | ']' :: cs => some ([], cs)
    | cs =>
      let (v, cs) ← value fuel depth cs
      match ← dropGap cs with
      | ']' :: cs => some ([v], cs)
      | ',' :: cs =>
        let (vs, cs) ← items fuel depth cs
        some (v :: vs, cs)
      | _ => none

/-- Reads the keys and values of an inline table up to its closing brace, after those read so
far. -/
def pairs : Nat → Nat → Toml → Read Toml
  | 0, _, _, _ => none
  | fuel + 1, depth, table, cs => do
    match ← dropGap cs with
    | '\x7d' :: cs => some (table, cs)
    | cs =>
      let (path, cs) ← key fuel cs
      let cs ← drop '=' (← dropGap cs)
      let (v, cs) ← value fuel depth (← dropGap cs)
      let table ← Toml.addDotted path v table
      match ← dropGap cs with
      | '\x7d' :: cs => some (table, cs)
      | ',' :: cs => pairs fuel depth table cs
      | _ => none

end

/-- A document while it is read: all of it, and the keys of the table that is open. -/
structure Draft where
  document : Toml
  table : List String

/-- Reads the header of a table. -/
def header (fuel : Nat) (d : Draft) (cs : List Char) : Option (Draft × List Char) := do
  let (declaration, close, cs) := match cs with
    | '[' :: cs => (Toml.declareNext, [']', ']'], cs)
    | cs => (Toml.declare, [']'], cs)
  let (keys, cs) ← key fuel cs
  let cs ← close.foldlM (fun cs c => drop c cs) cs
  let last ← keys.getLast?
  let document ← Toml.changeAt false (declaration last) keys.dropLast d.document
  some (⟨document, keys⟩, cs)

/-- Reads a key and its value. -/
def keyValue (fuel : Nat) (d : Draft) (cs : List Char) : Option (Draft × List Char) := do
  let (path, cs) ← key fuel cs
  let cs ← drop '=' cs
  let (v, cs) ← value fuel nestingLimit (dropBlanks cs)
  let add := fun form es => Toml.addDotted path v (.table form es)
  let document ← Toml.changeAt false add d.table d.document
  some ({ d with document := document }, cs)

/-- Reads the lines of a document, in at most `fuel` steps. -/
def lines : Nat → Draft → List Char → Option Toml
  | 0, _, _ => none
  | fuel + 1, d, cs => do
    match ← dropGap cs with
    | [] => some d.document
    | cs =>
      let (d, cs) ← match cs with
        | '[' :: cs => header fuel d cs
        | cs => keyValue fuel d cs
      match ← dropComment (dropBlanks cs) with
      | [] => some d.document
      | cs => lines fuel d (← lineEnd? cs)

/-- The document that a text is. -/
def document? (text : String) : Option Toml :=
  let cs := match text.toList with
    | '\uFEFF' :: cs => cs
    | cs => cs
  lines (2 * cs.length + 2) ⟨.table .declared [], []⟩ cs

end ScriptShell.TomlText
