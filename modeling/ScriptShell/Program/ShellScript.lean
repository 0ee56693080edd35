import ScriptShell.Program.Utility

/-!
# Shell scripts

The scripts that the system's own shell runs: simple commands with words, quotes and parameters,
joined by line feeds, semicolons, `&&` and `||`, and assignments to variables. A command can send its
output where its error messages go, the other way round, or nowhere. What a script is as a list of
commands is said here, together with what its words become; running it is said with the programs.
-/

namespace ScriptShell.ShellScript

/-- A part of a word. A parameter between double quotes stays one word, except `@`, which becomes
a word for each argument. -/
inductive Fragment where
  | text (text : String)
  | parameter (name : String) (quoted : Bool)
  deriving DecidableEq, Repr

/-- A word. -/
abbrev Word := List Fragment

/-- How a command is joined to the one before it. -/
inductive Joint where
  | always | ifSucceeded | ifFailed
  deriving DecidableEq, Repr

/-- Where what a command writes goes. -/
inductive Sink where
  | output | diagnostics | nowhere
  deriving DecidableEq, Repr

/-- A stream of a command, sent to where another goes or to nowhere. -/
inductive Redirection where
  | outputToDiagnostics | diagnosticsToOutput | outputToNowhere | diagnosticsToNowhere
  deriving DecidableEq, Repr

/-- A simple command: its line in the script, its words, and where its streams go. -/
structure Command where
  joint : Joint
  line : Nat
  words : List Word
  output : Sink
  diagnostics : Sink
  deriving Repr

/-- A command of which nothing is read yet. -/
def Command.started (joint : Joint) : Command := ⟨joint, 0, [], .output, .diagnostics⟩

/-- Adds a word that is read on a line. -/
def Command.addWord (c : Command) (line : Nat) (w : Word) : Command :=
  { c with line := if c.words.isEmpty then line else c.line, words := c.words ++ [w] }

/-- Sends a stream where a redirection says; those before it have already been followed. -/
def Command.redirect (c : Command) : Redirection → Command
  | .outputToDiagnostics => { c with output := c.diagnostics }
  | .diagnosticsToOutput => { c with diagnostics := c.output }
  | .outputToNowhere => { c with output := .nowhere }
  | .diagnosticsToNowhere => { c with diagnostics := .nowhere }

/-- What a script is made of. -/
inductive Item where
  | word (line : Nat) (word : Word)
  | joint (joint : Joint)
  | redirection (redirection : Redirection)
  deriving Repr

/-- The characters that a parameter's name can hold. -/
def isNameChar (c : Char) : Bool := c.isAlphanum || c == '_'

/-- The parameter after a dollar sign, and what follows it; alone, the sign is text. -/
def parameter (quoted : Bool) : List Char → Fragment × List Char
  | '\x7b' :: cs =>
    (.parameter (String.ofList (cs.takeWhile (· != '\x7d'))) quoted,
      (cs.dropWhile (· != '\x7d')).drop 1)
  | c :: cs =>
    if c == '@' || c == '*' || c == '#' || c == '?' || c == '$' || c.isDigit then
      (.parameter (String.singleton c) quoted, cs)
    else if isNameChar c then
      (.parameter (String.ofList ((c :: cs).takeWhile isNameChar)) quoted,
        (c :: cs).dropWhile isNameChar)
    else (.text "$", c :: cs)
  | [] => (.text "$", [])

/-- Reads what stands between double quotes, in at most `fuel` steps. -/
def quoted : Nat → List Char → Word × List Char
  | 0, cs => ([], cs)
  | _, [] => ([], [])
  | _, '"' :: cs => ([], cs)
  | fuel + 1, '\\' :: '\n' :: cs => quoted fuel cs
  | fuel + 1, '\\' :: c :: cs =>
    let text := if c == '$' || c == '"' || c == '\\' || c == '\x60' then [c] else ['\\', c]
    let (word, rest) := quoted fuel cs
    (.text (String.ofList text) :: word, rest)
  | fuel + 1, '$' :: cs =>
    let (fragment, rest) := parameter true cs
    let (word, rest) := quoted fuel rest
    (fragment :: word, rest)
  | fuel + 1, c :: cs =>
    let (word, rest) := quoted fuel cs
    (.text (String.singleton c) :: word, rest)

/-- The characters that end a word. -/
def endsWord (c : Char) : Bool :=
  c == ' ' || c == '\t' || c == '\n' || c == ';' || c == '&' || c == '|' || c == '>'

/-- Reads a word, in at most `fuel` steps. -/
def word : Nat → List Char → Word × List Char
  | 0, cs => ([], cs)
  | _, [] => ([], [])
  | fuel + 1, '\'' :: cs =>
    let (rest, after) := word fuel ((cs.dropWhile (· != '\'')).drop 1)
    (.text (String.ofList (cs.takeWhile (· != '\''))) :: rest, after)
  | fuel + 1, '"' :: cs =>
    let (inner, after) := quoted cs.length cs
    let (rest, after) := word fuel after
    (.text "" :: inner ++ rest, after)
  | fuel + 1, '\\' :: '\n' :: cs => word fuel cs
  | fuel + 1, '\\' :: c :: cs =>
    let (rest, after) := word fuel cs
    (.text (String.singleton c) :: rest, after)
  | fuel + 1, '$' :: cs =>
    let (fragment, after) := parameter false cs
    let (rest, after) := word fuel after
    (fragment :: rest, after)
  | fuel + 1, c :: cs =>
    if endsWord c then ([], c :: cs)
    else
      let (rest, after) := word fuel cs
      (.text (String.singleton c) :: rest, after)

/-- The redirections and how they are written. -/
def redirections : List (List Char × Redirection) :=
  [("2>&1".toList, .diagnosticsToOutput),
    ("1>&2".toList, .outputToDiagnostics),
    (">&2".toList, .outputToDiagnostics),
    ("2>/dev/null".toList, .diagnosticsToNowhere),
    ("2> /dev/null".toList, .diagnosticsToNowhere),
    ("1>/dev/null".toList, .outputToNowhere),
    (">/dev/null".toList, .outputToNowhere),
    ("> /dev/null".toList, .outputToNowhere)]

/-- Reads a redirection. -/
def redirection? (cs : List Char) : Option (Redirection × List Char) :=
  (redirections.find? fun r => r.1.isPrefixOf cs).map fun r => (r.2, cs.drop r.1.length)

/-- The items of a script from a line on, read in at most `fuel` steps. -/
def items : Nat → Nat → List Char → List Item
  | 0, _, _ => []
  | _, _, [] => []
  | fuel + 1, line, '&' :: '&' :: cs => .joint .ifSucceeded :: items fuel line cs
  | fuel + 1, line, '|' :: '|' :: cs => .joint .ifFailed :: items fuel line cs
  | fuel + 1, line, '#' :: cs => items fuel line (cs.dropWhile (· != '\n'))
  | fuel + 1, line, '\\' :: '\n' :: cs => items fuel (line + 1) cs
  | fuel + 1, line, c :: cs =>
    match redirection? (c :: cs) with
    | some (r, rest) => .redirection r :: items fuel line rest
    | none =>
      if c == ' ' || c == '\t' then items fuel line cs
      else if c == '\n' then .joint .always :: items fuel (line + 1) cs
      else if c == ';' then .joint .always :: items fuel line cs
      else if endsWord c then items fuel line cs
      else
        let (w, rest) := word (cs.length + 1) (c :: cs)
        let last := line + ((c :: cs).take (cs.length + 1 - rest.length)).count '\n'
        .word last w :: items fuel last rest

/-- Gathers items into commands, `command` being the one under way. -/
def gather (command : Command) : List Item → List Command
  | [] => if command.words.isEmpty then [] else [command]
  | .word line w :: rest => gather (command.addWord line w) rest
  | .redirection r :: rest => gather (command.redirect r) rest
  | .joint joint :: rest =>
    let next := gather (.started joint) rest
    if command.words.isEmpty then next else command :: next

/-- The commands of a script. -/
def commands (cs : List Char) : List Command :=
  gather (.started .always) (items (cs.length + 1) 1 cs)

/-- What the parameters of a script stand for. -/
structure Parameters where
  script : String
  args : List String
  lastCode : Nat
  home : String
  workPath : String
  settings : List (String × String)
  deriving Repr

/-- The texts that a parameter stands for: one, except for `@` and `*`. -/
def Parameters.values (p : Parameters) (name : String) : List String :=
  match name with
  | "@" | "*" => p.args
  | "#" => [toString p.args.length]
  | "?" => [toString p.lastCode]
  | "$" => ["1"]
  | name =>
    match name.toNat? with
    | some 0 => [p.script]
    | some (n + 1) => [p.args.getD n ""]
    | none =>
      match p.settings.find? fun v => v.1 == name with
      | some v => [v.2]
      | none => [if name == "HOME" then p.home else if name == "PWD" then p.workPath else ""]

/-- Gives a variable a value. -/
def Parameters.assign (p : Parameters) (name value : String) : Parameters :=
  { p with settings := (name, value) :: p.settings }

/-- Words being built: those that are finished, and the one under way, if any. -/
structure Fields where
  finished : List String
  current : Option String

/-- Adds a text to the word under way. -/
def Fields.extend (f : Fields) (text : String) : Fields :=
  { f with current := some (f.current.getD "" ++ text) }

/-- Ends the word under way. -/
def Fields.cut (f : Fields) : Fields := ⟨f.finished ++ f.current.toList, none⟩

/-- Adds texts of which each but the last ends a word. -/
def Fields.extendAll (f : Fields) : List String → Fields
  | [] => f
  | [text] => f.extend text
  | text :: others => (f.extend text).cut.extendAll others

/-- Adds what a fragment stands for. -/
def Fields.add (p : Parameters) (f : Fields) : Fragment → Fields
  | .text text => f.extend text
  | .parameter name true =>
    if name == "@" then f.extendAll (p.values name)
    else f.extend (" ".intercalate (p.values name))
  | .parameter name false =>
    let words := (p.values name).flatMap fun v => (Text.words v.toList).map String.ofList
    f.extendAll words

/-- Whether a word is only a quoted `@`, which may become no word at all. -/
def isOnlyArguments (w : Word) : Bool :=
  w.all fun
    | .text text => text.isEmpty
    | .parameter name quoted => quoted && name == "@"

/-- The words that a word becomes. -/
def expand (p : Parameters) (w : Word) : List String :=
  let filled : Word := w.filter (· != .text "")
  let start : Word := if isOnlyArguments w && !filled.isEmpty then filled else w
  (start.foldl (Fields.add p) ⟨[], none⟩).cut.finished

/-- The characters that a word starts with, up to its first parameter. -/
def leadingText : Word → List Char
  | .text text :: rest => text.toList ++ leadingText rest
  | _ => []

/-- The name that a word assigns to: one before an equals sign that does not start with a digit. -/
def assigned? (w : Word) : Option (List Char) :=
  let name := (leadingText w).takeWhile isNameChar
  match (leadingText w).drop name.length with
  | '=' :: _ => if name.isEmpty || name.head?.any Char.isDigit then none else some name
  | _ => none

/-- Follows the assignments at the front of some words. -/
def assignAll (p : Parameters) : List Word → Parameters
  | [] => p
  | w :: ws =>
    match assigned? w with
    | none => p
    | some name =>
      let value := (" ".intercalate (expand p w)).toList.drop (name.length + 1)
      assignAll (p.assign (String.ofList name) (String.ofList value)) ws

/-- The words of a command without its assignments. -/
def Command.expanded (c : Command) (p : Parameters) : List String :=
  (c.words.dropWhile fun w => (assigned? w).isSome).flatMap (expand p)

/-- Whether a command is only assignments. -/
def Command.isAssignment (c : Command) : Bool := c.words.all fun w => (assigned? w).isSome

end ScriptShell.ShellScript
