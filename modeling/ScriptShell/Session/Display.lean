import ScriptShell.Command.Outcome
import ScriptShell.Value.Text

/-!
# Display

What the user is shown: the text of an outcome, in color or not, and the prompt. Values show as
they display, programs with what they wrote and their code, and failures with a mark; nothing, and
the value that is nothing, show as nothing at all.
-/

namespace ScriptShell.Display

/-- A text between the codes of a terminal that set a style and end it. -/
def styled (code ending text : String) : String :=
  "\x1b[" ++ code ++ "m" ++ text ++ "\x1b[" ++ ending ++ "m"

/-- A text in italics. -/
def italic (text : String) : String := styled "3" "0" text

/-- A dimmed text. -/
def dimmed (text : String) : String := styled "2" "0" text

/-- A text in bold red. -/
def alarming (text : String) : String := styled "1" "0" (styled "31" "39" text)

/-- A text without the line feeds at its end. -/
def withoutBreaks (s : String) : String :=
  String.ofList (s.toList.reverse.dropWhile (· == '\n')).reverse

/-- What a program wrote to a stream, ending with one line feed unless it wrote nothing. -/
def stream (s : String) : String := if s.isEmpty then "" else withoutBreaks s ++ "\n"

/-- The code of a program in words. -/
def codeText (color : Bool) (code : Int) : String :=
  let text := "output: " ++ String.ofList (Integer.text code)
  if color then italic text else text

/-- The text of a failure. -/
def failureText (color : Bool) (f : Failure) : String :=
  let text := " ! >> " ++ f.text
  if color then alarming text else text

/-- The text of an outcome, if it has one. -/
def render (color : Bool) : Outcome → Option String
  | .nothing | .value .none => none
  | .value v => some v.display
  | .process r => some (stream r.out ++ stream r.err ++ codeText color r.code)
  | .failed f => some (failureText color f)

/-- The prompt of a session in a working directory. -/
def prompt (workPath : String) : String := " 🐚 " ++ workPath ++ " $ "

end ScriptShell.Display
