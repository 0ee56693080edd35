import ScriptShell.Config.Basic
import ScriptShell.Config.TomlText

/-!
# Reading a configuration

A configuration is a TOML document. Each setting may be missing and then has its standard value;
of settings that are not known only the numbers are looked at, which must not be too great. An alias
is a table, or a list of its beginning and its replacement.
-/

namespace ScriptShell.Config

/-- A setting that has to be a string. -/
def text? : Toml → Option String
  | .text s => some s
  | _ => none

/-- A setting that has to be a truth value. -/
def boolean? : Toml → Option Bool
  | .boolean b => some b
  | _ => none

/-- The items of a setting that has to be a list. -/
def items? : Toml → Option (List Toml)
  | .list items => some items
  | .tables items => some items
  | _ => none

/-- An alias. -/
def alias? : Toml → Option Alias
  | .table _ es => do
    let beginning ← text? (← Toml.lookup "prefix" es)
    let replacement ← text? (← Toml.lookup "replacement" es)
    if Toml.entriesHeld es then some ⟨beginning, replacement⟩ else none
  | .list (beginning :: replacement :: _) => do
    some ⟨← text? beginning, ← text? replacement⟩
  | _ => none

/-- A setting under a key, or its standard value if it is missing. -/
def setting? {α : Type} (es : List (String × Toml)) (key : String) (standard : α)
    (read : Toml → Option α) : Option α :=
  match Toml.lookup key es with
  | none => some standard
  | some v => read v

/-- The names of the settings. -/
def settingNames : List String := ["super_commands", "aliases", "capture_output"]

/-- The configuration that a document says. -/
def ofToml? : Toml → Option Config
  | .table _ es => do
    let superCommands ← setting? es "super_commands" standard.superCommands fun v => do
      (← items? v).mapM text?
    let aliases ← setting? es "aliases" standard.aliases fun v => do (← items? v).mapM alias?
    let captureOutput ← setting? es "capture_output" standard.captureOutput boolean?
    let unknown := es.filter fun e => !settingNames.contains e.1
    if Toml.entriesHeld unknown then some ⟨superCommands, aliases, captureOutput⟩ else none
  | _ => none

/-- The configuration that a text says. -/
def ofText? (text : String) : Option Config := (TomlText.document? text).bind ofToml?

end ScriptShell.Config
