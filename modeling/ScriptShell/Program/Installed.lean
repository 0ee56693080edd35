import ScriptShell.Program.Run

/-!
# Installed machines

A world to start sessions in: a tree with the utilities in the directories of installed programs, a
directory for what is temporary, and a home directory, in which the session starts.
-/

namespace ScriptShell

/-- The permissions of an installed program. -/
def Utility.mode : Nat := 0o755

/-- A utility as a file. -/
def Utility.asFile (time : Int) (u : Utility) : String × Node :=
  (u.name, .file ⟨Utility.mode, time, time⟩ u.image)

namespace World

/-- A directory made at a time. -/
def directoryAt (time : Int) (entries : Entries Node) : Node :=
  .directory ⟨newDirectoryMode, time, time⟩ entries

/-- The directories at the root of a machine that hold nothing at first. -/
def emptyDirectories : List String :=
  ["boot", "dev", "etc", "home", "media", "mnt", "opt", "proc", "root", "run", "srv", "sys", "tmp",
    "var"]

/-- The tree of a machine that was installed at a time: programs, with their customary short paths,
and empty directories. -/
def installedTree (time : Int) : Node :=
  directoryAt time ([
    ("bin", .link "usr/bin"),
    ("lib", .link "usr/lib"),
    ("sbin", .link "usr/sbin"),
    ("usr", directoryAt time [
      ("bin", directoryAt time (Utility.all.map (Utility.asFile time))),
      ("lib", directoryAt time []),
      ("local", directoryAt time []),
      ("sbin", directoryAt time []),
      ("share", directoryAt time [])])] ++
    emptyDirectories.map fun name => (name, directoryAt time []))

/-- A machine that was installed at a time, for a user with a home directory. -/
def installed (time : Int) (home : String) : World :=
  let bare : World := ⟨⟨installedTree time, [], home, time, true⟩, #[], #[], Program.onMachine⟩
  let (_, housed) := makeDirectories (greatestPath + 1) bare home
  match housed.enter home with
  | .ok w => w
  | .error _ => housed

end World

end ScriptShell
