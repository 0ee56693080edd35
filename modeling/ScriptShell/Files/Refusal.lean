/-!
# Refusals

Why the system does not do what it is asked: the numbered errors of the kernel, and the texts that
are refused before the kernel is asked.
-/

namespace ScriptShell

/-- A reason to refuse an operation. -/
inductive Refusal where
  | notFound | tooManyWords | notExecutable | denied | busy | exists | notDirectory | isDirectory
  | invalid | nameTooLong | notEmpty | tooManyLinks | notUtf8 | nulInPath | nulInArgument
  | notRegular
  /-- A refusal of some kind with a text of its own. -/
  | other (text : String) (isNotFound : Bool)
  deriving DecidableEq, Repr

namespace Refusal

/-- The number of a kernel error with its text. -/
def numbered (text : String) (number : String) : String :=
  text ++ " (os error " ++ number ++ ")"

/-- The message of a refusal. -/
def message : Refusal → String
  | .notFound => numbered "No such file or directory" "2"
  | .tooManyWords => numbered "Argument list too long" "7"
  | .notExecutable => numbered "Exec format error" "8"
  | .denied => numbered "Permission denied" "13"
  | .busy => numbered "Device or resource busy" "16"
  | .exists => numbered "File exists" "17"
  | .notDirectory => numbered "Not a directory" "20"
  | .isDirectory => numbered "Is a directory" "21"
  | .invalid => numbered "Invalid argument" "22"
  | .nameTooLong => numbered "File name too long" "36"
  | .notEmpty => numbered "Directory not empty" "39"
  | .tooManyLinks => numbered "Too many levels of symbolic links" "40"
  | .notUtf8 => "stream did not contain valid UTF-8"
  | .nulInPath => "file name contained an unexpected NUL byte"
  | .nulInArgument => "nul byte found in provided data"
  | .notRegular =>
    "the source path is neither a regular file nor a symlink to a regular file"
  | .other text _ => text

/-- Whether something that was named is not there. -/
def isNotFound : Refusal → Bool
  | .notFound => true
  | .other _ missing => missing
  | _ => false

end Refusal

end ScriptShell
