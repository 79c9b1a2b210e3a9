import TapeMachine.Container.Format
import TapeMachine.Machine.Error
import TapeMachine.Source.Balance

/-!
# Errors of commands

Every failure that a session or the command line can report.
-/

namespace TapeMachine

/-- How a session command was misused. -/
inductive Misuse where
  /-- A file has to be named. -/
  | missingFileName
  /-- There is no file to load again. -/
  | nothingLoaded
deriving DecidableEq

/-- The text of a misuse. -/
def Misuse.message : Misuse → String
  | missingFileName => "Missing file name, usage: load <file>"
  | nothingLoaded => "No file has been loaded yet"

/-- Why a command failed. -/
inductive Error where
  /-- The brackets of a source text do not balance. -/
  | source (cause : Unbalanced)
  /-- A stored program could not be read or written. -/
  | format (cause : FormatError)
  /-- A run failed. -/
  | runtime (cause : RuntimeError)
  /-- The extension of a file tells nothing about it. -/
  | unknownFileType (path : String)
  | misuse (cause : Misuse)
  | io (cause : IoError)

/-- The text of an error. -/
def Error.message : Error → String
  | source cause => cause.message
  | format cause => cause.message
  | runtime cause => cause.message
  | unknownFileType path => "Unknown file type for " ++ path ++ " (expected .bf or .bfc)"
  | misuse cause => cause.message
  | io cause => "IO Error: " ++ cause.message

end TapeMachine
