/-!
# Input and output failures

The reasons for which reading, writing or opening something can fail, and their texts.
-/

namespace TapeMachine

/-- Why an input or output operation failed. -/
inductive IoError where
  /-- The sink has no room for a whole piece of text. -/
  | sinkFull
  /-- The sink does not flush any more. -/
  | flushRefused
  /-- The bytes that were read are not UTF-8. -/
  | invalidUtf8
  /-- There is nothing at a path. -/
  | notFound
  /-- A path leads through a regular file. -/
  | notADirectory
  /-- A path that should lead to a regular file leads to a directory. -/
  | isADirectory
  /-- A path, or a name on it, has more bytes than a path or a name can have. -/
  | nameTooLong
  /-- A path holds the null character, which no path can hold. -/
  | nullInPath
deriving DecidableEq

/-- The text of a failure. -/
def IoError.message : IoError → String
  | sinkFull => "sink full"
  | flushRefused => "flush refused"
  | invalidUtf8 => "stream did not contain valid UTF-8"
  | notFound => "No such file or directory (os error 2)"
  | notADirectory => "Not a directory (os error 20)"
  | isADirectory => "Is a directory (os error 21)"
  | nameTooLong => "File name too long (os error 36)"
  | nullInPath => "file name contained an unexpected NUL byte"

end TapeMachine
