import TapeMachine.Container.Base64
import TapeMachine.Console.IoError
import TapeMachine.Json.Bytes
import TapeMachine.Program
import TapeMachine.Text.Blank

/-!
# Stored programs

A program is stored as the JSON array of its bytes in base64. Blanks around the stored text are
allowed, and what is read has to start with the program header.
-/

namespace TapeMachine

/-- Why something is not a stored program. -/
inductive FormatError where
  /-- The bytes do not start with the header. -/
  | missingHeader
  | base64 (cause : Base64.Error)
  | json (cause : Json.Error)
  /-- The file could not be read or written. -/
  | io (cause : IoError)

/-- The text of a format error. -/
def FormatError.message : FormatError → String
  | missingHeader => Program.missingHeaderMessage
  | base64 cause => "Bytecode file is not valid base64: " ++ cause.message
  | json cause => "Bytecode file does not hold a byte array: " ++ cause.message
  | io _ => "IO Error"

/-- The stored form of a program. -/
def serialize (p : Program) : List UInt8 := Base64.encode (Json.writeBytes p.bytes.toList)

/-- Read the stored form of a program. -/
def deserialize (data : List UInt8) : Except FormatError Program :=
  match Base64.decode (Text.trimBlankBytes data) with
  | .error e => .error (.base64 e)
  | .ok array =>
    match Json.readBytes array with
    | .error e => .error (.json e)
    | .ok bytes =>
      let p : Program := ⟨bytes.toArray⟩
      if p.hasHeader then .ok p else .error .missingHeader

end TapeMachine
