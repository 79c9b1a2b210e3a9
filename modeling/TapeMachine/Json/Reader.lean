import TapeMachine.Decimal.Shortest
import TapeMachine.Text.Quoted

/-!
# Reading JSON and what can go wrong

A reader stands between the bytes it has used up and the bytes to come. A failure names its cause
and the number of bytes up to and including the one it points at, from which a line and a column
follow.
-/

namespace TapeMachine.Json

/-- A number as it is read. -/
inductive Number where
  /-- A natural number of at most 64 bits. -/
  | natural (n : Nat)
  /-- The negative of a positive number of at most 63 bits, or of 2^63. -/
  | negative (n : Nat)
  /-- Any other number. -/
  | floating (x : Float)

/-- Messages write numbers from `10 ^ -5` to below `10 ^ 16` plainly, and a sign in every exponent. -/
def floatLayout : Decimal.Layout :=
  { least := -5, greatest := 15, positiveMark := "e+", negativeMark := "e-" }

/-- The text of a number with its kind. -/
def Number.describe : Number → String
  | natural n => "integer " ++ "`" ++ toString n ++ "`"
  | negative n => "integer " ++ "`-" ++ toString n ++ "`"
  | floating x => "floating point " ++ "`" ++ Decimal.floatText floatLayout x ++ "`"

/-- A value that was read where another kind was wanted. -/
inductive Found where
  | null
  | boolean (b : Bool)
  | number (n : Number)
  | string (text : String)
  | sequence
  | map

/-- The text of a value that was not wanted. -/
def Found.describe : Found → String
  | null => "null"
  | boolean true => "boolean `true`"
  | boolean false => "boolean `false`"
  | number n => n.describe
  | string text => "string " ++ Text.quoted text
  | sequence => "sequence"
  | map => "map"

/-- What was wanted. -/
inductive Wanted where
  | byte
  | sequence
deriving DecidableEq

/-- The text of what was wanted. -/
def Wanted.describe : Wanted → String
  | byte => "u8"
  | sequence => "a sequence"

/-- Why bytes are not a JSON array of bytes. -/
inductive Fault where
  | endInValue
  | endInList
  | endInString
  | expectedCommaOrEnd
  | expectedIdent
  | expectedValue
  | invalidEscape
  | invalidNumber
  | numberOutOfRange
  | invalidCodePoint
  | controlCharacter
  | loneSurrogate
  | endOfHexEscape
  | trailingComma
  | trailingCharacters
  /-- A value of the wrong kind. -/
  | invalidType (found : Found) (wanted : Wanted)
  /-- A number that is no byte. -/
  | invalidValue (n : Number)

/-- The text of a fault. -/
def Fault.message : Fault → String
  | endInValue => "EOF while parsing a value"
  | endInList => "EOF while parsing a list"
  | endInString => "EOF while parsing a string"
  | expectedCommaOrEnd => "expected `,` or `]`"
  | expectedIdent => "expected ident"
  | expectedValue => "expected value"
  | invalidEscape => "invalid escape"
  | invalidNumber => "invalid number"
  | numberOutOfRange => "number out of range"
  | invalidCodePoint => "invalid unicode code point"
  | controlCharacter => "control character (\\u0000-\\u001F) found while parsing a string"
  | loneSurrogate => "lone leading surrogate in hex escape"
  | endOfHexEscape => "unexpected end of hex escape"
  | trailingComma => "trailing comma"
  | trailingCharacters => "trailing characters"
  | invalidType found wanted =>
    "invalid type: " ++ found.describe ++ ", expected " ++ wanted.describe
  | invalidValue n => "invalid value: " ++ n.describe ++ ", expected " ++ Wanted.byte.describe

/-- A fault and the number of bytes up to and including the one it points at. -/
structure Failure where
  fault : Fault
  offset : Nat

/-- A fault with its line and column. -/
structure Error where
  fault : Fault
  line : Nat
  column : Nat

/-- The text of an error. -/
def Error.message (e : Error) : String :=
  e.fault.message ++ " at line " ++ toString e.line ++ " column " ++ toString e.column

/-- Find the line and column of a failure: both start anew behind every newline. -/
def Failure.locate (f : Failure) (data : List UInt8) : Error :=
  let seen := data.take f.offset
  let column := (seen.reverse.takeWhile (· ≠ 10)).length
  ⟨f.fault, 1 + seen.count 10, column⟩

/-- The bytes to come and the number of bytes before them. -/
structure Reader where
  offset : Nat
  rest : List UInt8

namespace Reader

/-- Fail at the last byte used up. -/
def fail {α : Type} (r : Reader) (fault : Fault) : Except Failure α := .error ⟨fault, r.offset⟩

/-- Fail at the next byte, or at the end. -/
def failNext {α : Type} (r : Reader) (fault : Fault) : Except Failure α :=
  .error ⟨fault, if r.rest.isEmpty then r.offset else r.offset + 1⟩

/-- Use up the next `n` bytes. -/
def skip (r : Reader) (n : Nat) : Reader := ⟨r.offset + n, r.rest.drop n⟩

end Reader

/-- The blanks between tokens: space, newline, tab and carriage return. -/
def isBlank (b : UInt8) : Bool := b == 32 || b == 10 || b == 9 || b == 13

/-- Use up blanks. -/
def Reader.skipBlanks (r : Reader) : Reader := r.skip (r.rest.takeWhile isBlank).length

/-- Whether a byte is a decimal digit. -/
def isDigit (b : UInt8) : Bool := 48 ≤ b && b ≤ 57

/-- The value of a decimal digit. -/
def digit (b : UInt8) : Nat := b.toNat - 48

end TapeMachine.Json
