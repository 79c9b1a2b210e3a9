import TapeMachine.Json.Number
import TapeMachine.Json.StringLiteral

/-!
# JSON arrays of bytes

A byte string is written as an array of decimal numbers without blanks. Reading takes one array of
numbers from 0 to 255, with blanks around all tokens, and says exactly what it met instead
otherwise.
-/

namespace TapeMachine.Json

/-- The decimal digits of a byte. -/
def decimal (b : UInt8) : List UInt8 :=
  if b < 10 then [48 + b]
  else if b < 100 then [48 + b / 10, 48 + b % 10]
  else [48 + b / 100, 48 + b / 10 % 10, 48 + b % 10]

/-- The elements of an array behind the first. -/
def writeMore : List UInt8 → List UInt8
  | [] => [93]
  | b :: bs => 44 :: (decimal b ++ writeMore bs)

/-- Write bytes as an array of numbers. -/
def writeBytes : List UInt8 → List UInt8
  | [] => [91, 93]
  | b :: bs => 91 :: (decimal b ++ writeMore bs)

/-- Read the rest of a word behind its first letter. -/
def readWord (word : List UInt8) (r : Reader) : Except Failure Reader :=
  match word with
  | [] => .ok r
  | w :: word =>
    match r.rest with
    | [] => r.fail .endInValue
    | b :: _ => if b = w then readWord word (r.skip 1) else (r.skip 1).fail .expectedIdent

/-- Read a value that is not wanted and fail. -/
def unexpected {α : Type} (wanted : Wanted) (r : Reader) : Except Failure α :=
  match r.rest with
  | 110 :: _ => do
    let r ← readWord [117, 108, 108] (r.skip 1)
    r.fail (.invalidType .null wanted)
  | 116 :: _ => do
    let r ← readWord [114, 117, 101] (r.skip 1)
    r.fail (.invalidType (.boolean true) wanted)
  | 102 :: _ => do
    let r ← readWord [97, 108, 115, 101] (r.skip 1)
    r.fail (.invalidType (.boolean false) wanted)
  | 45 :: _ => do
    let (n, r) ← readNumber false (r.skip 1)
    r.fail (.invalidType (.number n) wanted)
  | 34 :: _ => do
    let (text, r) ← readString (r.skip 1)
    r.fail (.invalidType (.string text) wanted)
  | 91 :: _ => r.fail (.invalidType .sequence wanted)
  | 123 :: _ => r.fail (.invalidType .map wanted)
  | b :: _ =>
    if isDigit b then do
      let (n, r) ← readNumber true r
      r.fail (.invalidType (.number n) wanted)
    else r.failNext .expectedValue
  | [] => r.failNext .expectedValue

/-- The byte that a number stands for. -/
def toByte (n : Number) (r : Reader) : Except Failure (UInt8 × Reader) :=
  match n with
  | .natural n => if n < 256 then .ok (UInt8.ofNat n, r) else r.fail (.invalidValue (.natural n))
  | .negative n => r.fail (.invalidValue (.negative n))
  | .floating x => r.fail (.invalidType (.number (.floating x)) .byte)

/-- Read one element. -/
def readElement (r : Reader) : Except Failure (UInt8 × Reader) :=
  match r.rest with
  | [] => r.failNext .endInValue
  | b :: _ =>
    if b = 45 then
      match readNumber false (r.skip 1) with
      | .error e => .error e
      | .ok (n, r) => toByte n r
    else if isDigit b then
      match readNumber true r with
      | .error e => .error e
      | .ok (n, r) => toByte n r
    else unexpected .byte r

/--
Read the elements behind the first, with the bytes so far, the latest first. Every round uses up a
comma, so the number of bytes to come is enough fuel.
-/
def readMore : (fuel : Nat) → List UInt8 → Reader → Except Failure (List UInt8 × Reader)
  | 0, _, r => r.failNext .endInList
  | fuel + 1, bytes, r =>
    let r := r.skipBlanks
    match r.rest with
    | [] => r.failNext .endInList
    | 93 :: _ => .ok (bytes.reverse, r.skip 1)
    | 44 :: _ =>
      let r := (r.skip 1).skipBlanks
      match r.rest with
      | [] => r.failNext .endInValue
      | 93 :: _ => r.failNext .trailingComma
      | _ =>
        match readElement r with
        | .error e => .error e
        | .ok (b, r) => readMore fuel (b :: bytes) r
    | _ => r.failNext .expectedCommaOrEnd

/-- Read the elements of an array behind its opening bracket. -/
def readElements (r : Reader) : Except Failure (List UInt8 × Reader) :=
  let r := r.skipBlanks
  match r.rest with
  | [] => r.failNext .endInList
  | 93 :: _ => .ok ([], r.skip 1)
  | _ =>
    match readElement r with
    | .error e => .error e
    | .ok (b, r) => readMore r.rest.length [b] r

/-- Read an array with blanks around it, up to the end of the data. -/
def readArray (r : Reader) : Except Failure (List UInt8) :=
  let r := r.skipBlanks
  match r.rest with
  | [] => r.failNext .endInValue
  | 91 :: _ =>
    match readElements (r.skip 1) with
    | .error e => .error e
    | .ok (bytes, r) =>
      let r := r.skipBlanks
      if r.rest.isEmpty then .ok bytes else r.failNext .trailingCharacters
  | _ => unexpected .sequence r

/-- Read an array of bytes. -/
def readBytes (data : List UInt8) : Except Error (List UInt8) :=
  match readArray ⟨0, data⟩ with
  | .error f => .error (f.locate data)
  | .ok bytes => .ok bytes

end TapeMachine.Json
