import TapeMachine.Json.Reader
import TapeMachine.Text.Utf8

/-!
# String literals

A string literal is read up to its closing quote, with escapes resolved, and the bytes it stands for
then have to be UTF-8.
-/

namespace TapeMachine.Json

/-- The value of a hexadecimal digit. -/
def hexDigit? (b : UInt8) : Option Nat :=
  if 48 ≤ b ∧ b ≤ 57 then some (b.toNat - 48)
  else if 97 ≤ b ∧ b ≤ 102 then some (b.toNat - 87)
  else if 65 ≤ b ∧ b ≤ 70 then some (b.toNat - 55)
  else none

/-- The value of four hexadecimal digits. -/
def hexNumber? (digits : List UInt8) : Option Nat :=
  digits.foldl (fun acc b => acc.bind fun n => (hexDigit? b).map (n * 16 + ·)) (some 0)

/-- Read four hexadecimal digits. -/
def readHex (r : Reader) : Except Failure (Nat × Reader) :=
  if r.rest.length < 4 then (r.skip r.rest.length).fail .endInString
  else
    match hexNumber? (r.rest.take 4) with
    | none => (r.skip 4).fail .invalidEscape
    | some n => .ok (n, r.skip 4)

/-- Read one given byte inside a pair of escapes. -/
def expectPair (b : UInt8) (r : Reader) : Except Failure Reader :=
  match r.rest with
  | [] => r.fail .endInString
  | c :: _ => if c = b then .ok (r.skip 1) else (r.skip 1).fail .endOfHexEscape

/-- Read the number of an escape; a leading surrogate needs a trailing one in a second escape. -/
def readUnicode (r : Reader) : Except Failure (Char × Reader) := do
  let (n, r) ← readHex r
  if 0xDC00 ≤ n ∧ n ≤ 0xDFFF then r.fail .loneSurrogate
  else if 0xD800 ≤ n ∧ n ≤ 0xDBFF then
    let r ← expectPair 92 r
    let r ← expectPair 117 r
    let (n', r) ← readHex r
    if 0xDC00 ≤ n' ∧ n' ≤ 0xDFFF then
      .ok (Char.ofNat ((n - 0xD800) * 0x400 + (n' - 0xDC00) + 0x10000), r)
    else r.fail .loneSurrogate
  else .ok (Char.ofNat n, r)

/-- Read an escape behind its backslash. -/
def readEscape (r : Reader) : Except Failure (Char × Reader) :=
  match r.rest with
  | [] => r.fail .endInString
  | b :: _ =>
    let r := r.skip 1
    match b with
    | 34 => .ok ('"', r)
    | 92 => .ok ('\\', r)
    | 47 => .ok ('/', r)
    | 98 => .ok ('\x08', r)
    | 102 => .ok ('\x0c', r)
    | 110 => .ok ('\n', r)
    | 114 => .ok ('\r', r)
    | 116 => .ok ('\t', r)
    | 117 => readUnicode r
    | _ => r.fail .invalidEscape

/--
Check that the bytes of a literal are UTF-8, once the reader is behind its closing quote. A failure
points as far back from there as there are bytes from the first bad one on, each escape counting
with the bytes it stands for.
-/
def finishString (bytes : List UInt8) (r : Reader) : Except Failure (String × Reader) :=
  match Text.ofBytes? bytes with
  | some text => .ok (text, r)
  | none =>
    let valid := (Text.validUpTo? bytes).getD 0
    .error ⟨.invalidCodePoint, r.offset - (bytes.length - valid)⟩

/--
Read a literal behind its opening quote, with the bytes so far, the latest first. Every round uses up
a byte, so the number of bytes to come is enough fuel.
-/
def readStringFrom : (fuel : Nat) → List UInt8 → Reader → Except Failure (String × Reader)
  | 0, _, r => r.fail .endInString
  | fuel + 1, bytes, r =>
    match r.rest with
    | [] => r.fail .endInString
    | b :: _ =>
      let r := r.skip 1
      if b = 34 then finishString bytes.reverse r
      else if b = 92 then
        match readEscape r with
        | .error e => .error e
        | .ok (c, r) => readStringFrom fuel ((Text.toBytes c.toString).reverse ++ bytes) r
      else if b < 32 then r.fail .controlCharacter
      else readStringFrom fuel (b :: bytes) r

/-- Read a literal behind its opening quote. -/
def readString (r : Reader) : Except Failure (String × Reader) :=
  readStringFrom r.rest.length [] r

end TapeMachine.Json
