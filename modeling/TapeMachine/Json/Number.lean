import TapeMachine.Json.Reader

/-!
# Numbers

A number without fraction and exponent that fits in 64 bits is kept exactly. Any other becomes a
double: its first digits, as many as fit in 64 bits, scaled by one multiplication or division with a
power of ten. A number too large for a double is refused.
-/

namespace TapeMachine.Json

/-- The largest significand that is kept exactly, of 64 bits. -/
def maxSignificand : Nat := 0xFFFFFFFFFFFFFFFF

/-- The largest exponent that is followed digit by digit, of 31 bits. -/
def maxExponent : Nat := 0x7FFFFFFF

/-- The largest significand that stays exact behind a minus sign. -/
def maxNegative : Nat := 0x8000000000000000

/-- Read digits into a number as long as it stays within a limit. -/
def readWithin (limit acc offset : Nat) : List UInt8 → Nat × Reader
  | [] => (acc, ⟨offset, []⟩)
  | b :: bs =>
    if isDigit b && acc * 10 + digit b ≤ limit then
      readWithin limit (acc * 10 + digit b) (offset + 1) bs
    else (acc, ⟨offset, b :: bs⟩)

/-- Use up digits. -/
def Reader.skipDigits (r : Reader) : Reader := r.skip (r.rest.takeWhile isDigit).length

/-- Whether a digit comes next. -/
def Reader.atDigit (r : Reader) : Bool := r.rest.head?.any isDigit

/-- The power of ten nearest to `10 ^ n`. -/
def powerOfTen (n : Nat) : Float := Float.ofScientific 1 false n

/-- The largest exponent of ten with a finite power. -/
def maxPower : Nat := 308

/-- Divide by `10 ^ n`, in several steps where one power of ten does not reach. -/
def divideByPower (x : Float) (n : Nat) : Float :=
  if n ≤ maxPower then x / powerOfTen n
  else if x == 0.0 then x
  else divideByPower (x / powerOfTen maxPower) (n - maxPower)
termination_by n
decreasing_by
  have : 0 < maxPower := by decide
  omega

/-- Multiply by `10 ^ n`, unless the result is not finite. -/
def multiplyByPower? (x : Float) (n : Nat) : Option Float :=
  if n ≤ maxPower then
    let y := x * powerOfTen n
    if y.isInf then none else some y
  else if x == 0.0 then some x
  else none

/-- The double for `significand · 10 ^ exponent`, if it is finite. -/
def scale? (significand : Nat) (exponent : Int) : Option Float :=
  let x := Float.ofScientific significand false 0
  if 0 ≤ exponent then multiplyByPower? x exponent.toNat
  else some (divideByPower x (-exponent).toNat)

/-- Give a number its sign. -/
def signed (positive : Bool) (x : Float) : Number := .floating (if positive then x else -x)

/-- Finish a number with a fraction or an exponent. -/
def finishFloat (positive : Bool) (significand : Nat) (exponent : Int) (r : Reader) :
    Except Failure (Number × Reader) :=
  match scale? significand exponent with
  | none => r.fail .numberOutOfRange
  | some x => .ok (signed positive x, r)

/-- Read the exponent behind its letter. -/
def readExponent (positive : Bool) (significand : Nat) (exponent : Int) (r : Reader) :
    Except Failure (Number × Reader) :=
  let r := r.skip 1
  let negative := r.rest.head? == some 45
  let r := if negative || r.rest.head? == some 43 then r.skip 1 else r
  match r.rest with
  | [] => r.fail .endInValue
  | b :: bs =>
    if isDigit b then
      let (e, r) := readWithin maxExponent (digit b) (r.offset + 1) bs
      if r.atDigit then
        if significand ≠ 0 && !negative then (r.skip 1).fail .numberOutOfRange
        else .ok (signed positive 0.0, r.skipDigits)
      else finishFloat positive significand (if negative then exponent - e else exponent + e) r
    else (r.skip 1).fail .invalidNumber

/-- Read what may follow the digits of a fraction. -/
def finishFraction (positive : Bool) (significand : Nat) (exponent : Int) (r : Reader) :
    Except Failure (Number × Reader) :=
  match r.rest with
  | 101 :: _ => readExponent positive significand exponent r
  | 69 :: _ => readExponent positive significand exponent r
  | _ => finishFloat positive significand exponent r

/-- Read the fraction from its point on; digits that do not fit any more are passed over. -/
def readFraction (positive : Bool) (significand : Nat) (exponent : Int) (r : Reader) :
    Except Failure (Number × Reader) :=
  let r := r.skip 1
  if r.atDigit then
    let (significand, r') := readWithin maxSignificand significand r.offset r.rest
    finishFraction positive significand (exponent - (r'.offset - r.offset : Nat)) r'.skipDigits
  else if r.rest.isEmpty then r.failNext .endInValue
  else r.failNext .invalidNumber

/-- Read what may follow the digits of an integer that has `exponent` more digits than its significand. -/
def finishLong (positive : Bool) (significand : Nat) (exponent : Int) (r : Reader) :
    Except Failure (Number × Reader) :=
  match r.rest with
  | 46 :: _ => readFraction positive significand exponent r
  | _ => finishFraction positive significand exponent r

/-- The number of an integer without fraction and exponent; minus zero is a floating-point number. -/
def integer (positive : Bool) (significand : Nat) : Number :=
  if positive then .natural significand
  else if significand = 0 ∨ maxNegative < significand then
    .floating (-(Float.ofScientific significand false 0))
  else .negative significand

/-- Read what may follow the digits of an integer that fits. -/
def finishInteger (positive : Bool) (significand : Nat) (r : Reader) :
    Except Failure (Number × Reader) :=
  match r.rest with
  | 46 :: _ => readFraction positive significand 0 r
  | 101 :: _ => readExponent positive significand 0 r
  | 69 :: _ => readExponent positive significand 0 r
  | _ => .ok (integer positive significand, r)

/-- Read a number behind its sign; a leading zero stands alone. -/
def readNumber (positive : Bool) (r : Reader) : Except Failure (Number × Reader) :=
  match r.rest with
  | [] => r.fail .endInValue
  | b :: bs =>
    if b = 48 then
      let r := r.skip 1
      if r.atDigit then r.failNext .invalidNumber else finishInteger positive 0 r
    else if isDigit b then
      let (significand, r) := readWithin maxSignificand (digit b) (r.offset + 1) bs
      if r.atDigit then
        let r' := r.skipDigits
        finishLong positive significand (r'.offset - r.offset : Nat) r'
      else finishInteger positive significand r
    else (r.skip 1).fail .invalidNumber

end TapeMachine.Json
