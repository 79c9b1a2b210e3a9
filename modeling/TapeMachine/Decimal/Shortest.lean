/-!
# The shortest decimal of a floating-point number

Of all decimals that read back as a given double, the shortest one is written, and of several of
that length the nearest, a tie going to the even digit. The decimals that read back are those in the
rounding interval around the number: half the gap to its neighbors on either side, with the ends
when the significand is even. All comparisons are made in natural numbers.
-/

namespace TapeMachine.Decimal

/-- A power of two. -/
def twoTo (n : Nat) : Nat := Nat.pow 2 n

/-- A power of ten. -/
def tenTo (n : Nat) : Nat := Nat.pow 10 n

/-- The number `digits · 10 ^ exponent`. -/
structure Scaled where
  digits : Nat
  exponent : Int

/-- A positive double `significand · 2 ^ exponent` with its rounding interval. -/
structure Binary where
  significand : Nat
  exponent : Int
  /-- Whether the gap below is half as wide as the gap above. -/
  narrowBelow : Bool

/-- Take a positive finite double apart. -/
def Binary.ofFloat (x : Float) : Binary :=
  let bits := x.toBits.toNat
  let fraction := bits % twoTo 52
  let biased := bits / twoTo 52 % twoTo 11
  if biased = 0 then ⟨fraction, -1074, false⟩
  else ⟨twoTo 52 + fraction, Int.ofNat biased - 1075, fraction = 0 && biased > 1⟩

/-- A fraction of natural numbers. -/
structure Ratio where
  num : Nat
  den : Nat

/-- Compare `n · 10 ^ k` with a fraction. -/
def Ratio.compareTo (r : Ratio) (n : Nat) (k : Int) : Ordering :=
  compare (n * tenTo k.toNat * r.den) (r.num * tenTo (-k).toNat)

/-- The fraction `n · 2 ^ k`. -/
def Ratio.ofBinary (n : Nat) (k : Int) : Ratio := ⟨n * twoTo k.toNat, twoTo (-k).toNat⟩

namespace Binary

/-- The exact value. -/
def value (b : Binary) : Ratio := .ofBinary (4 * b.significand) (b.exponent - 2)

/-- The lower end of the rounding interval. -/
def lower (b : Binary) : Ratio :=
  .ofBinary (4 * b.significand - if b.narrowBelow then 1 else 2) (b.exponent - 2)

/-- The upper end of the rounding interval. -/
def upper (b : Binary) : Ratio := .ofBinary (4 * b.significand + 2) (b.exponent - 2)

/-- Whether `n · 10 ^ k` lies in the rounding interval. -/
def accepts (b : Binary) (n : Nat) (k : Int) : Bool :=
  let ends := b.significand % 2 == 0
  let below := b.lower.compareTo n k
  let above := b.upper.compareTo n k
  (below == .gt || (ends && below == .eq)) && (above == .lt || (ends && above == .eq))

/-- The largest `n` for which `n · 10 ^ k` is not above the value. -/
def floorAt (b : Binary) (k : Int) : Nat :=
  b.value.num * tenTo (-k).toNat / (b.value.den * tenTo k.toNat)

/-- The nearest decimal with exponent `k` in the rounding interval, if there is one. -/
def nearestAt? (b : Binary) (k : Int) : Option Scaled :=
  let n := b.floorAt k
  match b.accepts n k && n != 0, b.accepts (n + 1) k with
  | false, false => none
  | true, false => some ⟨n, k⟩
  | false, true => some ⟨n + 1, k⟩
  | true, true =>
    -- twice the value against the middle of the two
    match (Ratio.mk (2 * b.value.num) b.value.den).compareTo (2 * n + 1) k with
    | .lt => some ⟨n + 1, k⟩
    | .gt => some ⟨n, k⟩
    | .eq => some ⟨if n % 2 = 0 then n else n + 1, k⟩

/-- The decimal with the largest exponent, from `k` down, that lies in the rounding interval. -/
def coarsest (b : Binary) : Nat → Int → Scaled
  | 0, k => ⟨b.floorAt k, k⟩
  | n + 1, k => (b.nearestAt? k).getD (b.coarsest n (k - 1))

/-- The decimal exponent of the first digit, or one more. -/
def leadingExponent (b : Binary) : Int :=
  Int.ofNat (Nat.toDigits 10 b.value.num).length - Int.ofNat (Nat.toDigits 10 b.value.den).length

/-- The shortest decimal that reads back as the number. -/
def shortest (b : Binary) : Scaled := b.coarsest 20 (b.leadingExponent + 1)

end Binary

/-- Move the zeros at the end of the digits into the exponent. -/
def Scaled.stripZeros (s : Scaled) : Nat → Scaled
  | 0 => s
  | n + 1 =>
    if s.digits != 0 && s.digits % 10 == 0 then Scaled.stripZeros ⟨s.digits / 10, s.exponent + 1⟩ n else s

/-- How decimals are laid out. -/
structure Layout where
  /-- The least exponent of a first digit that is written without an exponent. -/
  least : Int
  /-- The greatest exponent of a first digit that is written without an exponent. -/
  greatest : Int
  /-- What marks an exponent that is not negative. -/
  positiveMark : String
  /-- What marks a negative exponent. -/
  negativeMark : String

/-- Write digits with a point somewhere, and always at least one digit on either side of it. -/
def plainText (digits : List Char) (exponent : Int) : String :=
  let leading := exponent + digits.length - 1
  if 0 ≤ exponent then String.ofList (digits ++ List.replicate exponent.toNat '0') ++ ".0"
  else if 0 ≤ leading then
    let (whole, fraction) := digits.splitAt (leading.toNat + 1)
    String.ofList whole ++ "." ++ String.ofList fraction
  else "0." ++ String.ofList (List.replicate (-leading - 1).toNat '0' ++ digits)

/-- Write digits with a point behind the first, if there are more, and with an exponent. -/
def scientificText (layout : Layout) (digits : List Char) (exponent : Int) : String :=
  let leading := exponent + digits.length - 1
  let fraction := if digits.length ≤ 1 then "" else "." ++ String.ofList digits.tail
  let mark := if leading < 0 then layout.negativeMark else layout.positiveMark
  String.ofList (digits.take 1) ++ fraction ++ mark ++ toString leading.natAbs

/-- Write a decimal, plainly where its first digit stands in the range of the layout. -/
def Scaled.text (layout : Layout) (s : Scaled) : String :=
  let s := s.stripZeros 20
  let digits := Nat.toDigits 10 s.digits
  let leading := s.exponent + digits.length - 1
  if layout.least ≤ leading ∧ leading ≤ layout.greatest then plainText digits s.exponent
  else scientificText layout digits s.exponent

/-- The text of a finite double. -/
def floatText (layout : Layout) (x : Float) : String :=
  let sign := if x.toBits.toNat ≥ twoTo 63 then "-" else ""
  let magnitude := x.abs
  if magnitude == 0.0 then sign ++ "0.0" else sign ++ (Binary.ofFloat magnitude).shortest.text layout

end TapeMachine.Decimal
