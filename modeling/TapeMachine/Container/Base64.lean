/-!
# Base64

Bytes written with the sixty-four symbols of the standard alphabet, three bytes in four symbols, the
last group filled up with `=`. Reading accepts exactly what writing produces: the padding has to be
there, nothing may stand between the symbols, and the bits that padding leaves over have to be zero.
-/

namespace TapeMachine.Base64

/-- The symbol of a number below sixty-four. -/
def symbol (n : Nat) : UInt8 :=
  if n < 26 then UInt8.ofNat (n + 65)
  else if n < 52 then UInt8.ofNat (n + 71)
  else if n < 62 then UInt8.ofNat (n - 4)
  else if n = 62 then 43
  else 47

/-- The number that a symbol stands for, if it is in the alphabet. -/
def value? (b : UInt8) : Option Nat :=
  if 65 ≤ b ∧ b ≤ 90 then some (b.toNat - 65)
  else if 97 ≤ b ∧ b ≤ 122 then some (b.toNat - 71)
  else if 48 ≤ b ∧ b ≤ 57 then some (b.toNat + 4)
  else if b = 43 then some 62
  else if b = 47 then some 63
  else none

/-- The byte that fills up the last group. -/
def pad : UInt8 := 61

/-- Write bytes in groups of three. -/
def encode : List UInt8 → List UInt8
  | [] => []
  | [a] => [symbol (a.toNat / 4), symbol (a.toNat % 4 * 16), pad, pad]
  | [a, b] =>
    [symbol (a.toNat / 4), symbol (a.toNat % 4 * 16 + b.toNat / 16), symbol (b.toNat % 16 * 4), pad]
  | a :: b :: c :: rest =>
    symbol (a.toNat / 4) :: symbol (a.toNat % 4 * 16 + b.toNat / 16) ::
      symbol (b.toNat % 16 * 4 + c.toNat / 64) :: symbol (c.toNat % 64) :: encode rest

/-- Why a text is not base64. -/
inductive Error where
  /-- A byte outside the alphabet, or padding in the wrong place. -/
  | invalidSymbol (byte : UInt8) (offset : Nat)
  /-- A single symbol in the last group. -/
  | invalidLength (length : Nat)
  /-- Too much or too little padding. -/
  | invalidPadding
  /-- A last symbol with bits that no byte holds. -/
  | invalidLastSymbol (byte : UInt8) (offset : Nat)
deriving DecidableEq

/-- The text of an error. -/
def Error.message : Error → String
  | invalidSymbol byte offset =>
    "Invalid symbol " ++ toString byte.toNat ++ ", offset " ++ toString offset ++ "."
  | invalidLength length => "Invalid input length: " ++ toString length
  | invalidPadding => "Invalid padding"
  | invalidLastSymbol byte offset =>
    "Invalid last symbol " ++ toString byte.toNat ++ ", offset " ++ toString offset ++ "."

/-- Read symbols that start at an offset, up to the first byte outside the alphabet. -/
def values (offset : Nat) : List UInt8 → Except Error (List Nat)
  | [] => .ok []
  | b :: bs =>
    match value? b with
    | none => .error (.invalidSymbol b offset)
    | some v =>
      match values (offset + 1) bs with
      | .error e => .error e
      | .ok vs => .ok (v :: vs)

/-- Join the numbers of whole groups into bytes. -/
def join : List Nat → List UInt8
  | w :: x :: y :: z :: rest =>
    UInt8.ofNat (w * 4 + x / 16) :: UInt8.ofNat (x % 16 * 16 + y / 4) :: UInt8.ofNat (y % 4 * 64 + z) ::
      join rest
  | _ => []

/--
Split the last group, which starts at an offset, into symbols and padding. Padding may not start
before the third position, and nothing but padding may follow it.
-/
def splitPadding (offset : Nat) : (position : Nat) → List UInt8 → Except Error (List UInt8 × Nat)
  | _, [] => .ok ([], 0)
  | position, b :: bs =>
    if b = pad then
      if position < 2 then .error (.invalidSymbol pad (offset + position))
      else if bs.all (· == pad) then .ok ([], bs.length + 1)
      else .error (.invalidSymbol pad (offset + position))
    else
      match value? b with
      | none => .error (.invalidSymbol b (offset + position))
      | some _ =>
        match splitPadding offset (position + 1) bs with
        | .error e => .error e
        | .ok (symbols, padding) => .ok (b :: symbols, padding)

/-- Join the numbers of the last group, where the bits behind the last byte have to be zero. -/
def joinLast? : List Nat → Option (List UInt8)
  | [w, x] => if x % 16 = 0 then some [UInt8.ofNat (w * 4 + x / 16)] else none
  | [w, x, y] =>
    if y % 4 = 0 then some [UInt8.ofNat (w * 4 + x / 16), UInt8.ofNat (x % 16 * 16 + y / 4)] else none
  | [w, x, y, z] =>
    some [UInt8.ofNat (w * 4 + x / 16), UInt8.ofNat (x % 16 * 16 + y / 4), UInt8.ofNat (y % 4 * 64 + z)]
  | _ => none

/-- Read the last group, which starts at an offset. -/
def decodeLast (offset : Nat) (group : List UInt8) : Except Error (List UInt8) :=
  match splitPadding offset 0 group with
  | .error e => .error e
  | .ok (symbols, padding) =>
    if symbols.length < 2 then .error (.invalidLength (offset + symbols.length))
    else if symbols.length + padding ≠ 4 then .error .invalidPadding
    else
      match joinLast? (symbols.filterMap value?) with
      | some bytes => .ok bytes
      | none => .error (.invalidLastSymbol (symbols.getLast?.getD pad) (offset + symbols.length - 1))

/-- The length of the last group of a text. -/
def lastLength (length : Nat) : Nat := if length % 4 = 0 then 4 else length % 4

/--
Read base64. A stray last byte outside the alphabet is reported first, then the first fault of the
whole groups, then the fault of the last group.
-/
def decode (text : List UInt8) : Except Error (List UInt8) :=
  match text.getLast? with
  | none => .ok []
  | some last =>
    if text.length % 4 = 1 ∧ last ≠ pad ∧ value? last = none then
      .error (.invalidSymbol last (text.length - 1))
    else
      let split := text.length - lastLength text.length
      match values 0 (text.take split) with
      | .error e => .error e
      | .ok vs =>
        match decodeLast split (text.drop split) with
        | .error e => .error e
        | .ok bytes => .ok (join vs ++ bytes)

end TapeMachine.Base64
