/-!
# Blank characters and words

Words of a line are what stands between blank characters.
-/

namespace TapeMachine.Text

/-- The characters with the property `White_Space`. -/
def isBlank (c : Char) : Bool :=
  let n := c.toNat
  (9 ≤ n && n ≤ 13) || n == 0x20 || n == 0x85 || n == 0xA0 || n == 0x1680 ||
    (0x2000 ≤ n && n ≤ 0x200A) || n == 0x2028 || n == 0x2029 || n == 0x202F || n == 0x205F ||
    n == 0x3000

/-- Cut the first word off a line; it is empty when the line is blank. -/
def cutWord (line : List Char) : List Char × List Char :=
  let line := line.dropWhile isBlank
  (line.takeWhile fun c => !isBlank c, line.dropWhile fun c => !isBlank c)

/-- The bytes of ASCII blanks: space, tab, newline, form feed and carriage return. -/
def isBlankByte (b : UInt8) : Bool := b == 32 || b == 9 || b == 10 || b == 12 || b == 13

/-- Remove ASCII blanks from both ends. -/
def trimBlankBytes (bytes : List UInt8) : List UInt8 :=
  ((bytes.dropWhile isBlankByte).reverse.dropWhile isBlankByte).reverse

end TapeMachine.Text
