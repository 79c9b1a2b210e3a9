import TapeMachine.Text.Unprintable

/-!
# Quoted text

A text in quotes, as messages show it: quotes and backslashes get a backslash, the common control
characters have letters, and characters that would not show are written by number in braces.
-/

namespace TapeMachine.Text

/-- How a character is written inside quotes. -/
def escape (c : Char) : String :=
  match c with
  | '\x00' => "\\0"
  | '\t' => "\\t"
  | '\r' => "\\r"
  | '\n' => "\\n"
  | '"' => "\\\""
  | '\\' => "\\\\"
  | c =>
    if isUnprintable c then "\\u\x7b" ++ String.ofList (Nat.toDigits 16 c.toNat) ++ "\x7d"
    else c.toString

/-- A text in quotes. -/
def quoted (text : String) : String := "\"" ++ String.join (text.toList.map escape) ++ "\""

end TapeMachine.Text
