/-!
# Styled text

Styled text is written with terminal control sequences around it, or plainly where no colors are
wanted. It is written in pieces: a plain text is one piece, a styled one is the opening sequence,
the text and the closing sequence.
-/

namespace TapeMachine

/-- A text color. -/
inductive Color where
  | red
  | green
  | yellow
  | blue
  | cyan
deriving DecidableEq

/-- The control code of a color. -/
def Color.code : Color → String
  | red => "31"
  | green => "32"
  | yellow => "33"
  | blue => "34"
  | cyan => "36"

/-- How a text looks. -/
structure Style where
  bold : Bool := false
  italic : Bool := false
  color : Option Color := none

namespace Style

/-- The control codes of a style: bold, italic, color. -/
def codes (s : Style) : List String :=
  (if s.bold then ["1"] else []) ++ (if s.italic then ["3"] else []) ++ s.color.toList.map Color.code

/-- The sequence that starts a style. -/
def opening (s : Style) : String := "\x1b[" ++ ";".intercalate s.codes ++ "m"

/-- The sequence that ends every style. -/
def closing : String := "\x1b[0m"

/-- Start the style again behind every closing sequence inside a text. -/
def reopen (s : Style) (text : String) : String := text.replace closing (closing ++ s.opening)

/-- The pieces in which a styled text is written, with or without colors. -/
def pieces (s : Style) (colors : Bool) (text : String) : List String :=
  if colors && !s.codes.isEmpty then [s.opening, s.reopen text, closing] else [text]

/-- The pieces of a styled line. -/
def line (s : Style) (colors : Bool) (text : String) : List String := s.pieces colors text ++ ["\n"]

end Style

end TapeMachine
