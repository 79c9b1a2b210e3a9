import TapeMachine.Source.Lexer

/-!
# Balanced brackets

Loop brackets balance when every closing one has an opening one before it and every opening one is
closed. The check reads from where a lexer stands and names one bracket at fault: the first closing
one without a partner, or else the last opening one that stays open.
-/

namespace TapeMachine

/-- The side of a loop bracket. -/
inductive Bracket where
  | opening
  | closing
deriving DecidableEq

/-- The character of a bracket. -/
def Bracket.char : Bracket → Char
  | opening => '['
  | closing => ']'

/-- The side that a bracket has to meet. -/
def Bracket.partner : Bracket → Bracket
  | opening => closing
  | closing => opening

/-- A bracket without a partner and the place where it stands. -/
structure Unbalanced where
  bracket : Bracket
  line : Nat
  column : Nat
deriving DecidableEq

/-- Say which bracket is missing for which one. -/
def Unbalanced.message (e : Unbalanced) : String :=
  "Can't find other symbol (" ++ e.bracket.partner.char.toString ++ ") for " ++
    e.bracket.char.toString ++ " at line " ++ toString e.line ++ ", column " ++ toString e.column

namespace Lexer

/-- Check the brackets from a place on, with the places of the open brackets, innermost first. -/
def balanceFrom (p : Place) (opened : List Place) : List Char → Except Unbalanced Unit × Lexer
  | [] =>
    match opened with
    | [] => (.ok (), ⟨p, []⟩)
    | q :: _ => (.error ⟨.opening, q.line, q.column⟩, ⟨p, []⟩)
  | c :: cs =>
    match Opcode.ofChar? c with
    | some .loopStart => balanceFrom (p.after c) (p :: opened) cs
    | some .loopEnd =>
      match opened with
      | [] => (.error ⟨.closing, p.line, p.column⟩, ⟨p.after c, cs⟩)
      | _ :: opened => balanceFrom (p.after c) opened cs
    | _ => balanceFrom (p.after c) opened cs

/-- Check the brackets of what is left, stopping right behind a closing bracket at fault. -/
def checkBalanced (l : Lexer) : Except Unbalanced Unit × Lexer := balanceFrom l.place [] l.rest

end Lexer

/-- Check the brackets of a whole source text. -/
def checkBalanced (source : String) : Except Unbalanced Unit :=
  (Lexer.ofString source).checkBalanced.1

end TapeMachine
