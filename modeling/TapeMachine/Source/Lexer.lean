import TapeMachine.Opcode

/-!
# Tokens of a source text

A lexer walks a source text one code point at a time, keeps its place, and yields a token for every
instruction character. Lines and columns count from one, and a newline ends its own line.
-/

namespace TapeMachine

/-- An instruction character and the place where it stands. -/
structure Token where
  opcode : Opcode
  /-- The line, counted from one. -/
  line : Nat
  /-- The column in code points, counted from one. -/
  column : Nat
deriving DecidableEq

/-- The place of the next unread code point. -/
structure Place where
  line : Nat := 1
  column : Nat := 1
  /-- How many code points come before. -/
  offset : Nat := 0
deriving DecidableEq

/-- The place behind a code point. -/
def Place.after (p : Place) (c : Char) : Place :=
  if c = '\n' then ⟨p.line + 1, 1, p.offset + 1⟩ else ⟨p.line, p.column + 1, p.offset + 1⟩

/-- A place in a source text and the text from there on. -/
structure Lexer where
  place : Place
  rest : List Char
deriving DecidableEq

namespace Lexer

/-- Stand at the start of a source text. -/
def ofString (source : String) : Lexer := ⟨{}, source.toList⟩

/-- Skip comments from a place and read one token, if there is one left. -/
def scan (p : Place) : List Char → Option Token × Lexer
  | [] => (none, ⟨p, []⟩)
  | c :: cs =>
    match Opcode.ofChar? c with
    | some op => (some ⟨op, p.line, p.column⟩, ⟨p.after c, cs⟩)
    | none => scan (p.after c) cs

/-- Read the next token, leaving the lexer right behind it, or at the end when there is none. -/
def next? (l : Lexer) : Option Token × Lexer := scan l.place l.rest

/-- Read up to `n` tokens. -/
def take : Nat → Lexer → List Token × Lexer
  | 0, l => ([], l)
  | n + 1, l =>
    match l.next? with
    | (none, l) => ([], l)
    | (some token, l) =>
      let (tokens, l) := l.take n
      (token :: tokens, l)

/-- All tokens from a place on. -/
def tokensFrom (p : Place) : List Char → List Token
  | [] => []
  | c :: cs =>
    match Opcode.ofChar? c with
    | some op => ⟨op, p.line, p.column⟩ :: tokensFrom (p.after c) cs
    | none => tokensFrom (p.after c) cs

/-- All tokens that are left. -/
def tokens (l : Lexer) : List Token := tokensFrom l.place l.rest

/-- The first of the remaining tokens is the one read next. -/
theorem tokens_eq_of_next? (l : Lexer) :
    l.tokens = match l.next? with
      | (none, _) => []
      | (some token, l) => token :: l.tokens := by
  obtain ⟨p, cs⟩ := l
  simp only [tokens, next?]
  induction cs generalizing p with
  | nil => rfl
  | cons c cs ih =>
    simp only [tokensFrom, scan]
    cases Opcode.ofChar? c with
    | none => exact ih _
    | some op => rfl

end Lexer

end TapeMachine
