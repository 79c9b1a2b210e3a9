import TapeMachine.Session.Handle

/-!
# Running a session

A session prompts for a line, handles it and goes on until a line asks to exit or the input ends.
Errors of a line are shown and do not end the session; errors of the terminal itself do.
-/

namespace TapeMachine.Session

/-- The version that is shown. -/
def version : String := "0.1.0"

/-- The pieces of the greeting. -/
def greetingPieces (s : Session) : List String :=
  answerStyle.line s.colors ("Brainf**k REPL " ++ version ++ ", type `help` for commands")

/-- The pieces of the prompt. -/
def promptPieces (s : Session) : List String :=
  ["\n"] ++ promptStyle.pieces s.colors ">" ++ [" "]

/-- The pieces that show an error. -/
def errorPieces (s : Session) (e : Error) : List String :=
  errorStyle.line s.colors ("Error: " ++ e.message)

/-- Prompt and read one line. -/
def readLine (s : Session) : Except IoError (Option String) × Session :=
  match s.print s.promptPieces with
  | (.error e, s) => (.error e, s)
  | (.ok (), s) =>
    let (r, terminal) := s.terminal.readLine
    (r, { s with terminal })

/-- Handle lines until the session ends; each round takes one unit of fuel. -/
def handleLines (files : FileTree) : (fuel : Nat) → Session → Option (Except IoError Unit × Session)
  | 0, _ => none
  | fuel + 1, s =>
    match s.readLine with
    | (.error e, s) => some (.error e, s)
    | (.ok none, s) => some (.ok (), s)
    | (.ok (some line), s) =>
      match s.handle fuel files line with
      | none => none
      | some (.ok .exits, s) => some (.ok (), s)
      | some (.ok .continues, s) => handleLines files fuel s
      | some (.error e, s) =>
        match s.print (s.errorPieces e) with
        | (.error e, s) => some (.error e, s)
        | (.ok (), s) => handleLines files fuel s

/-- Say goodbye and flush. -/
def close (s : Session) : Except IoError Unit × Session :=
  match s.print (answerStyle.line s.colors "Bye!") with
  | (.error e, s) => (.error e, s)
  | (.ok (), s) =>
    let (r, terminal) := s.terminal.flush
    (r, { s with terminal })

/-- Run a session from its greeting to its end. -/
def run (fuel : Nat) (files : FileTree) (s : Session) : Option (Except IoError Unit × Session) :=
  match s.print s.greetingPieces with
  | (.error e, s) => some (.error e, s)
  | (.ok (), s) =>
    match s.handleLines files fuel with
    | none => none
    | some (.error e, s) => some (.error e, s)
    | some (.ok (), s) => some s.close

end TapeMachine.Session
