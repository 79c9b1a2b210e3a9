import TapeMachine.Debugger
import TapeMachine.Files.Load
import TapeMachine.Session.Command

/-!
# Sessions

A session keeps one machine alive over many lines, together with its terminal, its modes and the
file that was loaded last. What it prints is a list of pieces, written up to the first failure.
-/

namespace TapeMachine

/-- The switches of a session. -/
structure Modes where
  /-- Show the state after every line of code. -/
  feedback : Bool := false
  /-- Step through code. -/
  debug : Bool := false
  /-- Keep the tape from one line to the next. -/
  continuous : Bool := true
deriving DecidableEq

/-- Whether a session goes on after a line. -/
inductive Flow where
  | continues
  | exits
deriving DecidableEq

/-- The state of a session. -/
structure Session where
  terminal : Terminal
  /-- Where listings go. -/
  diagnostics : Sink := {}
  /-- Whether styled text is written with colors. -/
  colors : Bool := false
  sizing : Sizing
  machine : Machine := .new sizing
  modes : Modes := {}
  /-- The last file that was loaded with success. -/
  loadedFile : Option String := none

namespace Session

/-- The style of answers. -/
def answerStyle : Style := { italic := true, color := some .cyan }

/-- The style of notices. -/
def noticeStyle : Style := { italic := true, color := some .yellow }

/-- The style of the help text. -/
def helpStyle : Style := { italic := true }

/-- The style of error messages. -/
def errorStyle : Style := { bold := true, color := some .red }

/-- The style of the prompt. -/
def promptStyle : Style := { bold := true, color := some .green }

/-- The text of the command `help`. -/
def helpText : String :=
  "\n".intercalate
    [ "Commands:",
      "    exit, q        leave the repl",
      "    tape           show the touched part of the tape",
      "    cell           show the cell under the pointer",
      "    index          show the pointer and the highest index reached",
      "    info           show the machine state and the repl modes",
      "    reset          zero the tape and forget the loaded file",
      "    feedback       toggle printing the state after every line",
      "    debug          toggle stepping through executed code, enter runs one instruction",
      "    continuous     toggle keeping the tape between lines",
      "    load <file>    run a .bf file in this session or a .bfc file on its own tape",
      "    reload         load the last loaded file again",
      "    clear          clear the screen",
      "    help           show this message",
      "Anything else is run as code." ]

/-- The text of a switch. -/
def onOff (flag : Bool) : String := if flag then "on" else "off"

/-- The sequence that clears a screen. -/
def clearScreen : String := "\x1b[2J"

/-- The pieces that show the touched part of the tape. -/
def tapePieces (s : Session) : List String :=
  answerStyle.line s.colors (cellsText s.machine.tape.window)

/-- The pieces that show the current cell. -/
def cellPieces (s : Session) : List String :=
  answerStyle.line s.colors
    ("Cell [" ++ toString s.machine.pointer ++ "]        = " ++ cellText s.machine.currentCell)

/-- The pieces that show the pointer and the highest index. -/
def indexPieces (s : Session) : List String :=
  answerStyle.line s.colors
    ("Index           = " ++ toString s.machine.pointer ++ "\nMaxKnownIndex   = " ++
      toString s.machine.tape.highest)

/-- The pieces that show the state of the machine. -/
def statePieces (s : Session) : List String := s.indexPieces ++ s.cellPieces ++ s.tapePieces

/-- The pieces that show the modes. -/
def modesPieces (s : Session) : List String :=
  answerStyle.line s.colors
    ("Feedback        = " ++ onOff s.modes.feedback ++ "\nContinuous      = " ++
      onOff s.modes.continuous ++ "\nDebug           = " ++ onOff s.modes.debug)

/-- The pieces of a notice. -/
def noticePieces (s : Session) (text : String) : List String := noticeStyle.line s.colors text

/-- Write pieces to the terminal, up to the first failure. -/
def print (s : Session) (pieces : List String) : Except IoError Unit × Session :=
  let (r, terminal) := s.terminal.print pieces
  (r, { s with terminal })

/-- Write pieces as all that is left of a command. -/
def answer (s : Session) (pieces : List String) : Except Error Unit × Session :=
  match s.print pieces with
  | (.error e, s) => (.error (.io e), s)
  | (.ok (), s) => (.ok (), s)

end Session

end TapeMachine
