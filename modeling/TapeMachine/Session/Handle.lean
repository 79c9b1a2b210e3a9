import TapeMachine.Session.Basic

/-!
# Handling lines

A line of code is checked, compiled and run on the session's machine, under the debugger in debug
mode. A source file is run like a line of code, after a reset; a stored program runs on a machine of
its own. Runs take fuel, and nothing is returned when it ends first.
-/

namespace TapeMachine.Session

/-- Run a program on the session's machine. -/
def launch (fuel : Nat) (p : Program) (s : Session) : Option (Except RuntimeError Unit × Session) :=
  if s.modes.debug then
    match s.machine.debug s.colors true fuel p s.terminal s.diagnostics with
    | none => none
    | some (r, machine, terminal, diagnostics) => some (r, { s with machine, terminal, diagnostics })
  else
    match s.machine.run fuel p s.terminal with
    | none => none
    | some (r, machine, terminal) => some (r, { s with machine, terminal })

/-- What follows a run that succeeded: feedback, and a reset unless the tape is kept. -/
def conclude (s : Session) : Except Error Unit × Session :=
  let (r, s) := if s.modes.feedback then s.answer (["", "\n"] ++ s.statePieces) else (.ok (), s)
  match r with
  | .error e => (.error e, s)
  | .ok () => (.ok (), if s.modes.continuous then s else { s with machine := s.machine.reset })

/-- Run a source text on the session's machine. -/
def execute (fuel : Nat) (source : String) (s : Session) : Option (Except Error Unit × Session) :=
  match compileChecked source with
  | .error e => some (.error (.source e), s)
  | .ok p =>
    match s.launch fuel p with
    | none => none
    | some (.error e, s) => some (.error (.runtime e), s)
    | some (.ok (), s) => some s.conclude

/-- Remember a file that was loaded with success. -/
def remember (path : String) (r : Except Error Unit) (s : Session) : Except Error Unit × Session :=
  match r with
  | .error e => (.error e, s)
  | .ok () => (.ok (), { s with loadedFile := some path })

/-- Run a source file on the session's machine, from a clean tape. -/
def loadSource (fuel : Nat) (files : FileTree) (path : String) (s : Session) :
    Option (Except Error Unit × Session) :=
  match files.readText path with
  | .error e => some (.error (.io e), s)
  | .ok source => execute fuel source { s with machine := s.machine.reset }

/-- Run a stored program on a machine of its own. -/
def loadStored (fuel : Nat) (files : FileTree) (path : String) (s : Session) :
    Option (Except Error Unit × Session) :=
  match files.readProgram path with
  | .error e => some (.error (.format e), s)
  | .ok p =>
    match Machine.runFresh fuel s.sizing p s.terminal with
    | none => none
    | some (.error e, _, terminal) => some (.error (.runtime e), { s with terminal })
    | some (.ok (), _, terminal) => some (.ok (), { s with terminal })

/-- Run the file at a path, by its kind. -/
def load (fuel : Nat) (files : FileTree) (path : String) (s : Session) :
    Option (Except Error Unit × Session) :=
  match Path.kind path with
  | .source => (s.loadSource fuel files path).map fun (r, s) => s.remember path r
  | .stored => (s.loadStored fuel files path).map fun (r, s) => s.remember path r
  | .unknown => some (.error (.unknownFileType path), s)

/-- Carry out a command other than `exit`. -/
def perform (fuel : Nat) (files : FileTree) (command : Command) (s : Session) :
    Option (Except Error Unit × Session) :=
  match command with
  | .exit => some (.ok (), s)
  | .tape => some (s.answer s.tapePieces)
  | .cell => some (s.answer s.cellPieces)
  | .index => some (s.answer s.indexPieces)
  | .info => some (s.answer (s.statePieces ++ s.modesPieces))
  | .reset =>
    let s := { s with machine := s.machine.reset, loadedFile := none }
    some (s.answer (s.noticePieces "The tape has been reset."))
  | .feedback =>
    let s := { s with modes.feedback := !s.modes.feedback }
    some (s.answer (s.noticePieces ("Feedback mode " ++ onOff s.modes.feedback ++ ".")))
  | .debug =>
    let s := { s with modes.debug := !s.modes.debug }
    some (s.answer (s.noticePieces ("Debug mode " ++ onOff s.modes.debug ++ ".")))
  | .continuous =>
    let s := { s with modes.continuous := !s.modes.continuous }
    some (s.answer (s.noticePieces ("Continuous mode " ++ onOff s.modes.continuous ++ ".")))
  | .load (some path) => s.load fuel files path
  | .load none => some (.error (.misuse .missingFileName), s)
  | .reload =>
    match s.loadedFile with
    | some path => s.load fuel files path
    | none => some (.error (.misuse .nothingLoaded), s)
  | .clear => some (s.answer [clearScreen])
  | .help => some (s.answer (helpStyle.line s.colors helpText))
  | .code source => s.execute fuel source

/-- Handle one line and tell whether the session goes on. -/
def handle (fuel : Nat) (files : FileTree) (line : String) (s : Session) :
    Option (Except Error Flow × Session) :=
  match Command.parse line with
  | .exit => some (.ok .exits, s)
  | command =>
    match s.perform fuel files command with
    | none => none
    | some (.error e, s) => some (.error e, s)
    | some (.ok (), s) => some (.ok .continues, s)

end TapeMachine.Session
