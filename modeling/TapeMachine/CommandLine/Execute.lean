import TapeMachine.CommandLine.Invocation
import TapeMachine.Session.Run

/-!
# Carrying out the command line

A command works on the standard streams and the files, and ends with an exit code and an error
message if it failed. All that was written before a failure stays written.
-/

namespace TapeMachine.CommandLine

/-- What a command works on. -/
structure Desk where
  /-- Standard input and output. -/
  terminal : Terminal
  /-- Standard error. -/
  diagnostics : Sink := {}
  files : FileTree

/-- What a command leaves behind. -/
structure Outcome where
  code : Nat
  stdout : String
  stderr : String
  files : FileTree

/-- The style of the word that tells of a compiled file. -/
def compiledStyle : Style := { color := some .green }

/-- The style of the word that announces the debugger. -/
def debuggingStyle : Style := { color := some .blue }

/-- The name and version of the program. -/
def versionText : String := "bfvm " ++ Session.version ++ "\n"

namespace Desk

/-- Write pieces to standard output. -/
def print (pieces : List String) (d : Desk) : Desk :=
  { d with terminal := (d.terminal.print pieces).2 }

/-- Run files one after the other, each on a machine of its own, up to the first failure. -/
def runFiles (fuel : Nat) (sizing : Sizing) : List String → Desk → Option (Except Error Unit × Desk)
  | [], d => some (.ok (), d)
  | file :: rest, d =>
    match d.files.loadProgram file with
    | .error e => some (.error e, d)
    | .ok p =>
      match Machine.runFresh fuel sizing p d.terminal with
      | none => none
      | some (.error e, _, terminal) => some (.error (.runtime e), { d with terminal })
      | some (.ok (), _, terminal) => runFiles fuel sizing rest { d with terminal }

/-- Compile files one after the other, up to the first failure. -/
def compileFiles (colors : Bool) : List String → Desk → Except Error Unit × Desk
  | [], d => (.ok (), d)
  | file :: rest, d =>
    match d.files.compileFile file with
    | (.error e, files) => (.error e, { d with files })
    | (.ok output, files) =>
      let pieces := compiledStyle.pieces colors "Compiled" ++ [" ", file, " -> ", output, "\n"]
      compileFiles colors rest ({ d with files }.print pieces)

/-- Show the source of a stored program. -/
def decompileFile (file : String) (d : Desk) : Except Error Unit × Desk :=
  if Path.kind file = .stored then
    match d.files.readProgram file with
    | .error e => (.error (.format e), d)
    | .ok p => (.ok (), d.print [TapeMachine.decompile p, "\n"])
  else (.error (.unknownFileType file), d)

/-- Run a file under the debugger, with its listing on standard error. -/
def debugFile (colors : Bool) (fuel : Nat) (sizing : Sizing) (file : String) (pausing : Bool) (d : Desk) :
    Option (Except Error Unit × Desk) :=
  match d.files.loadProgram file with
  | .error e => some (.error e, d)
  | .ok p =>
    let d := d.print (debuggingStyle.pieces colors "Debugging" ++ [" ", file, "\n"])
    match (Machine.new sizing).debug colors pausing fuel p d.terminal d.diagnostics with
    | none => none
    | some (.error e, _, terminal, diagnostics) =>
      some (.error (.runtime e), { d with terminal, diagnostics })
    | some (.ok (), _, terminal, diagnostics) => some (.ok (), { d with terminal, diagnostics })

/-- Run a session on the standard streams. -/
def runSession (colors : Bool) (fuel : Nat) (sizing : Sizing) (d : Desk) :
    Option (Except Error Unit × Desk) :=
  let session : Session := { terminal := d.terminal, diagnostics := d.diagnostics, colors, sizing }
  match session.run fuel d.files with
  | none => none
  | some (r, s) =>
    let d := { d with terminal := s.terminal, diagnostics := s.diagnostics }
    match r with
    | .error e => some (.error (.io e), d)
    | .ok () => some (.ok (), d)

/-- Carry out an action. -/
def perform (colors : Bool) (fuel : Nat) (sizing : Sizing) (action : Action) (d : Desk) :
    Option (Except Error Unit × Desk) :=
  match action with
  | .run files => d.runFiles fuel sizing files
  | .compile files => some (d.compileFiles colors files)
  | .decompile file => some (d.decompileFile file)
  | .debug file pausing => d.debugFile colors fuel sizing file pausing
  | .repl => d.runSession colors fuel sizing

/-- Close a command: a failure is shown on standard error and gives the exit code one. -/
def close (colors : Bool) (r : Except Error Unit) (d : Desk) : Outcome :=
  match r with
  | .ok () => ⟨0, d.terminal.output.text, d.diagnostics.text, d.files⟩
  | .error e =>
    let pieces := Session.errorStyle.pieces colors "Error:" ++ [" ", e.message, "\n"]
    let diagnostics := (Writer.writeAll pieces d.diagnostics).2
    ⟨1, d.terminal.output.text, diagnostics.text, d.files⟩

end Desk

/-- The exit code of a command line that is refused. -/
def refusedCode : Nat := 2

/-- Carry out a command line on the given input and files. -/
def execute (colors : Bool) (fuel : Nat) (words : List String) (input : List UInt8) (files : FileTree) :
    Option Outcome :=
  match parse words with
  | none => some ⟨refusedCode, "", "", files⟩
  | some .version => some ⟨0, versionText, "", files⟩
  | some (.perform action sizing) =>
    (Desk.perform colors fuel sizing action { terminal := { input }, files }).map fun (r, d) =>
      d.close colors r

end TapeMachine.CommandLine
