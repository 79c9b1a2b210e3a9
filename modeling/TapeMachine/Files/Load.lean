import TapeMachine.Error
import TapeMachine.Files.Tree
import TapeMachine.Source.Compile

/-!
# Program files

Programs come from source files, which are checked and compiled as they are loaded, and from files
that hold a stored program. Which one a file is, its extension tells.
-/

namespace TapeMachine.FileTree

/-- Read the stored program at a path. -/
def readProgram (t : FileTree) (path : String) : Except FormatError Program :=
  match t.read path with
  | .error e => .error (.io e)
  | .ok data => deserialize data

/-- Store a program at a path. -/
def writeProgram (t : FileTree) (path : String) (p : Program) : Except FormatError FileTree :=
  match t.write path (serialize p) with
  | .error e => .error (.io e)
  | .ok t => .ok t

/-- Read a source file and compile it if its brackets balance. -/
def compileSource (t : FileTree) (path : String) : Except Error Program :=
  match t.readText path with
  | .error e => .error (.io e)
  | .ok source =>
    match compileChecked source with
    | .error e => .error (.source e)
    | .ok p => .ok p

/-- Read the program at a path, from its source or from its stored form. -/
def loadProgram (t : FileTree) (path : String) : Except Error Program :=
  match Path.kind path with
  | .source => t.compileSource path
  | .stored =>
    match t.readProgram path with
    | .error e => .error (.format e)
    | .ok p => .ok p
  | .unknown => .error (.unknownFileType path)

/-- Compile a source file into a stored program beside it, and tell the path of the new file. The files
are given back after a failure too, as they are then. -/
def compileFile (t : FileTree) (path : String) : Except Error String × FileTree :=
  if Path.kind path = .source then
    match t.compileSource path with
    | .error e => (.error e, t)
    | .ok p =>
      let output := Path.storedPath path
      match t.writeProgram output p with
      | .error e => (.error (.format e), t)
      | .ok t => (.ok output, t)
  else (.error (.unknownFileType path), t)

end TapeMachine.FileTree
