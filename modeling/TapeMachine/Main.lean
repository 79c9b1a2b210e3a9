import TapeMachine.CommandLine.Surroundings

/-!
# The program

Collects what a command line needs, carries it out, and passes on what it leaves behind.
-/

namespace TapeMachine

/-- Read a stream to its end. -/
partial def readAll (stream : IO.FS.Stream) (bytes : ByteArray) : IO ByteArray := do
  let more ← stream.read 65536
  if more.isEmpty then return bytes else readAll stream (bytes ++ more)

/-- What stands at a path outside. -/
def lookOutside (path : String) : IO (Option Entry) := do
  if ← ((← IO.currentDir) / path).isDir then return some .directory
  try
    return some (.file (← IO.FS.readBinFile path).toList)
  catch _ => return none

/-- Take over all that stands on the way to the given paths. -/
def takeOver (tree : FileTree) (paths : List String) : IO FileTree := do
  let mut tree := tree
  for path in paths do
    for waypoint in CommandLine.waypoints path do
      match ← lookOutside waypoint with
      | none => pure ()
      | some entry => tree := CommandLine.learn tree waypoint entry
  return tree

/-- More steps than a run can take. -/
def plentyOfFuel : Nat := 1000000000000000000

end TapeMachine

open TapeMachine in
/-- Carry out a command line and return its exit code. -/
def main (words : List String) : IO UInt32 := do
  let stdout ← IO.getStdout
  let stderr ← IO.getStderr
  let colors := CommandLine.wantsColors (← IO.getEnv "CLICOLOR_FORCE") (← IO.getEnv "NO_COLOR")
    (← IO.getEnv "CLICOLOR") (← stdout.isTty)
  let input ← if CommandLine.readsInput words then readAll (← IO.getStdin) .empty else pure .empty
  let home := FileTree.names (← IO.currentDir).toString
  let before ← takeOver (.create home) (CommandLine.mentioned words input.toList)
  match CommandLine.execute colors plentyOfFuel words input.toList before with
  | none => return 1
  | some outcome =>
    for (path, bytes) in CommandLine.changes before outcome.files do
      IO.FS.writeBinFile path ⟨bytes.toArray⟩
    stdout.putStr outcome.stdout
    stdout.flush
    stderr.putStr outcome.stderr
    return UInt32.ofNat outcome.code
