import TapeMachine.Console.IoError
import TapeMachine.Files.Path
import TapeMachine.Text.Utf8

/-!
# File trees

A file tree maps places to files and directories, where a place is the list of names that leads to
it from the root. A path is followed name by name, from the root or from the home directory, in
which the program works: through directories only, with single dots staying and double dots going
back. Paths and names have a greatest length in bytes. That of the path is looked at before all names
on it, and that of a name when the directory in which it is looked up has been reached.
-/

namespace TapeMachine

/-- What stands at a place. -/
inductive Entry where
  | file (bytes : List UInt8)
  | directory
deriving DecidableEq

/-- Files and directories, and the place of the home directory. -/
structure FileTree where
  entries : List (List String × Entry) := []
  home : List String := []
deriving DecidableEq

namespace FileTree

/-- What stands at a place; the empty place is the root. -/
def get? (t : FileTree) (place : List String) : Option Entry :=
  if place.isEmpty then some .directory else t.entries.lookup place

/-- Put an entry at a place, over what stood there. -/
def insert (t : FileTree) (place : List String) (entry : Entry) : FileTree :=
  if (t.entries.lookup place).isSome then
    { t with entries := t.entries.map fun (key, old) => (key, if key = place then entry else old) }
  else { t with entries := t.entries ++ [(place, entry)] }

/-- The greatest number of bytes of a name. -/
def maxNameBytes : Nat := 255

/-- The greatest number of bytes of a path. -/
def maxPathBytes : Nat := 4095

/-- Follow the parts of a path from a place, with the names of the place in reverse. -/
def follow (t : FileTree) : List String → (here : List String) → Except IoError (List String)
  | [], here => .ok here
  | part :: parts, here =>
    match t.get? here.reverse with
    | none => .error .notFound
    | some (.file _) => .error .notADirectory
    | some .directory =>
      if part = "" ∨ part = "." then t.follow parts here
      else if part = ".." then t.follow parts here.tail
      else if maxNameBytes < part.utf8ByteSize then .error .nameTooLong
      else t.follow parts (part :: here)

/-- The place that a path leads to, whether or not something stands there. -/
def resolve (t : FileTree) (path : String) : Except IoError (List String) :=
  let start := if path.toList.head? = some '/' then [] else t.home.reverse
  if path.toList.contains '\x00' then .error .nullInPath
  else if path.isEmpty then .error .notFound
  else if maxPathBytes < path.utf8ByteSize then .error .nameTooLong
  else (t.follow ((Path.split path.toList).map String.ofList) start).map List.reverse

/-- Read the file at a path. -/
def read (t : FileTree) (path : String) : Except IoError (List UInt8) :=
  match t.resolve path with
  | .error e => .error e
  | .ok place =>
    match t.get? place with
    | none => .error .notFound
    | some .directory => .error .isADirectory
    | some (.file bytes) => .ok bytes

/-- Read the text in the file at a path. -/
def readText (t : FileTree) (path : String) : Except IoError String :=
  match t.read path with
  | .error e => .error e
  | .ok bytes =>
    match Text.ofBytes? bytes with
    | none => .error .invalidUtf8
    | some text => .ok text

/-- Write the file at a path, over an old one; its directory has to be there. -/
def write (t : FileTree) (path : String) (bytes : List UInt8) : Except IoError FileTree :=
  match t.resolve path with
  | .error e => .error e
  | .ok place =>
    match t.get? place with
    | some .directory => .error .isADirectory
    | _ => .ok (t.insert place (.file bytes))

/--
Put an entry where the names on a path lead from a place, and make the directories on the way. The
names of the place are given in reverse.
-/
def plant (t : FileTree) (entry : Entry) : List String → (here : List String) → FileTree
  | [], _ => t
  | name :: names, here =>
    if name = ".." then t.plant entry names here.tail
    else
      let place := (name :: here).reverse
      if names.isEmpty then t.insert place entry
      else (t.insert place .directory).plant entry names (name :: here)

/-- The tree with nothing but a home directory. -/
def create (home : List String) : FileTree := ({ home } : FileTree).plant .directory home []

/-- The names on a path, without the parts that name nothing. -/
def names (path : String) : List String :=
  ((Path.split path.toList).filter fun part => !Path.isVoid part).map String.ofList

/-- Put an entry at a path below the home directory, and make the directories on the way. -/
def add (t : FileTree) (path : String) (entry : Entry) : FileTree :=
  t.plant entry (names path) t.home.reverse

/-- The paths below the home directory and the contents of all files there. -/
def files (t : FileTree) : List (String × List UInt8) :=
  t.entries.filterMap fun (place, entry) =>
    match entry with
    | .file bytes =>
      if t.home.isPrefixOf place then some ("/".intercalate (place.drop t.home.length), bytes) else none
    | .directory => none

end FileTree

end TapeMachine
