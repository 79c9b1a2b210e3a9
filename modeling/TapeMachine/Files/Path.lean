/-!
# Paths

A path is a text whose parts stand between slashes. Its file name is the last part once empty parts
and single dots at the end are left out; a path that then ends in two dots, or has no part left, has
no file name. The extension is what follows the last dot of the file name, unless that dot comes
first.
-/

namespace TapeMachine.Path

/-- Split a path at its slashes. -/
def split : List Char → List (List Char)
  | [] => [[]]
  | c :: cs =>
    if c = '/' then [] :: split cs
    else
      match split cs with
      | [] => [[c]]
      | part :: parts => (c :: part) :: parts

/-- Put slashes between parts. -/
def join (parts : List (List Char)) : List Char := ['/'].intercalate parts

/-- Whether a part names nothing: it is empty or a single dot. -/
def isVoid (part : List Char) : Bool := part.isEmpty || part == ['.']

/-- The parts before the file name and the file name. -/
def locate? (path : List Char) : Option (List (List Char) × List Char) :=
  match (split path).reverse.dropWhile isVoid with
  | [] => none
  | name :: before => if name == ['.', '.'] then none else some (before.reverse, name)

/-- Split a file name at its last dot, if that dot is not its first character. -/
def splitName (name : List Char) : List Char × Option (List Char) :=
  let after := (name.reverse.takeWhile (· ≠ '.')).reverse
  match (name.reverse.dropWhile (· ≠ '.')).reverse.dropLast with
  | [] => (name, none)
  | stem => (stem, some after)

/-- The extension of a path. -/
def extension? (path : String) : Option String :=
  match locate? path.toList with
  | none => none
  | some (_, name) => (splitName name).2.map String.ofList

/--
Put an extension behind the stem of the file name, in place of all that follows the stem. A path
without a file name stays as it is.
-/
def setExtension (path : List Char) (extension : String) : List Char :=
  match locate? path with
  | none => path
  | some (before, name) => join (before ++ [(splitName name).1]) ++ '.' :: extension.toList

/--
Replace the extension of a path. First as many characters as the old extension has are cut off the
end of the path, then the new one is set.
-/
def withExtension (path : String) (extension : String) : String :=
  let old := ((extension? path).getD "").length
  String.ofList (setExtension (path.toList.take (path.length - old)) extension)

/-- The extension of source files. -/
def sourceExtension : String := "bf"

/-- The extension of stored programs. -/
def storedExtension : String := "bfc"

/-- What a file holds, by its extension. -/
inductive FileKind where
  | source
  | stored
  | unknown
deriving DecidableEq

/-- Tell what the file at a path holds. -/
def kind (path : String) : FileKind :=
  match extension? path with
  | some e => if e = sourceExtension then .source else if e = storedExtension then .stored else .unknown
  | none => .unknown

/-- The path of the stored program beside a source file. -/
def storedPath (path : String) : String := withExtension path storedExtension

end TapeMachine.Path
