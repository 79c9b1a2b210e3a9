import TapeMachine.CommandLine.Execute

/-!
# What a command line needs from its surroundings

Before a command line is carried out its surroundings are looked at: whether colors are wanted,
whether input is read at all, and which files may be asked for. Afterwards the files that changed
are written back.
-/

namespace TapeMachine.CommandLine

/-- Read an environment switch: it is on unless it is unset or zero. -/
def switchOn? (value : Option String) : Option Bool := value.map (· ≠ "0")

/--
Whether colors are wanted. Forcing them wins over refusing them, and both win over the default, which
is to show them on a terminal.
-/
def wantsColors (forced refused preferred : Option String) (onTerminal : Bool) : Bool :=
  if switchOn? forced = some true then true
  else if refused.isSome then false
  else (switchOn? preferred).getD true && onTerminal

/-- Whether an action reads standard input. -/
def Action.readsInput : Action → Bool
  | .run _ => true
  | .debug _ _ => true
  | .repl => true
  | .compile _ => false
  | .decompile _ => false

/-- Whether a command line reads standard input. -/
def readsInput (words : List String) : Bool :=
  match parse words with
  | some (.perform action _) => action.readsInput
  | _ => false

/-- The paths of program files among the words of a text. -/
def pathsIn : (fuel : Nat) → List Char → List String
  | 0, _ => []
  | fuel + 1, line =>
    let (word, rest) := Text.cutWord line
    let path := String.ofList word
    (if Path.kind path = .unknown then [] else [path]) ++ pathsIn fuel rest

/-- The paths that a command line may ask for: its own words and those of its input. -/
def mentioned (words : List String) (input : List UInt8) : List String :=
  let text := ((Text.ofBytes? input).getD "").toList
  words ++ words.map Path.storedPath ++ pathsIn text.length text

/-- The paths that lead to a path, and the path itself. -/
def waypoints (path : String) : List String :=
  let parts := Path.split path.toList
  ((List.range parts.length).map fun n => String.ofList (Path.join (parts.take (n + 1)))).filter (· ≠ "")

/-- Take over what stands at a path outside, where the tree can be followed to it. -/
def learn (t : FileTree) (path : String) (entry : Entry) : FileTree :=
  match t.resolve path with
  | .error _ => t
  | .ok [] => t
  | .ok place => t.insert place entry

/-- The places and contents of the files that differ from an earlier tree. -/
def changes (before after : FileTree) : List (String × List UInt8) :=
  after.entries.filterMap fun (place, entry) =>
    match entry with
    | .directory => none
    | .file bytes =>
      if before.get? place = some entry then none else some ("/" ++ "/".intercalate place, bytes)

end TapeMachine.CommandLine
