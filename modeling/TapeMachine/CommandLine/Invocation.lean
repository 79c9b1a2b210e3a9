import TapeMachine.Tape

/-!
# Reading the command line

Words are taken from left to right. Before the name of a command they belong to the program as a
whole, behind it to the command, and either side knows the options for the tape and for logging; a
value given to the command wins. An option is given at most once on each side, and two dashes alone
end the options. What does not fit is refused as a whole.
-/

namespace TapeMachine.CommandLine

/-- The commands by name. -/
inductive Verb where
  | run
  | compile
  | decompile
  | debug
  | repl
deriving DecidableEq

/-- The command of a name. -/
def Verb.ofWord? (word : String) : Option Verb :=
  match word with
  | "run" => some run
  | "compile" => some compile
  | "decompile" => some decompile
  | "debug" => some debug
  | "repl" => some repl
  | _ => none

/-- What is asked for. -/
inductive Action where
  /-- Run files one after the other. -/
  | run (files : List String)
  /-- Compile source files. -/
  | compile (files : List String)
  /-- Show the source of a stored program. -/
  | decompile (file : String)
  /-- Run a file under the debugger. -/
  | debug (file : String) (pausing : Bool)
  /-- Start a session. -/
  | repl

/-- A command line that was understood. -/
inductive Invocation where
  /-- Show the version. -/
  | version
  | perform (action : Action) (sizing : Sizing)

/-- Why reading stops before the end of the command line. -/
inductive Stop where
  | refused
  | version

/-- An option with a number. -/
inductive Setting where
  | tapeSize
  | growth
deriving DecidableEq

/-- A switch. -/
inductive Switch where
  | verbose
  | noPause
  | version
deriving DecidableEq

/-- The options of one side. -/
structure Options where
  tapeSize : Option Nat := none
  growth : Option Nat := none
  verbose : Bool := false
  noPause : Bool := false

/-- What has been read so far. -/
structure Progress where
  /-- The options before the name of the command. -/
  outer : Options := {}
  verb : Option Verb := none
  /-- The options behind the name of the command. -/
  inner : Options := {}
  /-- The files named, the latest first. -/
  files : List String := []
  /-- Whether the options have ended. -/
  ended : Bool := false
  /-- An option that still waits for its number. -/
  pending : Option Setting := none

/-- The largest number that an option takes, of 64 bits. -/
def maxNumber : Nat := 0xFFFFFFFFFFFFFFFF

/-- Read a decimal number, with an optional plus sign. -/
def readNumber? (word : String) : Option Nat :=
  let digits :=
    match word.toList with
    | '+' :: rest => rest
    | all => all
  if digits.isEmpty || !digits.all Char.isDigit then none
  else
    let n := digits.foldl (fun n c => n * 10 + (c.toNat - 48)) 0
    if n ≤ maxNumber then some n else none

/-- Set an option that is not set yet. -/
def Options.set (o : Options) (setting : Setting) (n : Nat) : Except Stop Options :=
  match setting with
  | .tapeSize => if o.tapeSize.isSome then .error .refused else .ok { o with tapeSize := some n }
  | .growth => if o.growth.isSome then .error .refused else .ok { o with growth := some n }

namespace Progress

/-- Change the options of the side that is being read. -/
def change (p : Progress) (f : Options → Except Stop Options) : Except Stop Progress :=
  if p.verb.isSome then (f p.inner).map fun inner => { p with inner }
  else (f p.outer).map fun outer => { p with outer }

/-- Take the value of an option. -/
def takeValue (p : Progress) (setting : Setting) (word : String) : Except Stop Progress :=
  match readNumber? word with
  | none => .error .refused
  | some n => p.change fun o => o.set setting n

/-- Take a switch; not every switch is known on either side. -/
def takeSwitch (p : Progress) (switch : Switch) : Except Stop Progress :=
  match switch with
  | .verbose =>
    p.change fun o => if o.verbose then .error .refused else .ok { o with verbose := true }
  | .noPause =>
    if p.verb = some .debug then
      p.change fun o => if o.noPause then .error .refused else .ok { o with noPause := true }
    else .error .refused
  | .version => if p.verb.isSome then .error .refused else .error .version

/-- Take the rest of a word as the value of an option, or wait for the next word. -/
def takeAttached (p : Progress) (setting : Setting) : List Char → Except Stop Progress
  | [] => .ok { p with pending := some setting }
  | '=' :: value => p.takeValue setting (String.ofList value)
  | value => p.takeValue setting (String.ofList value)

/-- Take letters behind a single dash; a letter that wants a number takes the rest of the word. -/
def takeLetters (p : Progress) : List Char → Except Stop Progress
  | [] => .ok p
  | 'v' :: rest =>
    match p.takeSwitch .verbose with
    | .error e => .error e
    | .ok p => p.takeLetters rest
  | 'V' :: rest =>
    match p.takeSwitch .version with
    | .error e => .error e
    | .ok p => p.takeLetters rest
  | 't' :: rest => p.takeAttached .tapeSize rest
  | 'g' :: rest => p.takeAttached .growth rest
  | _ => .error .refused

/-- Take a name behind two dashes, with a value if there is an equals sign. -/
def takeName (p : Progress) (word : List Char) : Except Stop Progress :=
  let name := String.ofList (word.takeWhile (· ≠ '='))
  match name, word.dropWhile (· ≠ '=') with
  | "tape-size", [] => .ok { p with pending := some .tapeSize }
  | "tape-size", _ :: value => p.takeValue .tapeSize (String.ofList value)
  | "growth", [] => .ok { p with pending := some .growth }
  | "growth", _ :: value => p.takeValue .growth (String.ofList value)
  | "verbose", [] => p.takeSwitch .verbose
  | "no-pause", [] => p.takeSwitch .noPause
  | "version", [] => p.takeSwitch .version
  | _, _ => .error .refused

/-- Take a word that is no option: the name of a command, or a file, which has to have a name. -/
def takeOperand (p : Progress) (word : String) : Except Stop Progress :=
  match p.verb with
  | some _ => if word.isEmpty then .error .refused else .ok { p with files := word :: p.files }
  | none =>
    if p.ended then .error .refused
    else
      match Verb.ofWord? word with
      | none => .error .refused
      | some verb => .ok { p with verb := some verb }

/-- Take the next word. -/
def take (p : Progress) (word : String) : Except Stop Progress :=
  match p.pending, word.toList with
  | some setting, letters =>
    if letters.length > 1 && letters.head? == some '-' then .error .refused
    else { p with pending := none }.takeValue setting word
  | none, letters =>
    if p.ended then p.takeOperand word
    else
      match letters with
      | ['-', '-'] => .ok { p with ended := true }
      | '-' :: '-' :: name => p.takeName name
      | '-' :: c :: rest => p.takeLetters (c :: rest)
      | _ => p.takeOperand word

/-- The action for a command and its files, if their number is right. -/
def action? (p : Progress) : Option Action :=
  match p.verb, p.files.reverse with
  | none, [] => some .repl
  | some .repl, [] => some .repl
  | some .run, file :: files => some (.run (file :: files))
  | some .compile, file :: files => some (.compile (file :: files))
  | some .decompile, [file] => some (.decompile file)
  | some .debug, [file] => some (.debug file (!p.inner.noPause))
  | _, _ => none

/-- The sizes asked for, those behind the command first. -/
def sizing (p : Progress) : Sizing :=
  .clamped ((p.inner.tapeSize <|> p.outer.tapeSize).getD Sizing.standardSize)
    ((p.inner.growth <|> p.outer.growth).getD Sizing.standardGrowth)

end Progress

/-- Read a command line; nothing is returned for one that is refused. -/
def parse (words : List String) : Option Invocation :=
  match words.foldlM Progress.take {} with
  | .error .refused => none
  | .error .version => some .version
  | .ok p =>
    if p.pending.isSome then none else p.action?.map fun action => .perform action p.sizing

end TapeMachine.CommandLine
