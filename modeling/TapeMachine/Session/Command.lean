import TapeMachine.Text.Blank

/-!
# Lines of a session

A line is a command when its first word names one; a command takes no more words than it needs and
ignores the rest. Every other line is code, blanks and all.
-/

namespace TapeMachine

/-- What a line of a session asks for. -/
inductive Command where
  | exit
  | tape
  | cell
  | index
  | info
  | reset
  | feedback
  | debug
  | continuous
  /-- Run a file, if one is named. -/
  | load (path : Option String)
  | reload
  | clear
  | help
  /-- Run the line itself. -/
  | code (line : String)
deriving DecidableEq

/-- Read a line. -/
def Command.parse (line : String) : Command :=
  let (first, rest) := Text.cutWord line.toList
  match String.ofList first with
  | "exit" => exit
  | "q" => exit
  | "tape" => tape
  | "cell" => cell
  | "index" => index
  | "info" => info
  | "reset" => reset
  | "feedback" => feedback
  | "debug" => debug
  | "continuous" => continuous
  | "load" =>
    match (Text.cutWord rest).1 with
    | [] => load none
    | path => load (some (String.ofList path))
  | "reload" => reload
  | "clear" => clear
  | "help" => help
  | _ => code line

end TapeMachine
