import TapeMachine.Machine.Observer
import TapeMachine.Style

/-!
# Listings

A listing shows every instruction with the state before and after it, and the final state at the
end. It is a diagnosis only: a writer that fails cuts a line short and stops nothing.
-/

namespace TapeMachine

/-- The decimal text of a cell. -/
def cellText (value : Int64) : String := toString value.toInt

/-- The text of a row of cells. -/
def cellsText (cells : Array Int64) : String :=
  "[" ++ ", ".intercalate (cells.toList.map cellText) ++ "]"

namespace Listing

/-- The style of step headers and prompts. -/
def stepStyle : Style := { italic := true, color := some .yellow }

/-- The style of the state before an instruction. -/
def stateStyle : Style := { color := some .cyan }

/-- The style of the state after an instruction. -/
def resultStyle : Style := { bold := true, color := some .cyan }

/-- The style of the header of the final state. -/
def summaryStyle : Style := { bold := true, color := some .yellow }

/-- The line for an instruction that is about to be carried out. -/
def before (colors : Bool) (e : Event) : List String :=
  stepStyle.pieces colors ("Step " ++ toString e.step ++ " [" ++ e.opcode.glyph.toString ++ "]") ++
    [" "] ++
    stateStyle.line colors
      ("ip = " ++ toString e.ip ++ ", index = " ++ toString e.pointer ++ ", cell = " ++
        cellText e.cell ++ ", tape = " ++ cellsText e.window)

/-- The line for an instruction that has been carried out. -/
def after (colors : Bool) (e : Event) : List String :=
  "    " :: resultStyle.line colors
    ("=> index = " ++ toString e.pointer ++ ", cell = " ++ cellText e.cell ++ ", tape = " ++
      cellsText e.window)

/-- The lines for the final state of a machine. -/
def summaryLines (colors : Bool) (m : Machine) : List (List String) :=
  summaryStyle.line colors "Final state:" ::
    [ "Total steps     = " ++ toString m.steps,
      "Index           = " ++ toString m.pointer,
      "MaxKnownIndex   = " ++ toString m.tape.highest,
      "Cell [" ++ toString m.pointer ++ "]       = " ++ cellText m.currentCell,
      cellsText m.tape.window ].map fun text => "    " :: stateStyle.line colors text

/-- The prompt before an instruction. -/
def prompt (colors : Bool) (m : Machine) : List String :=
  stepStyle.pieces colors ("step " ++ toString (m.steps + 1) ++ " (enter) ")

variable {ω : Type} [Writer ω]

/-- Write one line as far as the writer takes it. -/
def put (line : List String) (out : ω) : ω := (Writer.writeAll line out).2

/-- The observer that lists every instruction. -/
def printer (colors : Bool) : Observer ω where
  onStep event := put (before colors event)
  afterStep event := put (after colors event)

/-- Write the final state of a machine. -/
def summary (colors : Bool) (m : Machine) (out : ω) : ω :=
  (summaryLines colors m).foldl (fun out line => put line out) out

end Listing

end TapeMachine
