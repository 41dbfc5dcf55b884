import DeskCalculator.Text.Blank
import DeskCalculator.Text.Quoted

/-!
# Angle modes

Trigonometric functions read their argument in degrees or in radians. A mode is chosen by name: `deg`,
`degree`, `degrees`, `rad`, `radian` or `radians`, in any case and with blank space around it.
-/

namespace DeskCalculator

/-- The unit of the arguments of trigonometric functions. -/
inductive AngleMode where
  | degrees
  | radians
  deriving DecidableEq, Repr

namespace AngleMode

/-- The short name, which names the mode again. -/
def name : AngleMode → String
  | degrees => "deg"
  | radians => "rad"

/-- The other mode. -/
def toggled : AngleMode → AngleMode
  | degrees => radians
  | radians => degrees

/-- The mode with the given name. -/
def ofName? (name : String) : Option AngleMode :=
  let key := String.ofList ((Text.strip name.toList).map Char.toLower)
  if key = "deg" ∨ key = "degree" ∨ key = "degrees" then some degrees
  else if key = "rad" ∨ key = "radian" ∨ key = "radians" then some radians
  else none

/-- What is offered where a mode is asked for. Only text can name a mode; anything else is known by how
messages show it. -/
inductive Choice where
  | name (text : String)
  | other (shown : String)
  deriving DecidableEq, Repr

/-- How messages show the offer. -/
def Choice.shown : Choice → String
  | .name text => Text.quoted text
  | .other shown => shown

/-- The mode that is offered, if the offer names one. -/
def Choice.mode? : Choice → Option AngleMode
  | .name text => ofName? text
  | .other _ => none

/-- Switching twice is no change. -/
@[simp] theorem toggled_toggled (m : AngleMode) : m.toggled.toggled = m := by
  cases m <;> rfl

example : ofName? " Degrees " = some degrees ∧ ofName? "grad" = none := by decide +kernel

end AngleMode

end DeskCalculator
