import DeskCalculator.Program.Run
import DeskCalculator.Text.Blank

/-!
# The value of an expression

An expression is evaluated by compiling it and running the program. A blank one is worth zero.
-/

namespace DeskCalculator.Expression

/-- The outcome of an expression. -/
def evaluate (a : Arithmetic) (mode : AngleMode) (s : String) : Outcome :=
  if Text.allBlank s then .ok 0 else Program.run a mode (Program.compile s)

end DeskCalculator.Expression
