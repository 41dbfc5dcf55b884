import DeskCalculator.AngleMode

/-!
# Refused requests

A fault says that a request itself makes no sense or that the calculator is set up so that it cannot be
served. An expression without a value is no fault: that is an ordinary outcome.
-/

namespace DeskCalculator

/-- Why a request is refused. -/
inductive Fault where
  | unknownAngleMode (choice : AngleMode.Choice)
  /-- A cache of negative capacity has nothing left to give up. -/
  | emptyCache
  /-- A negative number of digits after the point. -/
  | negativePrecision
  | unknownConstant (name : String)
  /-- A position that the history does not have. -/
  | noSuchEntry
  /-- A position that is no machine word. -/
  | hugePosition
  | negativeHistoryLimit
  /-- A limit that is no machine word. -/
  | hugeHistoryLimit
  deriving DecidableEq

namespace Fault

/-- The wording of a fault. -/
def message : Fault → String
  | unknownAngleMode choice => s!"Unknown angle mode: {choice.shown}"
  | emptyCache => Text.quoted "dictionary is empty"
  | negativePrecision => "precision must be >= 0"
  | unknownConstant name => s!"Unknown constant: {name}"
  | noSuchEntry => "deque index out of range"
  | hugePosition => "cannot fit 'int' into an index-sized integer"
  | negativeHistoryLimit => "maxlen must be non-negative"
  | hugeHistoryLimit => "Python int too large to convert to C ssize_t"

end Fault

/-- The mode that is offered, or the fault that it is unknown. -/
def AngleMode.Choice.mode (choice : AngleMode.Choice) : Except Fault AngleMode :=
  match choice.mode? with
  | some mode => .ok mode
  | none => .error (.unknownAngleMode choice)

end DeskCalculator
