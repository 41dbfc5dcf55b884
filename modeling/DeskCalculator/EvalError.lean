import DeskCalculator.Decimal.Layout
import DeskCalculator.Token.Basic

/-!
# Why an expression has no value

The ways in which running a program can fail. Users see one of three kinds; messages tell the exact cause.
-/

namespace DeskCalculator

/-- The cause of a failed evaluation. -/
inductive EvalError where
  /-- A literal with several points. -/
  | malformedNumber (text : String)
  /-- An operator with fewer than two values before it. -/
  | insufficientOperands (symbol : String)
  | unknownOperator (symbol : String)
  /-- A parenthesis that is never closed. -/
  | unclosedParen
  /-- A function with no value before it. -/
  | missingArgument (name : String)
  | unknownFunction (name : String)
  /-- An instruction that is really a token. -/
  | unknownInstruction (kind : Token.Kind) (symbol : String)
  /-- A program that ends with no value or with several. -/
  | leftover (count : Nat)
  /-- The factorial of a number whose whole part is negative. -/
  | negativeFactorial (argument : Float)
  deriving DecidableEq

namespace EvalError

/-- The kinds of failure that are told apart in results. -/
inductive Kind where
  | invalidExpression
  | unknownFunction
  | invalidFactorial
  deriving DecidableEq, Repr

/-- The name of a kind. -/
def Kind.name : Kind → String
  | invalidExpression => "InvalidExpression"
  | unknownFunction => "UnknownFunction"
  | invalidFactorial => "InvalidFactorial"

/-- The kind of a cause. -/
def kind : EvalError → Kind
  | unknownFunction _ => .unknownFunction
  | negativeFactorial _ => .invalidFactorial
  | _ => .invalidExpression

/-- How messages show an instruction that is really a token. -/
def foreignShown (kind : Token.Kind) (symbol : String) : String :=
  s!"Instruction({kind.capitals}, {Text.quoted symbol})"

/-- The wording of a cause. -/
def message : EvalError → String
  | malformedNumber text => s!"Malformed number: {text}"
  | insufficientOperands symbol => s!"Insufficient operands for {symbol}"
  | unknownOperator symbol => s!"Unknown operator: {symbol}"
  | unclosedParen => "Mismatched parentheses"
  | missingArgument name => s!"Missing argument for {name}"
  | unknownFunction name => s!"Unknown function: {name}"
  | unknownInstruction kind symbol => s!"Unknown instruction: {foreignShown kind symbol}"
  | leftover count => s!"Stack has {count} elements after evaluation"
  | negativeFactorial x => s!"Invalid factorial argument: {Layout.report.text x}"

end EvalError

/-- The result of an evaluation: exactly one of a value and the cause of its absence. -/
abbrev Outcome := Except EvalError Float

end DeskCalculator
