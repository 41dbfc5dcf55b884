import DeskCalculator.EvalError
import DeskCalculator.Program.Basic

/-!
# Running programs

The machine holds a stack of values, the last one first. Each instruction is checked in a fixed order:
first that the stack holds enough values, then that the operation is known, then that the operation
accepts its argument. At the end exactly one value has to be left.
-/

namespace DeskCalculator.Program

/-- The stack after one instruction. -/
def exec (a : Arithmetic) (mode : AngleMode) (stack : List Float) :
    Instruction → Except EvalError (List Float)
  | .push text none => .error (.malformedNumber text)
  | .push _ (some x) => .ok (x :: stack)
  | .binary symbol =>
    match stack with
    | y :: x :: rest =>
      match BinaryOp.ofSymbol? symbol with
      | some op => .ok (a.binary op x y :: rest)
      | none => .error (.unknownOperator symbol)
    | _ => .error (.insufficientOperands symbol)
  | .call name =>
    match stack with
    | x :: rest =>
      match Function.ofName? name with
      | some f =>
        match a.apply mode x f with
        | some y => .ok (y :: rest)
        | none => .error (.negativeFactorial x)
      | none => .error (.unknownFunction name)
    | [] => .error (.missingArgument name)
  | .unclosed => .error .unclosedParen
  | .foreign kind symbol => .error (.unknownInstruction kind symbol)

/-- The stack after a program. -/
def execAll (a : Arithmetic) (mode : AngleMode) : List Float → Program → Except EvalError (List Float)
  | stack, [] => .ok stack
  | stack, i :: program =>
    match exec a mode stack i with
    | .ok stack => execAll a mode stack program
    | .error e => .error e

/-- The only value on a stack. -/
def result : List Float → Outcome
  | [x] => .ok x
  | stack => .error (.leftover stack.length)

/-- The outcome of a program on an empty stack. -/
def run (a : Arithmetic) (mode : AngleMode) (program : Program) : Outcome :=
  match execAll a mode [] program with
  | .ok stack => result stack
  | .error e => .error e

/-- A program runs in two parts, the second one on the stack that the first one leaves. -/
theorem execAll_append (a : Arithmetic) (mode : AngleMode) (stack : List Float) (p q : Program) :
    execAll a mode stack (p ++ q) =
      match execAll a mode stack p with
      | .ok stack => execAll a mode stack q
      | .error e => .error e := by
  induction p generalizing stack with
  | nil => rfl
  | cons i p ih =>
    simp only [List.cons_append, execAll]
    cases exec a mode stack i with
    | ok s => exact ih s
    | error e => rfl

end DeskCalculator.Program
