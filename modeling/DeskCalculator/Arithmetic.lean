import DeskCalculator.AngleMode
import DeskCalculator.Elementary.Rounded

/-!
# The arithmetic of the calculator

`BinaryOp` and `Function` are what an expression can apply. Their meaning is a parameter: an `Arithmetic`
is a record of operations on doubles, and `Arithmetic.ieee` is the one the calculator runs with. Nothing
that is said of parsing and evaluation depends on which arithmetic is chosen.

The factorial is the one operation that can refuse its argument. It multiplies `2 · 3 · …` while the
factor is at most the argument, and stops early when the product has become infinite. `factorialSteps`
multiplications are enough: `170!` is the last finite one.
-/

namespace DeskCalculator

/-! ## What can be applied -/

/-- The operations written between two operands. -/
inductive BinaryOp where
  | add
  | sub
  | mul
  | div
  | pow
  deriving DecidableEq, Repr

/-- The operations written as functions of one argument. -/
inductive Function where
  | sin
  | cos
  | tan
  | log
  | ln
  | sqrt
  | abs
  | fact
  deriving DecidableEq, Repr

namespace BinaryOp

/-- The operation with the given symbol. -/
def ofSymbol? : String → Option BinaryOp
  | "+" => some add
  | "-" => some sub
  | "*" => some mul
  | "/" => some div
  | "^" => some pow
  | _ => none

/-- The symbol of an operation. -/
def symbol : BinaryOp → String
  | add => "+"
  | sub => "-"
  | mul => "*"
  | div => "/"
  | pow => "^"

/-- An operation is known by its own symbol. -/
@[simp] theorem ofSymbol?_symbol (op : BinaryOp) : ofSymbol? op.symbol = some op := by
  cases op <;> rfl

end BinaryOp

namespace Function

/-- The function with the given name. -/
def ofName? : String → Option Function
  | "sin" => some sin
  | "cos" => some cos
  | "tan" => some tan
  | "log" => some log
  | "ln" => some ln
  | "sqrt" => some sqrt
  | "abs" => some abs
  | "fact" => some fact
  | _ => none

/-- The functions whose argument is an angle. -/
def isTrigonometric : Function → Bool
  | sin | cos | tan => true
  | _ => false

end Function

/-! ## Factorials -/

/-- Enough multiplications for every factorial: the next one overflows. -/
def factorialSteps : Nat := 170

/-- `product · factor · (factor + 1) · …` with the factors up to `limit`, given up once infinite. -/
def risingProduct (limit : Float) : Nat → Float → Float → Float
  | 0, product, _ => product
  | steps + 1, product, factor =>
    if factor ≤ limit then
      let next := product * factor
      if next.isInf then next else risingProduct limit steps next (factor + 1)
    else product

/-- The factorial of the argument's whole part; none if that is negative. -/
def factorial? (x : Float) : Option Float :=
  if x.isNaN then some x
  else if x ≤ -1 then none
  else some (risingProduct x factorialSteps 1 2)

/-! ## Arithmetics -/

/-- The operations on doubles that give an expression its value. -/
structure Arithmetic where
  add : Float → Float → Float
  sub : Float → Float → Float
  mul : Float → Float → Float
  div : Float → Float → Float
  pow : Float → Float → Float
  /-- The sine of an argument in radians. -/
  sin : Float → Float
  cos : Float → Float
  tan : Float → Float
  /-- The logarithm to base ten. -/
  log : Float → Float
  ln : Float → Float
  sqrt : Float → Float
  abs : Float → Float
  fact : Float → Option Float
  /-- One degree in radians. -/
  degree : Float

namespace Arithmetic

/-- Double precision; division by zero and other undefined cases give infinities and NaN. -/
def ieee : Arithmetic where
  add := (· + ·)
  sub := (· - ·)
  mul := (· * ·)
  div := (· / ·)
  pow := Elementary.pow
  sin := Elementary.sin
  cos := Elementary.cos
  tan := Elementary.tan
  log := Elementary.log10
  ln := Elementary.ln
  sqrt := Float.sqrt
  abs := Float.abs
  fact := factorial?
  degree := Float.ofBits 0x3F91DF46A2529D39

/-- The value of a binary operation. -/
def binary (a : Arithmetic) : BinaryOp → Float → Float → Float
  | .add => a.add
  | .sub => a.sub
  | .mul => a.mul
  | .div => a.div
  | .pow => a.pow

/-- An angle in radians. -/
def toRadians (a : Arithmetic) (mode : AngleMode) (x : Float) : Float :=
  match mode with
  | .degrees => a.mul x a.degree
  | .radians => x

/-- The value of a function, or none for an argument it refuses. -/
def apply (a : Arithmetic) (mode : AngleMode) (x : Float) : Function → Option Float
  | .sin => some (a.sin (a.toRadians mode x))
  | .cos => some (a.cos (a.toRadians mode x))
  | .tan => some (a.tan (a.toRadians mode x))
  | .log => some (a.log x)
  | .ln => some (a.ln x)
  | .sqrt => some (a.sqrt x)
  | .abs => some (a.abs x)
  | .fact => a.fact x

/-- Only trigonometric functions see the angle mode. -/
theorem apply_of_not_isTrigonometric (a : Arithmetic) (m₁ m₂ : AngleMode) (x : Float)
    {f : Function} (h : f.isTrigonometric = false) : a.apply m₁ x f = a.apply m₂ x f := by
  cases f <;> simp_all [Function.isTrigonometric, apply]

end Arithmetic

end DeskCalculator
