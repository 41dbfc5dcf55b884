import DeskCalculator.Decimal.Layout
import DeskCalculator.EvalError
import DeskCalculator.Fault

/-!
# The display

How a value is shown. Infinities of both signs show as `Infinity`. Very large and very small numbers take
an exponent and a fixed number of digits; all others are rounded to a number of places and written out in
full, without trailing zeros and without a sign on zero.
-/

namespace DeskCalculator

/-- The settings of the display. -/
structure Display where
  /-- From this size on a number is shown with an exponent. -/
  exponentUpper : Float
  /-- Below this size a number other than zero is shown with an exponent. -/
  exponentLower : Float
  /-- Digits after the point in front of an exponent. -/
  exponentDigits : Int
  /-- Places kept of a number without exponent. -/
  fixedDigits : Int

namespace Display

/-- An exponent from `10 ^ 12` and below `10 ^ -6`, with eight digits; ten places otherwise. -/
def standard : Display where
  exponentUpper := 1e12
  exponentLower := 1e-6
  exponentDigits := 8
  fixedDigits := 10

/-- A whole number; zero has no sign. -/
def wholeText (negative : Bool) (n : Nat) : String :=
  String.ofList (Layout.sign (negative && n != 0) ++ Nat.toDigits 10 n)

/-- Whether a number of the given size is shown with an exponent. -/
def usesExponent (d : Display) (size : Float) : Bool :=
  d.exponentUpper ≤ size || (0 < size && size < d.exponentLower)

/-- A number without exponent. -/
def fixedText (d : Display) (x : Float) : String :=
  match Binary64.whole? x with
  | some (negative, n) => wholeText negative n
  | none =>
    let rounded := roundToPlaces d.fixedDigits x
    match Binary64.whole? rounded with
    | some (negative, n) => wholeText negative n
    | none => Layout.plain.text rounded

/-- The text that shows a value. -/
def text (d : Display) (x : Float) : Except Fault String :=
  match Binary64.ofFloat x with
  | .nan => .ok "NaN"
  | .infinite _ => .ok "Infinity"
  | .finite negative m q =>
    if d.usesExponent x.abs then
      if d.exponentDigits < 0 then .error .negativePrecision
      else .ok (exponential d.exponentDigits.toNat negative m q)
    else .ok (d.fixedText x)

/-- What is shown for an expression without a value. -/
def errorText : String := "Error"

/-- The text that shows an outcome. -/
def outcomeText (d : Display) : Outcome → Except Fault String
  | .ok x => d.text x
  | .error _ => .ok errorText

end Display

end DeskCalculator
