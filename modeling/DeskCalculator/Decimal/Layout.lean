import DeskCalculator.Decimal.Shortest

/-!
# Written doubles

Which digits a double is written with is settled in `DeskCalculator.Decimal.Shortest`; this module
settles where they go. `Layout.plain` writes them out in full, `Layout.report` changes to an exponent for
very large and very small numbers and always shows a fraction or an exponent. `exponential` is the form
with a fixed number of digits.
-/

namespace DeskCalculator

/-- How the digits of a double are laid out. -/
structure Layout where
  /-- Which leading exponents are written without an exponent. -/
  positional : Int → Bool
  /-- What follows a whole number. -/
  afterWhole : List Char

namespace Layout

/-- Every number in full; whole numbers without a point. -/
def plain : Layout where
  positional _ := true
  afterWhole := []

/-- In full from `0.0001` up to `10 ^ 16`; whole numbers end in `.0`. -/
def report : Layout where
  positional e := -4 ≤ e && e < 16
  afterWhole := ['.', '0']

/-- `e`, the sign, and the exponent with at least `width` digits. -/
def exponentPart (width : Nat) (e : Int) : List Char :=
  let digits := Nat.toDigits 10 e.natAbs
  'e' :: (if e < 0 then '-' else '+') :: (List.replicate (width - digits.length) '0' ++ digits)

/-- A decimal without exponent. -/
def positionalDigits (afterWhole : List Char) (d : Decimal) : List Char :=
  let digits := d.significant
  if digits = [] then '0' :: afterWhole
  else if d.point ≤ 0 then '0' :: '.' :: (List.replicate (-d.point).toNat '0' ++ digits)
  else if digits.length ≤ d.point.toNat then
    digits ++ List.replicate (d.point.toNat - digits.length) '0' ++ afterWhole
  else digits.take d.point.toNat ++ '.' :: digits.drop d.point.toNat

/-- A decimal with one digit before the point and an exponent of at least two digits. -/
def exponentDigits (d : Decimal) : List Char :=
  let mantissa := match d.significant with
    | first :: second :: rest => first :: '.' :: second :: rest
    | short => short
  mantissa ++ exponentPart 2 d.leadingExponent

/-- The digits of a decimal in this layout. -/
def decimal (l : Layout) (d : Decimal) : List Char :=
  if d.coefficient = 0 ∨ l.positional d.leadingExponent then positionalDigits l.afterWhole d
  else exponentDigits d

/-- The minus sign of a negative number. -/
def sign (negative : Bool) : List Char :=
  if negative then ['-'] else []

/-- A double in this layout, with the fewest digits that read back. -/
def text (l : Layout) (x : Float) : String :=
  match Binary64.ofFloat x with
  | .nan => "nan"
  | .infinite negative => String.ofList (sign negative ++ ['i', 'n', 'f'])
  | .finite negative m q => String.ofList (sign negative ++ l.decimal (.shortest m q))

end Layout

/-- `d.ddd…e±x` with exactly `places` digits after the point, correctly rounded. -/
def exponential (places : Nat) (negative : Bool) (m : Nat) (q : Int) : String :=
  let d : Decimal :=
    if m = 0 then ⟨0, 0⟩ else .scientific (Binary64.size m q) places
  let digits := if m = 0 then List.replicate (places + 1) '0' else d.digits
  String.ofList
    (Layout.sign negative ++ digits.take 1 ++ '.' :: digits.drop 1 ++
      Layout.exponentPart 1 d.leadingExponent)

end DeskCalculator
