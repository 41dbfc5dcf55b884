import DeskCalculator.Decimal.Basic

/-!
# Doubles as exact numbers

`Binary64.ofFloat` reads a double as what it stands for: no number, an infinity, or an integer
significand times a power of two. `nearest` goes the other way, from an exact rational to the closest
double, and is the only place where a value that is not a double becomes one.

The patterns of the doubles from zero up to infinity are consecutive words in the order of their values.
On the grid of spacing `2 ^ q` the double `n · 2 ^ q` has the word `(q + 1074) · 2 ^ 52 + n`, and this
stays true when rounding carries `n` into the next binade.
-/

namespace DeskCalculator

/-- What a double stands for; `finite negative m q` is `± m · 2 ^ q`. -/
inductive Binary64 where
  | nan
  | infinite (negative : Bool)
  | finite (negative : Bool) (significand : Nat) (exponent : Int)
  deriving DecidableEq, Repr

namespace Binary64

/-- The exponent of the smallest positive double, and of every subnormal one. -/
def lowestExponent : Int := -1074

/-- The word of positive infinity. -/
def infinityWord : Nat := 2047 <<< 52

/-- The number that a double stands for. -/
def ofFloat (x : Float) : Binary64 :=
  let word : Nat := x.toBits.toNat
  let negative : Bool := 1 <<< 63 ≤ word
  let biased : Nat := word >>> 52 % 1 <<< 11
  let fraction : Nat := word % 1 <<< 52
  if biased = 2047 then
    if fraction = 0 then infinite negative else nan
  else if biased = 0 then finite negative fraction lowestExponent
  else finite negative (1 <<< 52 + fraction) ((biased : Int) - 1075)

/-- The exact size of `m · 2 ^ q`. -/
def size (significand : Nat) (exponent : Int) : Rat :=
  (significand : Rat) * (2 : Rat) ^ exponent

/-! ## The nearest double -/

/-- The greatest `k` with `2 ^ k ≤ x`, for a positive `x`. -/
def log2Floor (x : Rat) : Int :=
  let k : Int := (x.num.natAbs.log2 : Int) - (x.den.log2 : Int)
  if (2 : Rat) ^ k ≤ x then k else k - 1

/-- The exponent of the spacing of doubles around a positive `x`. -/
def gridExponent (x : Rat) : Int :=
  max lowestExponent (log2Floor x - 52)

/-- The word of the double nearest to `x ≥ 0`; a half goes to the even word, and what lies half a
spacing beyond the largest finite double goes to infinity. -/
def nearestWord (x : Rat) : Nat :=
  if x = 0 then 0
  else
    let q := gridExponent x
    min infinityWord
      ((q - lowestExponent).toNat <<< 52 + (roundHalfEven (x / (2 : Rat) ^ q)).toNat)

/-- The double with the given sign whose other bits are the word of its size. -/
def ofWord (negative : Bool) (word : Nat) : Float :=
  Float.ofBits (UInt64.ofNat (word + if negative then 1 <<< 63 else 0))

/-- The double of the given sign whose size is nearest to `x ≥ 0`. -/
def nearest (negative : Bool) (x : Rat) : Float :=
  ofWord negative (nearestWord x)

/-- Infinity of the given sign. -/
def infinity (negative : Bool) : Float :=
  ofWord negative infinityWord

/-- The one NaN. -/
def undefined : Float :=
  Float.ofBits 0x7FF8000000000000

/-! ## Decimals as doubles -/

/-- The double nearest to a decimal. The two early answers settle the decimals that are far outside
the range of doubles without forming the power of ten. -/
def ofDecimal (negative : Bool) (d : Decimal) : Float :=
  if d.coefficient = 0 then nearest negative 0
  else if 310 < d.exponent then infinity negative
  else if (d.coefficient.log2 : Int) + 1081 < -3 * d.exponent then nearest negative 0
  else nearest negative d.toRat

/-- The value as a natural number with a sign, if a double is a whole number. -/
def whole? (x : Float) : Option (Bool × Nat) :=
  match ofFloat x with
  | finite negative m q =>
    let value := size m q
    if value.den = 1 then some (negative, value.num.toNat) else none
  | _ => none

example : ofFloat 1.5 = finite false (3 <<< 51) (-52) := by decide +kernel

example : ofDecimal true ⟨1, -1⟩ = -0.1 := by decide +kernel

end Binary64

end DeskCalculator
