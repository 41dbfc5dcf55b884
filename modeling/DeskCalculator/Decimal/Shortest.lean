import DeskCalculator.Binary64

/-!
# The fewest digits that read back

The reals that round to a double form an interval, which holds its ends iff the significand is even.
Among the decimals in that interval `shortest` takes one with the fewest digits, of these the nearest to
the exact value, and on an exact tie the one with the even last digit.

A grid of decimals meets the interval only if one of the value's two neighbours on the grid does, so one
comparison on each side decides a grid.
-/

namespace DeskCalculator

/-- The reals that round to one double. -/
structure RoundingInterval where
  lower : Rat
  upper : Rat
  closed : Bool

namespace RoundingInterval

/-- The interval of `m · 2 ^ q`: half a spacing to each side, and a quarter below a power of two that
is not the smallest, where the spacing halves. -/
def ofSize (m : Nat) (q : Int) : RoundingInterval where
  lower :=
    if m = 1 <<< 52 ∧ Binary64.lowestExponent < q then Binary64.size (4 * m - 1) (q - 2)
    else Binary64.size (4 * m - 2) (q - 2)
  upper := Binary64.size (4 * m + 2) (q - 2)
  closed := m % 2 = 0

/-- Whether a real rounds to the double. -/
def contains (i : RoundingInterval) (x : Rat) : Bool :=
  if i.closed then i.lower ≤ x && x ≤ i.upper else i.lower < x && x < i.upper

end RoundingInterval

namespace Decimal

/-- The multiple of `10 ^ k` in the interval that is nearest to `x`, if the grid has one there. -/
def onGrid? (i : RoundingInterval) (x : Rat) (k : Int) : Option Decimal :=
  let y := x / (10 : Rat) ^ k
  let below : Decimal := ⟨y.floor.toNat, k⟩
  let above : Decimal := ⟨y.floor.toNat + 1, k⟩
  match i.contains below.toRat, i.contains above.toRat with
  | true, true => some ⟨(roundHalfEven y).toNat, k⟩
  | true, false => some below
  | false, true => some above
  | false, false => none

/-- Seventeen digits tell any two doubles apart. -/
def sufficientDigits : Nat := 17

/-- The shortest decimal that reads back as the double `m · 2 ^ q`. -/
def shortest (m : Nat) (q : Int) : Decimal :=
  if m = 0 then ⟨0, 0⟩
  else
    let x := Binary64.size m q
    let lead := log10Floor x
    let grids := (List.range sufficientDigits).map fun (n : Nat) => lead - (n : Int)
    match grids.findSome? (onGrid? (.ofSize m q) x) with
    | some d => d
    | none => ⟨(roundHalfEven (x / (10 : Rat) ^ (lead - 16))).toNat, lead - 16⟩

/-- The decimal with `places + 1` significant digits that is nearest to `x > 0`, ties to even. -/
def scientific (x : Rat) (places : Nat) : Decimal :=
  let lead := log10Floor x
  let n := (roundHalfEven (x / (10 : Rat) ^ (lead - places))).toNat
  if n = Nat.pow 10 (places + 1) then ⟨Nat.pow 10 places, lead + 1 - places⟩ else ⟨n, lead - places⟩

end Decimal

/-- The double nearest to the multiple of `10 ^ -places` that is nearest to `x`, both with ties to even.
A double has no digit beyond place 323, and is less than half of `10 ^ 309`. -/
def roundToPlaces (places : Int) (x : Float) : Float :=
  match Binary64.ofFloat x with
  | .finite negative m q =>
    if 323 < places then x
    else if places < -308 then Binary64.nearest negative 0
    else
      let scale := (10 : Rat) ^ places
      Binary64.nearest negative ((roundHalfEven (Binary64.size m q * scale) : Rat) / scale)
  | _ => x

end DeskCalculator
