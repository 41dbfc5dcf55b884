/-!
# Elementary functions in fixed point

A natural number `n` stands for `n / 2 ^ w`. Products and quotients are cut off, so each step is off by
less than one unit, and a sum of `k` terms by a small multiple of `k` units. Callers work with
`guardBits` more bits than they need, which is far more than the number of terms can spoil.

The series stop when their terms have become zero; every term is at most half the one before, apart from
the first few, so `w` and a few more terms are enough.
-/

namespace DeskCalculator.Elementary

/-- The bits that are computed and then given up. -/
def guardBits : Nat := 64

/-- The product of two fixed-point numbers. -/
def mulAt (w a b : Nat) : Nat :=
  (a * b) >>> w

/-- Enough terms for every series. -/
def seriesFuel (w : Nat) : Nat :=
  w + 16

/-- `m · 2 ^ q` in fixed point. -/
def scaleAt (w m : Nat) (q : Int) : Nat :=
  let shift := q + w
  if 0 ≤ shift then m <<< shift.toNat else m >>> (-shift).toNat

/-! ## Series -/

/-- `power / n + power · s / (n + 2) + power · s² / (n + 4) + …`. -/
def oddSeries (w s : Nat) : Nat → Nat → Nat → Nat
  | 0, _, _ => 0
  | fuel + 1, power, n =>
    if power = 0 then 0 else power / n + oddSeries w s fuel (mulAt w power s) (n + 2)

/-- `power / n - power / (d · (n + 2)) + power / (d² · (n + 4)) - …`. -/
def alternatingOddSeries (d : Nat) : Nat → Nat → Nat → Int
  | 0, _, _ => 0
  | fuel + 1, power, n =>
    if power = 0 then 0 else (power / n : Nat) - alternatingOddSeries d fuel (power / d) (n + 2)

/-- The alternating series whose term after place `n` is `s / ((n + 1) (n + 2))` times the one before. -/
def trigSeries (w s : Nat) : Nat → Nat → Nat → Int
  | 0, _, _ => 0
  | fuel + 1, term, n =>
    if term = 0 then 0
    else (term : Int) - trigSeries w s fuel (mulAt w term s / ((n + 1) * (n + 2))) (n + 2)

/-- The series whose term after place `n` is `r / (n + 1)` times the one before. -/
def expSeries (w r : Nat) : Nat → Nat → Nat → Nat
  | 0, _, _ => 0
  | fuel + 1, term, n =>
    if term = 0 then 0 else term + expSeries w r fuel (mulAt w term r / (n + 1)) (n + 1)

/-! ## Constants and functions -/

/-- The area hyperbolic tangent of `z ≤ 1 / 3`. -/
def artanhAt (w z : Nat) : Nat :=
  oddSeries w (mulAt w z z) (seriesFuel w) z 1

/-- The natural logarithm of two. -/
def lnTwoAt (w : Nat) : Nat :=
  2 * artanhAt w (1 <<< w / 3)

/-- The natural logarithm of ten, which is `8 · 5 / 4`. -/
def lnTenAt (w : Nat) : Nat :=
  3 * lnTwoAt w + 2 * artanhAt w (1 <<< w / 9)

/-- The arc tangent of `1 / n`. -/
def arctanOfInverseAt (w n : Nat) : Int :=
  alternatingOddSeries (n * n) (seriesFuel w) (1 <<< w / n) 1

/-- Half of the circle: `16 arctan (1 / 5) - 4 arctan (1 / 239)`. -/
def piAt (w : Nat) : Nat :=
  (16 * arctanOfInverseAt w 5 - 4 * arctanOfInverseAt w 239).toNat

/-- The natural logarithm of `m · 2 ^ q`: with `m = f · 2 ^ b` and `1 ≤ f < 2` it is
`(q + b) ln 2 + 2 artanh ((f - 1) / (f + 1))`. -/
def lnAt (w m : Nat) (q : Int) : Int :=
  let b := m.log2
  (q + b) * lnTwoAt w + 2 * artanhAt w (((m - 1 <<< b) <<< w) / (m + 1 <<< b))

/-- The exponential function, for an argument below one. -/
def expAt (w r : Nat) : Nat :=
  expSeries w r (seriesFuel w) (1 <<< w) 0

/-- The sine of an argument in the first quadrant. -/
def sinAt (w r : Nat) : Nat :=
  (trigSeries w (mulAt w r r) (seriesFuel w) r 1).toNat

/-- The cosine of an argument in the first quadrant. -/
def cosAt (w r : Nat) : Nat :=
  (trigSeries w (mulAt w r r) (seriesFuel w) (1 <<< w) 0).toNat

/-- The quadrant of `m · 2 ^ q`, and how far into it. The number of whole quadrants multiplies the error
of the constant, so a large argument is divided with as many more bits as it has before the point. -/
def quadrantAt (w m : Nat) (q : Int) : Nat × Nat :=
  let extra := (q + m.log2).toNat + 2
  let quarter := piAt (w + extra) / 2
  let x := scaleAt (w + extra) m q
  (x / quarter % 4, (x % quarter) >>> extra)

end DeskCalculator.Elementary
