import DeskCalculator.Binary64
import DeskCalculator.Elementary.FixedPoint

/-!
# Correctly rounded elementary functions

Every function here answers the double nearest to the exact value. An exact value is known by enclosures:
two rationals around it, as close as one likes. Once both ends round to the same double, so does the value
between them. The values of these functions are irrational apart from a few known cases, so a close enough
enclosure exists; what stays undecided at the finest one lies half-way between two doubles, which only
powers can do.

Undefined values are NaN, and the poles and limits at infinity are infinities and zeros.
-/

namespace DeskCalculator.Elementary

/-! ## Enclosures -/

/-- Two rationals with a value in between. -/
structure Enclosure where
  lower : Rat
  upper : Rat

namespace Enclosure

/-- The numbers within one unit of `n / 2 ^ p`. -/
def around (p : Nat) (n : Nat) : Enclosure :=
  ⟨((n - 1 : Nat) : Rat) / 2 ^ p, ((n + 1 : Nat) : Rat) / 2 ^ p⟩

/-- The quotients of numbers within one unit of `n` and within one unit of `d`. -/
def quotient (n d : Nat) : Enclosure :=
  if d ≤ 1 then ⟨0, 1⟩ else ⟨((n - 1 : Nat) : Rat) / (d + 1 : Nat), ((n + 1 : Nat) : Rat) / (d - 1 : Nat)⟩

/-- An enclosure times a power of two. -/
def scaled (e : Enclosure) (k : Int) : Enclosure :=
  ⟨e.lower * (2 : Rat) ^ k, e.upper * (2 : Rat) ^ k⟩

/-- The word of the double to which everything in the enclosure rounds, if there is one. -/
def word? (e : Enclosure) : Option Nat :=
  let word := Binary64.nearestWord e.lower
  if word = Binary64.nearestWord e.upper then some word else none

/-- The word for a value that is half-way between two doubles and is known only by a fine enclosure. -/
def halfwayWord (e : Enclosure) : Nat :=
  let x := (e.lower + e.upper) / 2
  let unit := (2 : Rat) ^ (Binary64.gridExponent x - 1)
  Binary64.nearestWord ((roundHalfEven (x / unit) : Rat) * unit)

end Enclosure

/-- The double nearest to a value of which `enclose p` gives the sign, `true` for a minus, and an enclosure
of its size. The precision `p` starts at `precision` and doubles as long as the enclosure is too wide; the
sign is right as soon as the enclosure is narrow enough to stay away from zero. -/
def settle (precision : Nat) (enclose : Nat → Bool × Enclosure) : Float :=
  let attempt (p : Nat) : Option Float :=
    let (negative, e) := enclose p
    e.word?.map (Binary64.ofWord negative)
  match [precision, 2 * precision, 4 * precision, 8 * precision].findSome? attempt with
  | some x => x
  | none =>
    let (negative, e) := enclose (16 * precision)
    Binary64.ofWord negative e.halfwayWord

/-- The precision at the first attempt, for values that are not small. -/
def basePrecision : Nat := 160

/-- The precision at the first attempt, for values about as small as `m · 2 ^ q`. -/
def precisionFor (m : Nat) (q : Int) : Nat :=
  basePrecision + (-(q + m.log2)).toNat

/-! ## Trigonometric functions -/

/-- The sine of `m · 2 ^ q`, and its sign: the sine of the remainder in the first and third quadrant and
its cosine in the others. With one more quadrant, the cosine of the whole. -/
def sinEnclosure (more : Nat) (m : Nat) (q : Int) (p : Nat) : Bool × Enclosure :=
  let w := p + guardBits
  let (quadrant, r) := quadrantAt w m q
  let quadrant := (quadrant + more) % 4
  (2 ≤ quadrant, .around p ((if quadrant % 2 = 0 then sinAt w r else cosAt w r) >>> guardBits))

/-- The tangent of `m · 2 ^ q`, and its sign. -/
def tanEnclosure (m : Nat) (q : Int) (p : Nat) : Bool × Enclosure :=
  let w := p + guardBits
  let (quadrant, r) := quadrantAt w m q
  let s := sinAt w r >>> guardBits
  let c := cosAt w r >>> guardBits
  if quadrant % 2 = 0 then (false, .quotient s c) else (true, .quotient c s)

/-- The sign of a value of an odd function, for an argument of the given sign. -/
def withSign (negative : Bool) (value : Bool × Enclosure) : Bool × Enclosure :=
  (negative != value.1, value.2)

/-- The sine. -/
def sin (x : Float) : Float :=
  match Binary64.ofFloat x with
  | .finite negative m q =>
    if m = 0 then x
    else settle (precisionFor m q) fun p => withSign negative (sinEnclosure 0 m q p)
  | _ => Binary64.undefined

/-- The cosine. -/
def cos (x : Float) : Float :=
  match Binary64.ofFloat x with
  | .finite _ m q => if m = 0 then 1 else settle basePrecision (sinEnclosure 1 m q)
  | _ => Binary64.undefined

/-- The tangent. -/
def tan (x : Float) : Float :=
  match Binary64.ofFloat x with
  | .finite negative m q =>
    if m = 0 then x
    else settle (precisionFor m q) fun p => withSign negative (tanEnclosure m q p)
  | _ => Binary64.undefined

/-! ## Logarithms -/

/-- A logarithm: `scale w` is the natural logarithm of its base, in fixed point. -/
def logarithm (scale : Nat → Nat) (x : Float) : Float :=
  match Binary64.ofFloat x with
  | .nan => x
  | .infinite negative => if negative then Binary64.undefined else x
  | .finite negative m q =>
    if m = 0 then Binary64.infinity true
    else if negative then Binary64.undefined
    else if x == 1 then 0
    else
      settle basePrecision fun p =>
        let w := p + guardBits
        (x < 1, .around p (((lnAt w m q).natAbs <<< w / scale w) >>> guardBits))

/-- The natural logarithm. -/
def ln (x : Float) : Float :=
  logarithm (1 <<< ·) x

/-- The logarithm to base ten. -/
def log10 (x : Float) : Float :=
  logarithm lnTenAt x

/-! ## Powers -/

/-- Whether a double is an odd whole number. -/
def isOdd (x : Float) : Bool :=
  match Binary64.whole? x with
  | some (_, n) => n % 2 = 1
  | none => false

/-- Exponents from `2 ^ 71` on take every base but one out of the range of doubles. -/
def largestExponentScale : Int := 70

/-- No exponential of a number beyond this is in the range of doubles. -/
def largestLogarithm : Nat := 800

/-- The enclosures of `2 ^ k · e ^ r` where `k ln 2 + r` is `± t`; `t` is in fixed point with `w` bits. -/
def expEnclosure (p w : Nat) (negative : Bool) (t : Nat) : Enclosure :=
  let unit := lnTwoAt w
  let k := t / unit
  let r := t % unit
  let (k, r) : Int × Nat := if negative then (-(k + 1 : Int), unit - r) else (k, r)
  (Enclosure.around p (expAt w r >>> guardBits)).scaled k

/-- `(m · 2 ^ q) ^ y` for a base that is not one and a positive exponent `n · 2 ^ e`, or its inverse, with
the given sign. -/
def finitePow (negative : Bool) (m : Nat) (q : Int) (inverse : Bool) (n : Nat) (e : Int) : Float :=
  let isSmall : Bool := q + m.log2 < 0
  let shrinks : Bool := isSmall != inverse
  let extreme := if shrinks then Binary64.nearest negative 0 else Binary64.infinity negative
  let scale := e + n.log2
  if largestExponentScale < scale then extreme
  else
    let logarithmAt (w : Nat) : Nat :=
      let v := w + scale.toNat
      scaleAt 0 (n * (lnAt v m q).natAbs) (e - scale.toNat)
    let w := basePrecision + guardBits
    if largestLogarithm <<< w ≤ logarithmAt w then extreme
    else
      settle basePrecision fun p =>
        (negative, expEnclosure p (p + guardBits) shrinks (logarithmAt (p + guardBits)))

/-- The power of a base that is zero (`isZero`) or infinite, for an exponent that is not zero. -/
def limitPow (isZero negativeBase negativeExponent oddExponent : Bool) : Float :=
  let negative := negativeBase && oddExponent
  if isZero = negativeExponent then Binary64.infinity negative else Binary64.nearest negative 0

/-- Powers. Anything to the zeroth is one, and so is one to anything; a negative base takes whole exponents
only. -/
def pow (x y : Float) : Float :=
  if y == 0 || x == 1 then 1
  else match Binary64.ofFloat x, Binary64.ofFloat y with
    | .nan, _ | _, .nan => Binary64.undefined
    | .infinite nx, .infinite ny => limitPow false nx ny false
    | .infinite nx, .finite ny _ _ => limitPow false nx ny (isOdd y)
    | .finite _ _ _, .infinite ny =>
      if x.abs == 1 then 1 else limitPow (x.abs < 1) false ny false
    | .finite nx m q, .finite ny n e =>
      if m = 0 then limitPow true nx ny (isOdd y)
      else if nx && (Binary64.whole? y).isNone then Binary64.undefined
      else
        let negative := nx && isOdd y
        if x == -1 then Binary64.nearest negative 1 else finitePow negative m q ny n e

end DeskCalculator.Elementary
