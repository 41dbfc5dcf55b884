/-!
# Decimal fractions

A decimal is a natural coefficient times a power of ten. This module gives its exact value, its digits and
the position of its point, and the two roundings everything else is built from: to the nearest integer
with a half going to the even neighbour, and to the power of ten below.

`roundHalfEven_sub_le` and `sub_roundHalfEven_le` bound the distance of the rounding by a half, and
`roundHalfEven_half` says where a half goes.
-/

namespace DeskCalculator

/-! ## Rounding to integers -/

/-- The integer nearest to `x`; a half goes to the even neighbour. -/
def roundHalfEven (x : Rat) : Int :=
  let below := x.floor
  let excess := 2 * (x - below)
  if excess < 1 then below
  else if 1 < excess then below + 1
  else below + below % 2

/-- An integer is its own rounding. -/
theorem roundHalfEven_intCast (n : Int) : roundHalfEven n = n := by
  have h : (2 * ((n : Rat) - ((n : Rat).floor : Int)) : Rat) < 1 := by
    rw [Rat.floor_intCast]; grind
  simp only [roundHalfEven]
  rw [if_pos h, Rat.floor_intCast]

/-- The rounding is one of the two integers around `x`. -/
theorem roundHalfEven_eq_or (x : Rat) :
    roundHalfEven x = x.floor ∨ roundHalfEven x = x.floor + 1 := by
  simp only [roundHalfEven]
  split
  · exact .inl rfl
  · split
    · exact .inr rfl
    · rcases Int.emod_two_eq x.floor with h | h
      · rw [h]; exact .inl (Int.add_zero _)
      · rw [h]; exact .inr rfl

/-- The rounding is at most a half too large. -/
theorem roundHalfEven_sub_le (x : Rat) : 2 * ((roundHalfEven x : Rat) - x) ≤ 1 := by
  have below := Rat.floor_le x
  simp only [roundHalfEven]
  split
  · grind
  · split
    · rw [Rat.intCast_add, Rat.intCast_one]; grind
    · rcases Int.emod_two_eq x.floor with h | h
      · rw [h, Int.add_zero]; grind
      · rw [h, Rat.intCast_add, Rat.intCast_one]; grind

/-- The rounding is at most a half too small. -/
theorem sub_roundHalfEven_le (x : Rat) : 2 * (x - (roundHalfEven x : Rat)) ≤ 1 := by
  have above := Rat.lt_floor_add_one x
  rw [Rat.intCast_add, Rat.intCast_one] at above
  simp only [roundHalfEven]
  split
  · grind
  · split
    · rw [Rat.intCast_add, Rat.intCast_one]; grind
    · rcases Int.emod_two_eq x.floor with h | h
      · rw [h, Int.add_zero]; grind
      · rw [h, Rat.intCast_add, Rat.intCast_one]; grind

/-- A half goes to the even neighbour. -/
theorem roundHalfEven_half {x : Rat} (h : 2 * (x - (x.floor : Rat)) = 1) :
    roundHalfEven x % 2 = 0 := by
  simp only [roundHalfEven, h]
  rw [if_neg (by decide), if_neg (by decide)]
  omega

/-- How many decimal digits the numeral of `n` has. -/
def decimalWidth (n : Nat) : Nat :=
  (Nat.toDigits 10 n).length

/-- The greatest `k` with `10 ^ k ≤ x`, for a positive `x`. -/
def log10Floor (x : Rat) : Int :=
  if 1 ≤ x then (decimalWidth x.floor.toNat : Int) - 1
  else -(decimalWidth (x⁻¹.ceil.toNat - 1) : Int)

/-! ## Decimals -/

/-- The decimal fraction `coefficient · 10 ^ exponent`. -/
structure Decimal where
  coefficient : Nat
  exponent : Int
  deriving DecidableEq, Repr

namespace Decimal

/-- The exact value. -/
def toRat (d : Decimal) : Rat :=
  (d.coefficient : Rat) * (10 : Rat) ^ d.exponent

/-- The numeral of the coefficient. -/
def digits (d : Decimal) : List Char :=
  Nat.toDigits 10 d.coefficient

/-- The digits up to the last one that is not zero. -/
def significant (d : Decimal) : List Char :=
  (d.digits.reverse.dropWhile (· = '0')).reverse

/-- How many places the point stands to the right of the first digit's left edge: `1` for `1.5`,
`3` for `150`, `0` for `0.15`. -/
def point (d : Decimal) : Int :=
  d.digits.length + d.exponent

/-- The power of ten of the first digit. -/
def leadingExponent (d : Decimal) : Int :=
  d.point - 1

end Decimal

end DeskCalculator
