import DeskCalculator.Arithmetic
import DeskCalculator.Proofs.DoubleOrder

/-!
# Factorials

Which arguments the factorial refuses: those whose whole part, cut off toward zero, is negative.
-/

namespace DeskCalculator

namespace Binary64

/-- The whole part of the number, cut off toward zero, is below zero. -/
def TruncatesBelowZero : Binary64 → Prop
  | nan => False
  | infinite negative => negative = true
  | finite negative m q => (if negative then -⌊size m q⌋ else ⌊size m q⌋) < 0

/-- The double of minus one. -/
theorem ofFloat_neg_one : ofFloat (-1) = finite true (2 ^ 52) (-52) := by
  decide +kernel

/-- Minus one, from its significand and exponent. -/
theorem signed_neg_one : signed true (2 ^ 52) (-52) = -1 := by
  norm_num [signed, size]

/-- A number is at most minus one exactly if cutting it off toward zero leaves it negative. -/
theorem le_neg_one_iff {x : Float} (h : ofFloat x ≠ nan) :
    x ≤ -1 ↔ (ofFloat x).TruncatesBelowZero := by
  cases hx : ofFloat x with
  | nan => exact absurd hx h
  | infinite s => rw [infinite_le_iff hx ofFloat_neg_one, TruncatesBelowZero]
  | finite s m q =>
    rw [le_iff hx ofFloat_neg_one, signed_neg_one, TruncatesBelowZero, signed]
    have hnonneg := size_nonneg m q
    -- a negative number is cut off toward zero, so its whole part is the negated floor of its size
    cases s with
    | true =>
      simp only [if_true, neg_le_neg_iff, Left.neg_neg_iff]
      exact Int.floor_pos.symm
    | false =>
      have hfloor : 0 ≤ ⌊size m q⌋ := Int.floor_nonneg.2 hnonneg
      simp only [Bool.false_eq_true, if_false]
      constructor
      · intro hle
        linarith
      · intro hlt
        omega

end Binary64

/-- The factorial refuses the numbers whose whole part is negative, and no others. -/
theorem factorial?_eq_none_iff (x : Float) :
    factorial? x = none ↔ (Binary64.ofFloat x).TruncatesBelowZero := by
  by_cases hnan : Binary64.ofFloat x = .nan
  · rw [factorial?, if_pos ((Binary64.isNaN_iff x).2 hnan), hnan]
    simp [Binary64.TruncatesBelowZero]
  · rw [factorial?, if_neg (mt (Binary64.isNaN_iff x).1 hnan), ← Binary64.le_neg_one_iff hnan]
    split <;> simp_all

end DeskCalculator
