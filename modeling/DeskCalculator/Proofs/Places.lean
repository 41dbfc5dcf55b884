import DeskCalculator.Proofs.ShortestDecimal

/-!
# Rounding to places

Rounding a double to places rounds twice: its exact value to a multiple of a power of ten, and that
multiple to a double. Rounding the result to ten places again changes nothing, although the second
rounding may leave the multiple. Below `2 ^ 19` it moves it by less than half of the tenth place, so that
the same multiple is found again. From there on half the spacing of doubles is more than half of the tenth
place, and the double is returned to in the first place.
-/

namespace DeskCalculator

open Binary64

/-! ## Multiples of a power of ten -/

/-- The multiple of `10 ^ -places` nearest to `x`. -/
def nearestMultiple (places : Int) (x : Rat) : Rat :=
  roundHalfEven (x * 10 ^ places) / 10 ^ places

variable {places : Int} {x y : Rat}

/-- Rounding to places keeps the order. -/
theorem nearestMultiple_mono (h : x ≤ y) : nearestMultiple places x ≤ nearestMultiple places y := by
  have hten := ten_zpow_pos places
  refine div_le_div_of_nonneg_right ?_ hten.le
  exact_mod_cast roundHalfEven_mono (mul_le_mul_of_nonneg_right h hten.le)

/-- Rounding to places takes nothing below zero. -/
theorem nearestMultiple_nonneg (h : 0 ≤ x) : 0 ≤ nearestMultiple places x := by
  have hten := ten_zpow_pos places
  refine div_nonneg ?_ hten.le
  exact_mod_cast roundHalfEven_nonneg (mul_nonneg h hten.le)

/-- Rounding to places moves a number by half a unit of the last place at most. -/
theorem abs_nearestMultiple_sub_le (places : Int) (x : Rat) :
    2 * |nearestMultiple places x - x| * 10 ^ places ≤ 1 := by
  have hten := ten_zpow_pos places
  have hscale : |nearestMultiple places x - x| * 10 ^ places =
      |(roundHalfEven (x * 10 ^ places) : Rat) - x * 10 ^ places| := by
    rw [← abs_of_pos hten, ← abs_mul, abs_of_pos hten, sub_mul, nearestMultiple,
      div_mul_cancel₀ _ hten.ne']
  rw [mul_assoc, hscale]
  exact two_mul_abs_roundHalfEven_sub_le _

/-- A multiple is found again from what is less than half a unit away. -/
theorem nearestMultiple_eq {n : Int} (h : 2 * |x - n / 10 ^ places| * 10 ^ places < 1) :
    nearestMultiple places x = n / 10 ^ places := by
  have hten := ten_zpow_pos places
  rw [nearestMultiple, roundHalfEven_eq (n := n)]
  left
  have hscale : |x * 10 ^ places - n| = |x - n / 10 ^ places| * 10 ^ places := by
    rw [← abs_of_pos hten, ← abs_mul, abs_of_pos hten, sub_mul, div_mul_cancel₀ _ hten.ne']
  rwa [hscale, ← mul_assoc]

/-- A whole number is a multiple. -/
theorem nearestMultiple_intCast (hp : 0 ≤ places) (n : Int) : nearestMultiple places n = n := by
  obtain ⟨k, rfl⟩ := Int.eq_ofNat_of_zero_le hp
  have hint : (n : Rat) * 10 ^ ((k : Int)) = ((n * 10 ^ k : Int) : Rat) := by
    rw [zpow_natCast]
    norm_cast
  have hten := ten_zpow_pos (k : Int)
  rw [nearestMultiple, hint, roundHalfEven_intCast, ← hint, mul_div_cancel_right₀ _ hten.ne']

/-! ## Doubles rounded to places -/

/-- Within the places that doubles can have, the rounding goes through the nearest multiple. -/
theorem roundToPlaces_of_finite {v : Float} {s : Bool} {m : Nat} {q : Int}
    (hv : ofFloat v = finite s m q) (hlow : -308 ≤ places) (hhigh : places ≤ 323) :
    roundToPlaces places v = nearest s (nearestMultiple places (size m q)) := by
  rw [roundToPlaces, hv]
  simp only [if_neg (not_lt.2 hlow), if_neg (not_lt.2 hhigh)]
  rfl

/-- A power of two from one on is whole. -/
theorem nearestMultiple_two_zpow {k : Int} (hk : 0 ≤ k) : nearestMultiple 10 (2 ^ k) = 2 ^ k := by
  obtain ⟨n, rfl⟩ := Int.eq_ofNat_of_zero_le hk
  have := nearestMultiple_intCast (show (0 : Int) ≤ 10 by decide) (2 ^ n)
  rwa [Int.cast_pow, Int.cast_ofNat, ← zpow_natCast] at this

/-- The size of the double `2 ^ 19`. -/
theorem size_two_pow_19 : size (2 ^ 52) (-33) = 2 ^ 19 := by
  norm_num [size]

/-- The number `2 ^ 19` is a double. -/
theorem rounded_two_pow_19 : rounded (2 ^ 19) = 2 ^ 19 := by
  rw [← size_two_pow_19]
  exact rounded_size ⟨by norm_num, by decide, by decide, .inr le_rfl⟩

/-- The number `2 ^ 19` has no places to be rounded. -/
theorem nearestMultiple_two_pow_19 : nearestMultiple 10 (2 ^ 19) = 2 ^ 19 := by
  have := nearestMultiple_two_zpow (Int.natCast_nonneg 19)
  rwa [zpow_natCast] at this

/-- From `2 ^ 19` on doubles are so far apart that ten places tell each from the others. -/
theorem rounded_nearestMultiple_of_le {m : Nat} {q : Int} (hc : Canonical m q)
    (h : 2 ^ 19 ≤ size m q) : rounded (nearestMultiple 10 (size m q)) = size m q := by
  have hspacing := two_zpow_pos q
  have hq : -33 ≤ q := by
    have hlt : size m q < 2 ^ (53 + q) := by
      rw [zpow_add₀ (by norm_num)]
      exact mul_lt_mul_of_pos_right (by exact_mod_cast hc.lt) hspacing
    have : (2 : Rat) ^ (19 : Int) < 2 ^ (53 + q) := lt_of_le_of_lt (by exact_mod_cast h) hlt
    have := two_zpow_lt_iff.1 this
    omega
  by_cases hm : m = 2 ^ 52
  · have hpower : size m q = 2 ^ (q + 52) := by
      rw [size, hm, add_comm, zpow_add₀ (by norm_num)]
      norm_cast
    rw [hpower, nearestMultiple_two_zpow (by omega), ← hpower, rounded_size hc]
  · have hpos : 0 < m := by
      refine Nat.pos_of_ne_zero fun hzero => ?_
      rw [size_eq_zero_iff.2 hzero] at h
      norm_num at h
    refine rounded_eq_of_contains hc hpos (contains_of_abs_sub_lt hpos ?_)
    rw [marginBelow, if_neg fun hpower => hm hpower.1]
    have hle := abs_nearestMultiple_sub_le 10 (size m q)
    have hgap : (2 : Rat) ^ (-33 : Int) ≤ 2 ^ q := two_zpow_le_iff.2 hq
    norm_num at hle hgap
    linarith

/-- Up to `2 ^ 19` the rounding to a double moves a multiple by at most half the spacing below `2 ^ 19`. -/
theorem abs_rounded_nearestMultiple_sub_le (hx : 0 ≤ x) (h : x ≤ 2 ^ 19) :
    2 * |rounded (nearestMultiple 10 x) - nearestMultiple 10 x| ≤ 2 ^ (-34 : Int) := by
  have hle : nearestMultiple 10 x ≤ 2 ^ 19 :=
    (nearestMultiple_mono h).trans_eq nearestMultiple_two_pow_19
  rcases hle.eq_or_lt with htop | hlt
  · rw [htop, rounded_two_pow_19, sub_self, abs_zero, mul_zero]
    exact (two_zpow_pos _).le
  · refine abs_rounded_sub_le_of_lt (nearestMultiple_nonneg hx) (by decide) (hlt.trans_eq ?_)
    norm_num

/-- This is less than half of the tenth place, so the multiple is found again. -/
theorem nearestMultiple_rounded_nearestMultiple (hx : 0 ≤ x) (h : x ≤ 2 ^ 19) :
    nearestMultiple 10 (rounded (nearestMultiple 10 x)) = nearestMultiple 10 x := by
  have hmove := abs_rounded_nearestMultiple_sub_le hx h
  refine nearestMultiple_eq (n := roundHalfEven (x * 10 ^ (10 : Int))) ?_
  rw [← nearestMultiple]
  norm_num at hmove ⊢
  linarith

/-- A finite double rounded to at most 323 places is the double nearest to its nearest multiple, and
finite. -/
theorem exists_roundToPlaces_eq_rounded (hp : 0 ≤ places) (hhigh : places ≤ 323) {v : Float} {s : Bool}
    {m : Nat} {q : Int} (hv : ofFloat v = finite s m q) :
    ∃ n r, ofFloat (roundToPlaces places v) = finite s n r ∧
      rounded (nearestMultiple places (size m q)) = size n r := by
  rw [roundToPlaces_of_finite hv (by omega) hhigh]
  have hnonneg : 0 ≤ nearestMultiple places (size m q) := nearestMultiple_nonneg (size_nonneg m q)
  rcases le_or_gt 0 q with hwhole | hfraction
  · -- a whole number is a multiple itself
    obtain ⟨k, rfl⟩ := Int.eq_ofNat_of_zero_le hwhole
    have hsize : size m k = ((m * 2 ^ k : Nat) : Int) := by
      rw [size, zpow_natCast]
      push_cast
      rfl
    have hmultiple : nearestMultiple places (size m k) = size m k := by
      rw [hsize]
      exact nearestMultiple_intCast hp _
    have hround : rounded (nearestMultiple places (size m k)) = size m k := by
      rw [hmultiple, rounded_size (canonical_of_finite hv)]
    exact ⟨m, k, ofFloat_nearest s hnonneg (canonical_of_finite hv) hround, hround⟩
  · -- what has a fraction is below `2 ^ 53`, and so is its multiple
    have hle : size m q ≤ ((2 ^ 53 : Nat) : Int) := by
      have hm53 : (m : Rat) ≤ 2 ^ 53 := by exact_mod_cast (canonical_of_finite hv).lt.le
      have hpow : (2 : Rat) ^ q ≤ 1 := zpow_le_one_of_nonpos₀ (by norm_num) hfraction.le
      rw [size]
      push_cast
      nlinarith [two_zpow_pos q]
    have hmax : nearestMultiple places (size m q) < 2 ^ (1023 : Int) := by
      calc nearestMultiple places (size m q)
        _ ≤ ((2 ^ 53 : Nat) : Int) := (nearestMultiple_mono hle).trans_eq (nearestMultiple_intCast hp _)
        _ = (2 : Rat) ^ (53 : Int) := by norm_num
        _ < 2 ^ (1023 : Int) := two_zpow_lt_iff.2 (by decide)
    obtain ⟨n, r, hc, hround⟩ := exists_canonical_rounded hnonneg hmax
    exact ⟨n, r, ofFloat_nearest s hnonneg hc hround, hround⟩

/-- A finite double rounded to ten places: the same sign, and a size that rounding again does not
change. -/
theorem exists_roundToPlaces_eq {v : Float} {s : Bool} {m : Nat} {q : Int}
    (hv : ofFloat v = finite s m q) :
    ∃ n r, ofFloat (roundToPlaces 10 v) = finite s n r ∧
      rounded (nearestMultiple 10 (size m q)) = size n r ∧
      rounded (nearestMultiple 10 (size n r)) = size n r := by
  obtain ⟨n, r, hn, hround⟩ :=
    exists_roundToPlaces_eq_rounded (show (0 : Int) ≤ 10 by decide) (by decide) hv
  refine ⟨n, r, hn, hround, ?_⟩
  rcases le_or_gt (2 ^ 19) (size m q) with hlarge | hsmall
  · have hfixed := rounded_nearestMultiple_of_le (canonical_of_finite hv) hlarge
    rw [← hround, hfixed, hfixed]
  · rw [← hround, nearestMultiple_rounded_nearestMultiple (size_nonneg m q) hsmall.le]

/-- A finite double rounded to places is finite; beyond the place 323 it is left as it is. -/
theorem exists_ofFloat_roundToPlaces (hp : 0 ≤ places) {v : Float} {s : Bool} {m : Nat} {q : Int}
    (hv : ofFloat v = finite s m q) :
    ∃ n r, ofFloat (roundToPlaces places v) = finite s n r ∧
      (rounded (nearestMultiple places (size m q)) = size n r ∨ 323 < places ∧ size n r = size m q) := by
  rcases lt_or_ge 323 places with hhigh | hhigh
  · have hsame : roundToPlaces places v = v := by
      rw [roundToPlaces, hv]
      simp only [if_pos hhigh]
    exact ⟨m, q, by rwa [hsame], .inr ⟨hhigh, rfl⟩⟩
  · obtain ⟨n, r, hn, hround⟩ := exists_roundToPlaces_eq_rounded hp hhigh hv
    exact ⟨n, r, hn, .inl hround⟩

/-- Rounding to places keeps finite doubles finite. -/
theorem isFinite_roundToPlaces (hp : 0 ≤ places) {v : Float} (hv : v.isFinite = true) :
    (roundToPlaces places v).isFinite = true := by
  obtain ⟨s, m, q, hm⟩ := (isFinite_iff v).1 hv
  obtain ⟨n, r, hn, -⟩ := exists_ofFloat_roundToPlaces hp hm
  exact (isFinite_iff _).2 ⟨s, n, r, hn⟩

/-- Rounding to ten places a second time changes nothing. -/
theorem roundToPlaces_roundToPlaces (v : Float) :
    roundToPlaces 10 (roundToPlaces 10 v) = roundToPlaces 10 v := by
  cases hv : ofFloat v with
  | nan | infinite =>
    have : roundToPlaces 10 v = v := by rw [roundToPlaces, hv]
    rw [this, this]
  | finite s m q =>
    obtain ⟨n, r, hn, -, hfixed⟩ := exists_roundToPlaces_eq hv
    rw [roundToPlaces_of_finite hn (by decide) (by decide)]
    exact nearest_eq hn (nearestMultiple_nonneg (size_nonneg n r)) hfixed

end DeskCalculator
