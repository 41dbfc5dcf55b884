import DeskCalculator.Decimal.Shortest
import DeskCalculator.Proofs.DoubleWords

/-!
# Rounding to the nearest double

`Binary64.rounded` is the number that the double nearest to `x` stands for: `x` rounded to an integer on
the grid of doubles around it. `nearest_eq` ties it to the doubles, so that all that is said of `nearest`
is said of rational numbers: doubles are their own rounding, rounding is monotone, what lies in the
interval around a double rounds to it, and a decimal is read as the double nearest to it whichever way
the reader takes.
-/

namespace DeskCalculator

/-! ## Rounding to integers -/

/-- Rounding moves a number by half a unit at most. -/
theorem two_mul_abs_roundHalfEven_sub_le (y : Rat) : 2 * |(roundHalfEven y : Rat) - y| ≤ 1 := by
  have hup := roundHalfEven_sub_le y
  have hdown := sub_roundHalfEven_le y
  cases abs_cases ((roundHalfEven y : Rat) - y) <;> linarith

/-- The rounding of a half between two integers is even. -/
theorem roundHalfEven_emod_two {y : Rat} {m : Int} (h : 2 * (y - m) = 1) : roundHalfEven y % 2 = 0 := by
  have hfloor : y.floor = m := by
    have hlow := Rat.floor_le y
    have hhigh := Rat.lt_floor_add_one y
    push_cast at hhigh
    refine le_antisymm (Int.lt_add_one_iff.1 ?_) (Int.lt_add_one_iff.1 ?_)
    · have : (y.floor : Rat) < m + 1 := by linarith
      exact_mod_cast this
    · have : (m : Rat) < y.floor + 1 := by linarith
      exact_mod_cast this
  exact roundHalfEven_half (by rw [hfloor, h])

/-- What is half a unit away from an integer is rounded to an even one. -/
theorem roundHalfEven_emod_two_of_abs {y : Rat} {n : Int} (h : 2 * |y - n| = 1) :
    roundHalfEven y % 2 = 0 := by
  rcases abs_cases (y - n) with ⟨habs, -⟩ | ⟨habs, -⟩ <;> rw [habs] at h
  · exact roundHalfEven_emod_two h
  · exact roundHalfEven_emod_two (show 2 * (y - ((n - 1 : Int) : Rat)) = 1 by push_cast; linarith)

/-- An integer less than a half away is the rounding, and one a half away is if it is even. -/
theorem roundHalfEven_eq {y : Rat} {n : Int}
    (h : 2 * |y - n| < 1 ∨ 2 * |y - n| ≤ 1 ∧ n % 2 = 0) : roundHalfEven y = n := by
  have hround := two_mul_abs_roundHalfEven_sub_le y
  have htriangle : |((roundHalfEven y - n : Int) : Rat)| ≤
      |(roundHalfEven y : Rat) - y| + |y - n| := by
    push_cast
    exact abs_sub_le _ _ _
  rcases h with h | ⟨h, heven⟩
  · have hlt : |((roundHalfEven y - n : Int) : Rat)| < 1 := by linarith
    have hlt : |roundHalfEven y - n| < 1 := by exact_mod_cast hlt
    have := Int.abs_lt_one_iff.1 hlt
    omega
  · have hle : |((roundHalfEven y - n : Int) : Rat)| ≤ 1 := by linarith
    have hle : |roundHalfEven y - n| ≤ 1 := by exact_mod_cast hle
    by_contra hne
    -- both are a half away, so `y` is the half between them, and only one of them is even
    have hone : |roundHalfEven y - n| = 1 :=
      le_antisymm hle (Int.one_le_abs (sub_ne_zero.2 hne))
    have hhalf : 2 * |y - n| = 1 := by
      have : |((roundHalfEven y - n : Int) : Rat)| = 1 := by exact_mod_cast hone
      linarith
    have heven' := roundHalfEven_emod_two_of_abs hhalf
    rcases abs_cases (roundHalfEven y - n) with ⟨habs, -⟩ | ⟨habs, -⟩ <;> omega

/-- Rounding to integers keeps the order. -/
theorem roundHalfEven_mono {x y : Rat} (h : x ≤ y) : roundHalfEven x ≤ roundHalfEven y := by
  by_contra hlt
  have hgap : (roundHalfEven y : Rat) + 1 ≤ roundHalfEven x := by exact_mod_cast not_le.1 hlt
  have hx := roundHalfEven_sub_le x
  have hy := sub_roundHalfEven_le y
  -- the roundings can be one apart only if the numbers are equal
  obtain rfl : x = y := le_antisymm h (by linarith)
  exact hlt le_rfl

/-- Rounding takes no number below zero that is not there already. -/
theorem roundHalfEven_nonneg {x : Rat} (h : 0 ≤ x) : 0 ≤ roundHalfEven x := by
  have := roundHalfEven_mono h
  rwa [show roundHalfEven 0 = 0 from by exact_mod_cast roundHalfEven_intCast 0] at this

namespace Binary64

/-! ## The grid around a number -/

theorem two_zpow_pos (k : Int) : (0 : Rat) < 2 ^ k :=
  zpow_pos (by norm_num) k

theorem two_zpow_lt_iff {j k : Int} : (2 : Rat) ^ j < 2 ^ k ↔ j < k :=
  zpow_lt_zpow_iff_right₀ (by norm_num)

theorem two_zpow_le_iff {j k : Int} : (2 : Rat) ^ j ≤ 2 ^ k ↔ j ≤ k :=
  zpow_le_zpow_iff_right₀ (by norm_num)

/-- The leading bit of a number is not above it. -/
theorem two_pow_log2_le {n : Nat} (h : 0 < n) : (2 : Rat) ^ (n.log2 : Int) ≤ n := by
  exact_mod_cast ((Nat.log2_eq_iff h.ne').1 rfl).1

/-- Twice the leading bit of a number is above it. -/
theorem lt_two_pow_log2 {n : Nat} (h : 0 < n) : (n : Rat) < 2 ^ ((n.log2 : Int) + 1) := by
  exact_mod_cast ((Nat.log2_eq_iff h.ne').1 rfl).2

/-- `log2Floor` is the exponent of the greatest power of two up to `x`. -/
theorem log2Floor_spec {x : Rat} (hx : 0 < x) :
    (2 : Rat) ^ log2Floor x ≤ x ∧ x < 2 ^ (log2Floor x + 1) := by
  have hnum : 0 < x.num.natAbs := Int.natAbs_pos.2 (Rat.num_pos.2 hx).ne'
  have hden : (0 : Rat) < x.den := by exact_mod_cast x.den_pos
  have hdiv : (x.num.natAbs : Rat) / x.den = x := by
    rw [Nat.cast_natAbs, abs_of_pos (Rat.num_pos.2 hx), Rat.num_div_den]
  have hlow : (2 : Rat) ^ ((x.num.natAbs.log2 : Int) - x.den.log2 - 1) ≤ x := by
    refine le_of_le_of_eq ((le_div_iff₀ hden).2 ?_) hdiv
    calc (2 : Rat) ^ ((x.num.natAbs.log2 : Int) - x.den.log2 - 1) * x.den
        ≤ 2 ^ ((x.num.natAbs.log2 : Int) - x.den.log2 - 1) * 2 ^ ((x.den.log2 : Int) + 1) :=
          mul_le_mul_of_nonneg_left (lt_two_pow_log2 x.den_pos).le (two_zpow_pos _).le
      _ = 2 ^ (x.num.natAbs.log2 : Int) := by
          rw [← zpow_add₀ (by norm_num)]
          congr 1
          ring
      _ ≤ x.num.natAbs := two_pow_log2_le hnum
  have hhigh : x < (2 : Rat) ^ ((x.num.natAbs.log2 : Int) - x.den.log2 + 1) := by
    refine lt_of_eq_of_lt hdiv.symm ((div_lt_iff₀ hden).2 ?_)
    calc (x.num.natAbs : Rat) < 2 ^ ((x.num.natAbs.log2 : Int) + 1) := lt_two_pow_log2 hnum
      _ = 2 ^ ((x.num.natAbs.log2 : Int) - x.den.log2 + 1) * 2 ^ (x.den.log2 : Int) := by
          rw [← zpow_add₀ (by norm_num)]
          congr 1
          ring
      _ ≤ 2 ^ ((x.num.natAbs.log2 : Int) - x.den.log2 + 1) * x.den :=
          mul_le_mul_of_nonneg_left (two_pow_log2_le x.den_pos) (two_zpow_pos _).le
  simp only [log2Floor]
  split
  next h => exact ⟨h, hhigh⟩
  next h => exact ⟨hlow, by simpa using h⟩

/-- The exponent of the power of two below a number is determined by its bounds. -/
theorem log2Floor_eq {x : Rat} {k : Int} (hlow : (2 : Rat) ^ k ≤ x) (hhigh : x < 2 ^ (k + 1)) :
    log2Floor x = k := by
  obtain ⟨hle, hlt⟩ := log2Floor_spec (lt_of_lt_of_le (two_zpow_pos k) hlow)
  have h1 := two_zpow_lt_iff.1 (lt_of_le_of_lt hlow hlt)
  have h2 := two_zpow_lt_iff.1 (lt_of_le_of_lt hle hhigh)
  omega

/-- A larger number has no smaller power of two below it. -/
theorem log2Floor_mono {x y : Rat} (hx : 0 < x) (h : x ≤ y) : log2Floor x ≤ log2Floor y := by
  have hle := (log2Floor_spec hx).1
  have hlt := (log2Floor_spec (hx.trans_le h)).2
  have := two_zpow_lt_iff.1 (lt_of_le_of_lt (hle.trans h) hlt)
  omega

/-- The grid of a larger number is no finer. -/
theorem gridExponent_mono {x y : Rat} (hx : 0 < x) (h : x ≤ y) : gridExponent x ≤ gridExponent y :=
  max_le_max le_rfl (sub_le_sub_right (log2Floor_mono hx h) _)

/-- No grid is finer than that of the smallest doubles. -/
theorem lowest_le_gridExponent (x : Rat) : lowestExponent ≤ gridExponent x :=
  le_max_left _ _

/-- On its grid a number has at most 53 bits. -/
theorem lt_of_gridExponent {x : Rat} (hx : 0 < x) : x < 2 ^ (gridExponent x + 53) :=
  (log2Floor_spec hx).2.trans_le (two_zpow_le_iff.2 (by simp only [gridExponent]; omega))

/-- On its grid a number has at least 53 bits, unless the grid is the finest. -/
theorem le_of_gridExponent {x : Rat} (hx : 0 < x) (h : gridExponent x ≠ lowestExponent) :
    (2 : Rat) ^ (gridExponent x + 52) ≤ x :=
  (two_zpow_le_iff.2 (by simp only [gridExponent] at *; omega)).trans (log2Floor_spec hx).1

/-- A number has 53 bits on its grid, or fewer if the grid is the finest one. -/
theorem gridExponent_eq {x : Rat} {q : Int} (hx : 0 < x) (hq : lowestExponent ≤ q)
    (hhigh : x < 2 ^ (q + 53)) (hlow : q = lowestExponent ∨ (2 : Rat) ^ (q + 52) ≤ x) :
    gridExponent x = q := by
  have hlt := two_zpow_lt_iff.1 (lt_of_le_of_lt (log2Floor_spec hx).1 hhigh)
  rcases hlow with rfl | hlow
  · exact max_eq_left (by omega)
  · rw [gridExponent, log2Floor_eq hlow (by rwa [show q + 52 + 1 = q + 53 from by ring])]
    omega

/-- Where 53 bits of a grid suffice, the grid of the number is no coarser. -/
theorem gridExponent_le {x : Rat} {q : Int} (hx : 0 < x) (hq : lowestExponent ≤ q)
    (h : x < 2 ^ (q + 53)) : gridExponent x ≤ q := by
  by_cases hlowest : gridExponent x = lowestExponent
  · exact hlowest.trans_le hq
  · have := two_zpow_lt_iff.1 ((le_of_gridExponent hx hlowest).trans_lt h)
    omega

/-! ## The rounded number -/

/-- The number of the double nearest to `x`, if the exponents of doubles had no upper end. -/
def rounded (x : Rat) : Rat :=
  roundHalfEven (x / 2 ^ gridExponent x) * 2 ^ gridExponent x

@[simp] theorem rounded_zero : rounded 0 = 0 := by
  have : roundHalfEven 0 = 0 := by exact_mod_cast roundHalfEven_intCast 0
  simp [rounded, this]

/-- The significand of a rounded number, which may have been carried to the next power of two. -/
theorem significand_bounds {x : Rat} (hx : 0 < x) :
    0 ≤ roundHalfEven (x / 2 ^ gridExponent x) ∧ roundHalfEven (x / 2 ^ gridExponent x) ≤ 2 ^ 53 ∧
      (gridExponent x = lowestExponent ∨ 2 ^ 52 ≤ roundHalfEven (x / 2 ^ gridExponent x)) := by
  have hpos := two_zpow_pos (gridExponent x)
  refine ⟨roundHalfEven_nonneg (div_nonneg hx.le hpos.le), ?_, ?_⟩
  · have hle : x / 2 ^ gridExponent x ≤ ((2 ^ 53 : Int) : Rat) := by
      rw [div_le_iff₀ hpos]
      refine (lt_of_gridExponent hx).le.trans_eq ?_
      rw [zpow_add₀ (by norm_num), mul_comm]
      norm_cast
    exact (roundHalfEven_mono hle).trans_eq (roundHalfEven_intCast _)
  · by_cases h : gridExponent x = lowestExponent
    · exact .inl h
    · right
      have hle : ((2 ^ 52 : Int) : Rat) ≤ x / 2 ^ gridExponent x := by
        rw [le_div_iff₀ hpos]
        refine Eq.trans_le ?_ (le_of_gridExponent hx h)
        rw [zpow_add₀ (by norm_num), mul_comm]
        norm_cast
      exact (roundHalfEven_intCast _).symm.trans_le (roundHalfEven_mono hle)

/-- Rounding to doubles takes nothing below zero. -/
theorem rounded_nonneg {x : Rat} (hx : 0 ≤ x) : 0 ≤ rounded x :=
  mul_nonneg (by exact_mod_cast roundHalfEven_nonneg (div_nonneg hx (two_zpow_pos _).le))
    (two_zpow_pos _).le

/-- Rounding is off by at most half the spacing. -/
theorem abs_rounded_sub_le (x : Rat) : 2 * |rounded x - x| ≤ 2 ^ gridExponent x := by
  have hpos := two_zpow_pos (gridExponent x)
  have hfactor : rounded x - x =
      ((roundHalfEven (x / 2 ^ gridExponent x) : Rat) - x / 2 ^ gridExponent x) *
        2 ^ gridExponent x := by
    rw [rounded, sub_mul, div_mul_cancel₀ _ hpos.ne']
  rw [hfactor, abs_mul, abs_of_pos hpos, ← mul_assoc]
  exact mul_le_of_le_one_left hpos.le (two_mul_abs_roundHalfEven_sub_le _)

/-- Half the spacing above the number bounds the rounding, too. -/
theorem abs_rounded_sub_le_of_lt {x : Rat} {q : Int} (hx : 0 ≤ x) (hq : lowestExponent ≤ q)
    (h : x < 2 ^ (q + 53)) : 2 * |rounded x - x| ≤ 2 ^ q := by
  rcases hx.eq_or_lt with rfl | hx
  · simpa using (two_zpow_pos q).le
  · exact (abs_rounded_sub_le x).trans (two_zpow_le_iff.2 (gridExponent_le hx hq h))

/-- Rounding to doubles keeps the order. -/
theorem rounded_mono {x y : Rat} (hx : 0 ≤ x) (h : x ≤ y) : rounded x ≤ rounded y := by
  rcases hx.eq_or_lt with rfl | hx
  · rw [rounded_zero]
    exact rounded_nonneg h
  rcases (gridExponent_mono hx h).eq_or_lt with heq | hlt
  · -- on one grid the rounding to integers decides
    rw [rounded, rounded, ← heq]
    have := div_le_div_of_nonneg_right h (two_zpow_pos (gridExponent x)).le
    exact mul_le_mul_of_nonneg_right (by exact_mod_cast roundHalfEven_mono this) (two_zpow_pos _).le
  · -- and between two grids there is a power of two
    have hsx : (roundHalfEven (x / 2 ^ gridExponent x) : Rat) ≤ 2 ^ 53 := by
      exact_mod_cast (significand_bounds hx).2.1
    have hsy : (2 : Rat) ^ 52 ≤ roundHalfEven (y / 2 ^ gridExponent y) := by
      have := (significand_bounds (hx.trans_le h)).2.2.resolve_left
        (ne_of_gt ((lowest_le_gridExponent x).trans_lt hlt))
      exact_mod_cast this
    calc rounded x ≤ 2 ^ 53 * 2 ^ gridExponent x :=
          mul_le_mul_of_nonneg_right hsx (two_zpow_pos _).le
      _ = 2 ^ 52 * 2 ^ (gridExponent x + 1) := by
          rw [zpow_add_one₀ (by norm_num)]
          ring
      _ ≤ 2 ^ 52 * 2 ^ gridExponent y :=
          mul_le_mul_of_nonneg_left (two_zpow_le_iff.2 hlt) (by positivity)
      _ ≤ rounded y := mul_le_mul_of_nonneg_right hsy (two_zpow_pos _).le

/-! ## The nearest double -/

/-- Canonical numbers of the same size are the same. -/
theorem eq_of_size_eq {m n : Nat} {q r : Int} (hm : m < 2 ^ 53) (hn : n < 2 ^ 53)
    (hq : lowestExponent ≤ q ∧ (q = lowestExponent ∨ 2 ^ 52 ≤ m))
    (hr : lowestExponent ≤ r ∧ (r = lowestExponent ∨ 2 ^ 52 ≤ n)) (h : size m q = size n r) :
    m = n ∧ q = r := by
  rcases lt_trichotomy q r with hlt | rfl | hlt
  · exact absurd h (size_lt_size hm (hr.2.resolve_left (by omega)) hlt).ne
  · have h1 := (size_le_size_iff q).1 h.le
    have h2 := (size_le_size_iff q).1 h.ge
    exact ⟨le_antisymm h1 h2, rfl⟩
  · exact absurd h (size_lt_size hn (hq.2.resolve_left (by omega)) hlt).ne'

/-- What a number has on its grid is a canonical significand, or one that was carried to the next power
of two. The word is the same in both cases. -/
theorem exists_canonical_of_grid {n : Nat} {g : Int} (hn : n ≤ 2 ^ 53) (hlow : lowestExponent ≤ g)
    (hfull : g = lowestExponent ∨ 2 ^ 52 ≤ n) :
    ∃ m q, m < 2 ^ 53 ∧ lowestExponent ≤ q ∧ (q = lowestExponent ∨ 2 ^ 52 ≤ m) ∧ q ≤ g + 1 ∧
      size m q = n * 2 ^ g ∧ word m q = (g - lowestExponent).toNat * 2 ^ 52 + n := by
  rcases hn.eq_or_lt with rfl | hlt
  · refine ⟨2 ^ 52, g + 1, by norm_num, by omega, .inr le_rfl, le_rfl, ?_, ?_⟩
    · rw [size, zpow_add_one₀ (by norm_num)]
      push_cast
      ring
    · rw [word]
      omega
  · exact ⟨n, g, hlt, hlow, hfull, by omega, rfl, rfl⟩

/-- The number that a positive number rounds to, as it would be written in a double. -/
theorem exists_rounded_eq {x : Rat} (hx : 0 < x) :
    ∃ m q, m < 2 ^ 53 ∧ lowestExponent ≤ q ∧ (q = lowestExponent ∨ 2 ^ 52 ≤ m) ∧
      q ≤ gridExponent x + 1 ∧ size m q = rounded x ∧
      word m q = (gridExponent x - lowestExponent).toNat * 2 ^ 52 +
        (roundHalfEven (x / 2 ^ gridExponent x)).toNat := by
  obtain ⟨hnonneg, hle, hfull⟩ := significand_bounds hx
  rw [rounded]
  generalize roundHalfEven (x / 2 ^ gridExponent x) = n at hnonneg hle hfull ⊢
  lift n to Nat using hnonneg
  exact exists_canonical_of_grid (by exact_mod_cast hle) (lowest_le_gridExponent x)
    (hfull.imp_right fun h => by exact_mod_cast h)

/-- The word of the nearest double is the word of the rounded number. -/
theorem nearestWord_eq {x : Rat} {m : Nat} {q : Int} (hx : 0 ≤ x) (hc : Canonical m q)
    (h : rounded x = size m q) : nearestWord x = word m q := by
  rcases hx.eq_or_lt with rfl | hx
  · rw [rounded_zero, ← size_zero lowestExponent] at h
    obtain ⟨rfl, rfl⟩ := eq_of_size_eq (by norm_num) hc.lt ⟨le_rfl, .inl rfl⟩
      ⟨hc.lowest_le, hc.full⟩ h
    rfl
  obtain ⟨n, r, hlt, hlow, hfull, -, hsize, hword⟩ := exists_rounded_eq hx
  obtain ⟨rfl, rfl⟩ := eq_of_size_eq hlt hc.lt ⟨hlow, hfull⟩ ⟨hc.lowest_le, hc.full⟩ (hsize.trans h)
  simp only [nearestWord, if_neg hx.ne', Nat.shiftLeft_eq, ← hword]
  exact min_eq_right hc.word_lt.le

/-- The double nearest to `x` stands for the rounded number. -/
theorem ofFloat_nearest {x : Rat} {m : Nat} {q : Int} (s : Bool) (hx : 0 ≤ x) (hc : Canonical m q)
    (h : rounded x = size m q) : ofFloat (nearest s x) = finite s m q := by
  rw [nearest, nearestWord_eq hx hc h]
  exact ofFloat_ofWord s hc

/-- A double whose size is the rounded number is the nearest one. -/
theorem nearest_eq {x : Rat} {v : Float} {s : Bool} {m : Nat} {q : Int} (hv : ofFloat v = finite s m q)
    (hx : 0 ≤ x) (h : rounded x = size m q) : nearest s x = v :=
  eq_of_ofFloat_eq_finite (ofFloat_nearest s hx (canonical_of_finite hv) h) hv

/-- A finite nearest double has the sign that was asked for. -/
theorem exists_ofFloat_nearest {s : Bool} {x : Rat} (h : (nearest s x).isFinite = true) :
    ∃ m q, ofFloat (nearest s x) = finite s m q := by
  have hle : nearestWord x ≤ infinityWord := by
    rw [nearestWord]
    split
    · exact Nat.zero_le _
    · exact Nat.min_le_left _ _
  rcases hle.lt_or_eq with hlt | heq
  · obtain ⟨m, q, hc, hword⟩ := exists_word_eq hlt
    refine ⟨m, q, ?_⟩
    rw [nearest, ← hword, ofFloat_ofWord s hc]
  · have hinfinite : (ofWord s infinityWord).isFinite = false := by
      cases s <;> decide +kernel
    rw [nearest, heq, hinfinite] at h
    exact absurd h Bool.false_ne_true

/-- What is below the last power of two rounds to a double. -/
theorem exists_canonical_rounded {x : Rat} (hx : 0 ≤ x) (hmax : x < 2 ^ (1023 : Int)) :
    ∃ m q, Canonical m q ∧ rounded x = size m q := by
  rcases hx.eq_or_lt with rfl | hx
  · exact ⟨0, lowestExponent, canonical_zero, by simp⟩
  have hhigh : gridExponent x ≤ 970 := by
    by_contra hlt
    have hne : gridExponent x ≠ lowestExponent := by
      rw [lowestExponent]
      omega
    have := two_zpow_lt_iff.1 ((le_of_gridExponent hx hne).trans_lt hmax)
    omega
  obtain ⟨m, q, hlt, hlow, hfull, hle, hsize, -⟩ := exists_rounded_eq hx
  exact ⟨m, q, ⟨hlt, hlow, by omega, hfull⟩, hsize.symm⟩

/-! ## The interval around a double -/

/-- A double lies on the grid around it, which has the spacing of its exponent. -/
theorem gridExponent_size {m : Nat} {q : Int} (hc : Canonical m q) (hm : 0 < m) :
    gridExponent (size m q) = q := by
  have hpos := two_zpow_pos q
  refine gridExponent_eq (size_pos hm q) hc.lowest_le ?_ (hc.full.imp_right fun hfull => ?_)
  · rw [size, add_comm, zpow_add₀ (by norm_num)]
    exact mul_lt_mul_of_pos_right (by exact_mod_cast hc.lt) hpos
  · rw [size, add_comm, zpow_add₀ (by norm_num)]
    exact mul_le_mul_of_nonneg_right (by exact_mod_cast hfull) hpos.le

/-- A double is its own rounding. -/
theorem rounded_size {m : Nat} {q : Int} (hc : Canonical m q) : rounded (size m q) = size m q := by
  rcases m.eq_zero_or_pos with rfl | hm
  · simp
  have hpos := two_zpow_pos q
  have hint : roundHalfEven (size m q / 2 ^ q) = (m : Int) := by
    rw [size, mul_div_cancel_right₀ _ hpos.ne']
    exact_mod_cast roundHalfEven_intCast (m : Int)
  rw [rounded, gridExponent_size hc hm, hint, size]
  norm_cast

/-- What lies on a grid within half a spacing of one of its points rounds to that point, and with a
distance of half a spacing if the point is even. -/
theorem rounded_eq_of_abs_sub_le {x : Rat} {n : Int}
    (h : 2 * |x - n * 2 ^ gridExponent x| < 2 ^ gridExponent x ∨
      2 * |x - n * 2 ^ gridExponent x| ≤ 2 ^ gridExponent x ∧ n % 2 = 0) :
    rounded x = n * 2 ^ gridExponent x := by
  have hpos := two_zpow_pos (gridExponent x)
  have hscale : 2 * |x - n * 2 ^ gridExponent x| =
      2 * |x / 2 ^ gridExponent x - n| * 2 ^ gridExponent x := by
    have hfactor : x - n * 2 ^ gridExponent x = (x / 2 ^ gridExponent x - n) * 2 ^ gridExponent x := by
      rw [sub_mul, div_mul_cancel₀ _ hpos.ne']
    rw [hfactor, abs_mul, abs_of_pos hpos, mul_assoc]
  rw [rounded, roundHalfEven_eq]
  rw [hscale] at h
  refine h.imp (fun h => ?_) fun h => ⟨?_, h.2⟩
  · exact lt_of_mul_lt_mul_right (by rwa [one_mul]) hpos.le
  · exact le_of_mul_le_mul_right (by rw [one_mul]; exact h.1) hpos

/-- A rounding interval ends half a spacing above its number. -/
theorem ofSize_upper (m : Nat) (q : Int) :
    (RoundingInterval.ofSize m q).upper = size m q + 2 ^ q / 2 := by
  simp only [RoundingInterval.ofSize, size]
  rw [zpow_sub₀ (by norm_num)]
  push_cast
  ring

/-- How far the interval of a double reaches below it: half the distance to the double before, which is
half as far from a power of two. -/
def marginBelow (m : Nat) (q : Int) : Rat :=
  if m = 2 ^ 52 ∧ lowestExponent < q then 2 ^ q / 4 else 2 ^ q / 2

/-- The margin below a number is at most half a spacing. -/
theorem marginBelow_le (m : Nat) (q : Int) : marginBelow m q ≤ 2 ^ q / 2 := by
  have := two_zpow_pos q
  rw [marginBelow]
  split <;> linarith

/-- A rounding interval begins at the margin below its number. -/
theorem ofSize_lower {m : Nat} (q : Int) (hm : 0 < m) :
    (RoundingInterval.ofSize m q).lower = size m q - marginBelow m q := by
  simp only [RoundingInterval.ofSize, marginBelow, size, Nat.shiftLeft_eq, one_mul]
  split
  all_goals
    rw [zpow_sub₀ (by norm_num), Nat.cast_sub (by omega)]
    push_cast
    ring

/-- What is nearer to a double than the one before lies in its interval. -/
theorem contains_of_abs_sub_lt {m : Nat} {q : Int} {x : Rat} (hm : 0 < m)
    (h : |x - size m q| < marginBelow m q) : (RoundingInterval.ofSize m q).contains x = true := by
  have hmargin := marginBelow_le m q
  obtain ⟨hbelow, habove⟩ := abs_lt.1 h
  have hlow : (RoundingInterval.ofSize m q).lower < x := by
    rw [ofSize_lower q hm]
    linarith
  have hhigh : x < (RoundingInterval.ofSize m q).upper := by
    rw [ofSize_upper]
    linarith
  rw [RoundingInterval.contains]
  split <;> simp [hlow, hhigh, hlow.le, hhigh.le]

/-- What lies in the interval of a double is at most half a spacing away, less if the significand is odd,
and not further below it than the margin. -/
theorem bounds_of_contains {m : Nat} {q : Int} {x : Rat} (hm : 0 < m)
    (h : (RoundingInterval.ofSize m q).contains x = true) :
    2 * |x - size m q| ≤ 2 ^ q ∧ (2 * |x - size m q| < 2 ^ q ∨ m % 2 = 0) ∧
      size m q - x ≤ marginBelow m q := by
  have hmargin := marginBelow_le m q
  have hends : (RoundingInterval.ofSize m q).lower ≤ x ∧ x ≤ (RoundingInterval.ofSize m q).upper ∧
      (m % 2 = 0 ∨ (RoundingInterval.ofSize m q).lower < x ∧
        x < (RoundingInterval.ofSize m q).upper) := by
    rw [RoundingInterval.contains] at h
    split at h <;> simp only [Bool.and_eq_true, decide_eq_true_eq] at h
    next hclosed => exact ⟨h.1, h.2, .inl (by simpa [RoundingInterval.ofSize] using hclosed)⟩
    next => exact ⟨h.1.le, h.2.le, .inr h⟩
  rw [ofSize_upper, ofSize_lower q hm] at hends
  obtain ⟨hlow, hhigh, hopen⟩ := hends
  refine ⟨?_, hopen.symm.imp (fun hopen => ?_) id, by linarith⟩
  · cases abs_cases (x - size m q) <;> linarith
  · cases abs_cases (x - size m q) <;> linarith [hopen.1, hopen.2]

/-- Factors of two may be moved out of the exponent. -/
theorem two_zpow_add (q : Int) (n : Nat) : (2 : Rat) ^ (q + n) = 2 ^ n * 2 ^ q := by
  rw [zpow_add₀ (by norm_num), zpow_natCast, mul_comm]

/-- On the grid of a double, what is in its interval rounds to it. -/
theorem rounded_eq_of_grid {m : Nat} {q : Int} {x : Rat} (hg : gridExponent x = q)
    (hdist : 2 * |x - size m q| ≤ 2 ^ q) (htie : 2 * |x - size m q| < 2 ^ q ∨ m % 2 = 0) :
    rounded x = size m q := by
  have hsize : size m q = ((m : Int) : Rat) * 2 ^ gridExponent x := by
    rw [size, hg, Int.cast_natCast]
  rw [hsize]
  refine rounded_eq_of_abs_sub_le ?_
  rw [← hsize, hg]
  exact htie.imp id fun heven => ⟨hdist, by omega⟩

/-- Just below a power of two the grid is finer, and the power of two is its last point. -/
theorem rounded_eq_two_zpow {x : Rat} {k : Int} (hk : lowestExponent + 53 ≤ k)
    (hlow : 2 ^ k ≤ x + 2 ^ (k - 54)) (hhigh : x < 2 ^ k) : rounded x = 2 ^ k := by
  have hgap : (2 : Rat) ^ k = 2 * 2 ^ (k - 1) := by
    rw [← zpow_one_add₀ (by norm_num)]
    congr 1
    ring
  have hfine : (2 : Rat) ^ (k - 54) ≤ 2 ^ (k - 1) := two_zpow_le_iff.2 (by omega)
  have hx : 0 < x := by
    have : (2 : Rat) ^ (k - 54) < 2 ^ k := two_zpow_lt_iff.2 (by omega)
    linarith
  have hg : gridExponent x = k - 53 := by
    refine gridExponent_eq hx (by omega) (by rwa [sub_add_cancel]) (.inr ?_)
    rw [show k - 53 + 52 = k - 1 by ring]
    linarith
  have hpoint : (2 : Rat) ^ k = ((2 ^ 53 : Int) : Rat) * 2 ^ gridExponent x := by
    have hsplit : (2 : Rat) ^ (k - 53 + 53) = 2 ^ 53 * 2 ^ (k - 53) := two_zpow_add (k - 53) 53
    rw [sub_add_cancel] at hsplit
    rw [hg, hsplit]
    norm_cast
  rw [hpoint]
  refine rounded_eq_of_abs_sub_le (.inr ⟨?_, by norm_num⟩)
  have hhalf : (2 : Rat) ^ (k - 53) = 2 * 2 ^ (k - 54) := by
    rw [← zpow_one_add₀ (by norm_num)]
    congr 1
    ring
  rw [← hpoint, hg, abs_of_nonpos (by linarith)]
  linarith

/-- What lies in the interval of a double rounds to it. -/
theorem rounded_eq_of_contains {m : Nat} {q : Int} {x : Rat} (hc : Canonical m q) (hm : 0 < m)
    (h : (RoundingInterval.ofSize m q).contains x = true) : rounded x = size m q := by
  obtain ⟨hdist, htie, hmargin⟩ := bounds_of_contains hm h
  have hpos := two_zpow_pos q
  obtain ⟨hbelow, habove⟩ := abs_le.1 (show |x - size m q| ≤ 2 ^ q / 2 by linarith)
  have hx : 0 < x := by
    have : 1 * (2 : Rat) ^ q ≤ size m q := mul_le_mul_of_nonneg_right (by exact_mod_cast hm) hpos.le
    linarith
  by_cases hgrid : q = lowestExponent ∨ (2 : Rat) ^ (q + 52) ≤ x
  · have hhigh : x < 2 ^ (q + 53) := by
      have : ((m : Rat) + 1) * 2 ^ q ≤ 2 ^ 53 * 2 ^ q :=
        mul_le_mul_of_nonneg_right (by exact_mod_cast hc.lt) hpos.le
      have hsplit : (2 : Rat) ^ (q + 53) = 2 ^ 53 * 2 ^ q := two_zpow_add q 53
      rw [size] at habove
      linarith
    exact rounded_eq_of_grid (gridExponent_eq hx hc.lowest_le hhigh hgrid) hdist htie
  · -- only the interval of a power of two reaches into the finer grid below it
    push Not at hgrid
    obtain ⟨hne, hlt⟩ := hgrid
    have hq : lowestExponent < q := lt_of_le_of_ne hc.lowest_le (Ne.symm hne)
    have hsplit : (2 : Rat) ^ (q + 52) = 2 ^ 52 * 2 ^ q := two_zpow_add q 52
    have hm52 : m = 2 ^ 52 := by
      by_contra hne'
      have hgt : 2 ^ 52 + 1 ≤ m := by
        have := hc.full.resolve_left hne
        omega
      have : ((2 : Rat) ^ 52 + 1) * 2 ^ q ≤ size m q :=
        mul_le_mul_of_nonneg_right (by exact_mod_cast hgt) hpos.le
      linarith
    have hpower : size m q = 2 ^ (q + 52) := by
      rw [size, hm52, hsplit]
      norm_cast
    have hfourth : (2 : Rat) ^ q = 2 ^ 2 * 2 ^ (q + 52 - 54) := by
      rw [← two_zpow_add]
      congr 1
      push_cast
      ring
    rw [marginBelow, if_pos ⟨hm52, hq⟩, hpower] at hmargin
    rw [hpower]
    exact rounded_eq_two_zpow (by omega) (by linarith) hlt

/-! ## Decimals -/

/-- What is beyond all doubles rounds to infinity. -/
theorem nearestWord_eq_infinityWord {x : Rat} (h : (2 : Rat) ^ (1024 : Int) ≤ x) :
    nearestWord x = infinityWord := by
  have hx : 0 < x := (two_zpow_pos _).trans_le h
  have hg : 972 ≤ gridExponent x := by
    have := two_zpow_lt_iff.1 (h.trans_lt (lt_of_gridExponent hx))
    omega
  have hfull := (significand_bounds hx).2.2.resolve_left fun heq => by
    rw [heq] at hg
    exact absurd hg (by decide)
  simp only [nearestWord, if_neg hx.ne', Nat.shiftLeft_eq]
  refine min_eq_left ?_
  rw [infinityWord, lowestExponent, Nat.shiftLeft_eq]
  omega

/-- What is less than half of the smallest double rounds to zero. -/
theorem nearestWord_eq_zero {x : Rat} (hx : 0 ≤ x) (h : x < 2 ^ (-1075 : Int)) : nearestWord x = 0 := by
  rcases hx.eq_or_lt with rfl | hpos
  · rfl
  have hg : gridExponent x = lowestExponent := by
    refine gridExponent_eq hpos le_rfl (h.trans ?_) (.inl rfl)
    exact two_zpow_lt_iff.2 (by decide)
  refine nearestWord_eq hx canonical_zero ?_
  have hzero : rounded x = ((0 : Int) : Rat) * 2 ^ gridExponent x := by
    refine rounded_eq_of_abs_sub_le (.inl ?_)
    have hhalf : (2 : Rat) ^ lowestExponent = 2 * 2 ^ (-1075 : Int) := by
      rw [← zpow_one_add₀ (by norm_num)]
      rfl
    rw [hg, hhalf, Int.cast_zero, zero_mul, sub_zero, abs_of_pos hpos]
    linarith
  rw [hzero]
  simp

/-- One times ten to the 311 is beyond all doubles. -/
theorem le_toRat_of_lt_exponent {d : Decimal} (hne : d.coefficient ≠ 0) (hlarge : 310 < d.exponent) :
    (2 : Rat) ^ (1024 : Int) ≤ d.toRat := by
  have hone : (1 : Rat) ≤ d.coefficient := by exact_mod_cast Nat.one_le_iff_ne_zero.2 hne
  have hpow : (2 ^ 93 : Rat) ^ 11 ≤ (10 ^ 28) ^ 11 :=
    pow_le_pow_left₀ (by positivity) (by norm_num) 11
  calc (2 : Rat) ^ (1024 : Int) = (2 ^ 93) ^ 11 * 2 := by rw [← pow_mul, ← pow_succ]; rfl
    _ ≤ (10 ^ 28) ^ 11 * 1000 := mul_le_mul hpow (by norm_num) (by norm_num) (by positivity)
    _ = 10 ^ (311 : Int) := by
        rw [← pow_mul, show (1000 : Rat) = 10 ^ 3 by norm_num, ← pow_add]
        rfl
    _ ≤ 10 ^ d.exponent := zpow_le_zpow_right₀ (by norm_num) hlarge
    _ ≤ d.toRat := le_mul_of_one_le_left (zpow_pos (by norm_num) _).le hone

/-- A power of ten below one is at most the same power of eight, which the coefficient does not make up
for. -/
theorem toRat_lt_of_log2_lt {d : Decimal} (hne : d.coefficient ≠ 0)
    (hsmall : (d.coefficient.log2 : Int) + 1081 < -3 * d.exponent) : d.toRat < 2 ^ (-1075 : Int) := by
  have height : (10 : Rat) ^ d.exponent ≤ 2 ^ (3 * d.exponent) := by
    obtain ⟨k, hk⟩ : ∃ k : Nat, d.exponent = -k := ⟨d.exponent.natAbs, by omega⟩
    rw [zpow_mul, hk, zpow_neg, zpow_neg, zpow_natCast, zpow_natCast]
    exact inv_anti₀ (by positivity) (pow_le_pow_left₀ (by positivity) (by norm_num) k)
  calc d.toRat < 2 ^ ((d.coefficient.log2 : Int) + 1) * 10 ^ d.exponent :=
        mul_lt_mul_of_pos_right (lt_two_pow_log2 (Nat.pos_of_ne_zero hne)) (zpow_pos (by norm_num) _)
    _ ≤ 2 ^ ((d.coefficient.log2 : Int) + 1) * 2 ^ (3 * d.exponent) :=
        mul_le_mul_of_nonneg_left height (two_zpow_pos _).le
    _ = 2 ^ ((d.coefficient.log2 : Int) + 1 + 3 * d.exponent) := (zpow_add₀ (by norm_num) _ _).symm
    _ ≤ 2 ^ (-1075 : Int) := two_zpow_le_iff.2 (by omega)

/-- No decimal is negative. -/
theorem toRat_nonneg (d : Decimal) : 0 ≤ d.toRat :=
  mul_nonneg (Nat.cast_nonneg _) (zpow_pos (by norm_num) _).le

/-- The early answers are right: a decimal is always read as the double nearest to it. -/
theorem ofDecimal_eq_nearest (s : Bool) (d : Decimal) : ofDecimal s d = nearest s d.toRat := by
  rw [ofDecimal]
  split
  next hzero => rw [Decimal.toRat, hzero, Nat.cast_zero, zero_mul]
  next hne =>
    split
    next hlarge => rw [infinity, nearest, nearestWord_eq_infinityWord (le_toRat_of_lt_exponent hne hlarge)]
    next =>
      split
      next hsmall =>
        have hzero : nearestWord d.toRat = nearestWord 0 :=
          nearestWord_eq_zero (toRat_nonneg d) (toRat_lt_of_log2_lt hne hsmall)
        rw [nearest, nearest, hzero]
      next => rfl

end Binary64

end DeskCalculator
