import DeskCalculator.Proofs.NearestDecimal

/-!
# The coarsest grid

The shortest decimal of a double is searched for from coarse to fine: on the multiples of larger powers of
ten first. A grid that meets the interval of the double offers a decimal, because one of the double's two
neighbours on the grid lies between the double and the point that is met (`exists_onGrid?_eq_some`). So if
the interval holds a multiple of `10 ^ k`, the shortest decimal is such a multiple too (`onGrid_shortest`),
and has no digit beyond the place `-k`.

The search begins at the leading digit of the double. Where a double is just below a power of ten, it
begins one place late, and finds the power of ten as ten units of this place.
-/

namespace DeskCalculator

open Binary64

/-- Whether a number is a multiple of `10 ^ k`. -/
def OnGrid (k : Int) (x : Rat) : Prop :=
  ∃ n : Int, x = n * 10 ^ k

/-- What is on a grid is on every finer one. -/
theorem OnGrid.of_le {j k : Int} {x : Rat} (hx : OnGrid k x) (h : j ≤ k) : OnGrid j x := by
  obtain ⟨n, rfl⟩ := hx
  obtain ⟨i, hi⟩ := Int.eq_ofNat_of_zero_le (sub_nonneg.2 h)
  refine ⟨n * 10 ^ i, ?_⟩
  have hsplit : k = i + j := by omega
  rw [hsplit, zpow_add₀ (by norm_num), zpow_natCast]
  push_cast
  ring

/-- A decimal lies on the grid of its exponent. -/
theorem Decimal.onGrid_toRat (d : Decimal) : OnGrid d.exponent d.toRat :=
  ⟨d.coefficient, by rw [toRat, Int.cast_natCast]⟩

/-- What is rounded to a number of places lies on their grid. -/
theorem onGrid_nearestMultiple (places : Int) (x : Rat) :
    OnGrid (-places) (nearestMultiple places x) :=
  ⟨_, by rw [nearestMultiple, zpow_neg, div_eq_mul_inv]⟩

/-- Multiples that are less than a unit apart are equal. -/
theorem OnGrid.eq_of_abs_sub_lt {k : Int} {x y : Rat} (hx : OnGrid k x) (hy : OnGrid k y)
    (h : |x - y| < 10 ^ k) : x = y := by
  obtain ⟨n, rfl⟩ := hx
  obtain ⟨j, rfl⟩ := hy
  have hten := zpow_pos (show (0 : Rat) < 10 by norm_num) k
  rw [← sub_mul, abs_mul, abs_of_pos hten] at h
  have hlt : |((n - j : Int) : Rat)| < 1 := by
    push_cast
    exact lt_of_mul_lt_mul_right (by rwa [one_mul]) hten.le
  have hlt : |n - j| < 1 := by exact_mod_cast hlt
  rw [sub_eq_zero.1 (Int.abs_lt_one_iff.1 hlt)]

/-! ## The interval of a double -/

/-- What lies between two numbers of an interval lies in it. -/
theorem RoundingInterval.contains_of_between {i : RoundingInterval} {x y z : Rat}
    (hx : i.contains x = true) (hz : i.contains z = true) (hxy : x ≤ y) (hyz : y ≤ z) :
    i.contains y = true := by
  cases hclosed : i.closed <;>
    simp only [contains, hclosed, if_true, if_false, Bool.false_eq_true, Bool.and_eq_true,
      decide_eq_true_eq] at *
  · exact ⟨hx.1.trans_le hxy, hyz.trans_lt hz.2⟩
  · exact ⟨hx.1.trans hxy, hyz.trans hz.2⟩

namespace Binary64

variable {m : Nat} {q : Int} {z : Rat}

/-- The margin below a number is positive. -/
theorem marginBelow_pos (m : Nat) (q : Int) : 0 < marginBelow m q := by
  have := two_zpow_pos q
  rw [marginBelow]
  split <;> linarith

/-- The margin below a number is at least half of the smallest spacing there is. -/
theorem le_marginBelow (m : Nat) {q : Int} (hq : lowestExponent ≤ q) :
    2 ^ lowestExponent / 2 ≤ marginBelow m q := by
  rw [marginBelow]
  split
  next hpower =>
    have hle : (2 : Rat) ^ (lowestExponent + 1) ≤ 2 ^ q := two_zpow_le_iff.2 hpower.2
    rw [zpow_add_one₀ (by norm_num)] at hle
    linarith
  next =>
    have hle : (2 : Rat) ^ lowestExponent ≤ 2 ^ q := two_zpow_le_iff.2 hq
    linarith

/-- A number lies in its own rounding interval. -/
theorem contains_size (hm : 0 < m) (q : Int) : (RoundingInterval.ofSize m q).contains (size m q) = true :=
  contains_of_abs_sub_lt hm (by simpa using marginBelow_pos m q)

/-- The interval reaches at most half the double to each side. -/
theorem abs_sub_le_of_contains (hm : 0 < m) (hz : (RoundingInterval.ofSize m q).contains z = true) :
    2 * m * |z - size m q| ≤ size m q := by
  have hdist := (bounds_of_contains hm hz).1
  have hcast : (0 : Rat) ≤ m := Nat.cast_nonneg m
  calc 2 * m * |z - size m q| = m * (2 * |z - size m q|) := by ring
    _ ≤ m * 2 ^ q := mul_le_mul_of_nonneg_left hdist hcast
    _ = size m q := rfl

/-- A rounding interval lies between half of its number and one and a half of it. -/
theorem between_of_contains (hm : 0 < m) (hz : (RoundingInterval.ofSize m q).contains z = true) :
    size m q / 2 ≤ z ∧ z ≤ 3 / 2 * size m q := by
  have hle := abs_sub_le_of_contains hm hz
  have hone : (1 : Rat) ≤ m := by exact_mod_cast hm
  have hhalf : |z - size m q| ≤ size m q / 2 := by nlinarith [abs_nonneg (z - size m q)]
  obtain ⟨hbelow, habove⟩ := abs_le.1 hhalf
  constructor <;> linarith

/-- `bounds_of_contains` the other way round. -/
theorem contains_of_bounds (hm : 0 < m) (hlow : size m q - z ≤ marginBelow m q)
    (hhigh : z - size m q ≤ 2 ^ q / 2) (htie : 2 * |z - size m q| < 2 ^ q ∨ m % 2 = 0) :
    (RoundingInterval.ofSize m q).contains z = true := by
  rw [sub_le_comm, ← ofSize_lower q hm] at hlow
  rw [sub_le_iff_le_add', ← ofSize_upper] at hhigh
  by_cases heven : m % 2 = 0
  · have hclosed : (RoundingInterval.ofSize m q).closed = true := decide_eq_true heven
    simp [RoundingInterval.contains, hclosed, hlow, hhigh]
  · -- the significand is odd, so it is not the one of a power of two
    have hmargin : marginBelow m q = 2 ^ q / 2 := if_neg fun hpower => heven (by rw [hpower.1]; rfl)
    refine contains_of_abs_sub_lt hm ?_
    rw [hmargin]
    linarith [htie.resolve_right heven]

/-- The grid on which a number rounds to a double is the one of the double, or the finer one below a power
of two. -/
theorem grid_of_rounded_eq (hc : Canonical m q) (hz : 0 < z) (h : rounded z = size m q) :
    gridExponent z = q ∧ roundHalfEven (z / 2 ^ gridExponent z) = m ∨
      gridExponent z + 1 = q ∧ m = 2 ^ 52 := by
  obtain ⟨hnonneg, hle, hfull⟩ := significand_bounds hz
  obtain ⟨m', q', hlt, hlow, hfull', hq, hsize, hword⟩ := exists_rounded_eq hz
  obtain ⟨rfl, rfl⟩ := eq_of_size_eq hlt hc.lt ⟨hlow, hfull'⟩ ⟨hc.lowest_le, hc.full⟩ (hsize.trans h)
  have hgrid := lowest_le_gridExponent z
  rw [word] at hword
  omega

/-- What rounds to a double lies in its interval. -/
theorem contains_of_rounded_eq (hc : Canonical m q) (hm : 0 < m) (hz : 0 < z)
    (h : rounded z = size m q) : (RoundingInterval.ofSize m q).contains z = true := by
  have hdist := abs_rounded_sub_le z
  rw [h, abs_sub_comm] at hdist
  obtain ⟨hbelow, habove⟩ := abs_le.1 (show |z - size m q| ≤ 2 ^ gridExponent z / 2 by linarith)
  rcases grid_of_rounded_eq hc hz h with ⟨rfl, hround⟩ | ⟨rfl, rfl⟩
  · have hpos := two_zpow_pos (gridExponent z)
    refine contains_of_bounds hm ?_ habove ?_
    · rw [marginBelow]
      split
      next hpower =>
        -- the grid is not finer at `z`, so `z` is not below the power of two
        have hle := le_of_gridExponent hz hpower.2.ne'
        have hsize : size m (gridExponent z) = 2 ^ (gridExponent z + 52) := by
          rw [hpower.1, size, add_comm, zpow_add₀ (by norm_num)]
          norm_cast
        linarith
      next => linarith
    · rcases hdist.lt_or_eq with hlt | heq
      · exact .inl hlt
      · right
        have hfactor : z - size m (gridExponent z) =
            (z / 2 ^ gridExponent z - (m : Int)) * 2 ^ gridExponent z := by
          rw [sub_mul, div_mul_cancel₀ _ hpos.ne', size, Int.cast_natCast]
        have hhalf : 2 * |z / 2 ^ gridExponent z - (m : Int)| = 1 := by
          rw [hfactor, abs_mul, abs_of_pos hpos, ← mul_assoc] at heq
          exact mul_right_cancel₀ hpos.ne' (heq.trans (one_mul _).symm)
        have := roundHalfEven_emod_two_of_abs hhalf
        omega
  · have hstep : (2 : Rat) ^ (gridExponent z + 1) = 2 ^ gridExponent z * 2 := zpow_add_one₀ (by norm_num) _
    have hmargin : marginBelow (2 ^ 52) (gridExponent z + 1) = 2 ^ (gridExponent z + 1) / 4 :=
      if_pos ⟨rfl, Int.lt_add_one_of_le (lowest_le_gridExponent z)⟩
    have hpos := two_zpow_pos (gridExponent z)
    refine contains_of_bounds hm ?_ ?_ (.inr rfl)
    · rw [hmargin, hstep]
      linarith
    · rw [hstep]
      linarith

end Binary64

/-! ## The search for the shortest decimal -/

namespace Decimal

variable {m : Nat} {q k : Int} {z : Rat} {d : Decimal}

/-- A candidate has the exponent of the grid on which it was looked for. -/
theorem exponent_of_onGrid?_eq_some {i : RoundingInterval} {x : Rat} (h : onGrid? i x k = some d) :
    d.exponent = k := by
  simp only [onGrid?] at h
  split at h
  next => exact Option.some.inj h ▸ rfl
  next => exact Option.some.inj h ▸ rfl
  next => exact Option.some.inj h ▸ rfl
  next => cases h

/-- A grid that meets an interval around `x` offers a decimal: one of the neighbours of `x` on the grid is
between `x` and the point that is met. -/
theorem exists_onGrid?_eq_some {i : RoundingInterval} {x : Rat} (hx : 0 < x) (hmem : i.contains x = true)
    (hz : i.contains z = true) (hgrid : OnGrid k z) : ∃ d, onGrid? i x k = some d := by
  obtain ⟨n, rfl⟩ := hgrid
  have hten := ten_zpow_pos k
  have hfloor : 0 ≤ (x / 10 ^ k).floor := Rat.le_floor_iff.2 (by exact_mod_cast (div_pos hx hten).le)
  have hbelow : ((x / 10 ^ k).floor : Rat) * 10 ^ k ≤ x := (le_div_iff₀ hten).1 (Rat.floor_le _)
  have habove : x < ((x / 10 ^ k).floor + 1 : Int) * 10 ^ k :=
    (div_lt_iff₀ hten).1 (Rat.lt_floor_add_one _)
  have hcast : (((x / 10 ^ k).floor.toNat : Nat) : Rat) = (x / 10 ^ k).floor := by
    exact_mod_cast Int.toNat_of_nonneg hfloor
  have hfound : i.contains (⟨(x / 10 ^ k).floor.toNat, k⟩ : Decimal).toRat = true ∨
      i.contains (⟨(x / 10 ^ k).floor.toNat + 1, k⟩ : Decimal).toRat = true := by
    simp only [toRat]
    push_cast
    rw [hcast]
    rcases lt_or_ge (x / 10 ^ k).floor n with hlt | hle
    · right
      refine RoundingInterval.contains_of_between hmem hz (by exact_mod_cast habove.le) ?_
      exact mul_le_mul_of_nonneg_right (by exact_mod_cast hlt) hten.le
    · left
      refine RoundingInterval.contains_of_between hz hmem ?_ hbelow
      exact mul_le_mul_of_nonneg_right (by exact_mod_cast hle) hten.le
  simp only [onGrid?]
  rcases hfound with hfound | hfound <;> rw [hfound] <;> split <;> simp_all

/-- The exponents of the grids that are searched, from coarse to fine. -/
def searched (lead : Int) : List Int :=
  (List.range sufficientDigits).map fun (n : Nat) => lead - (n : Int)

/-- The 17 grids from the one of the leading digit downward are searched. -/
theorem mem_searched_iff {lead : Int} : k ∈ searched lead ↔ lead - 16 ≤ k ∧ k ≤ lead := by
  simp only [searched, sufficientDigits, List.mem_map, List.mem_range]
  constructor
  · rintro ⟨n, hn, rfl⟩
    omega
  · rintro ⟨hlow, hhigh⟩
    exact ⟨(lead - k).toNat, by omega, by omega⟩

/-- The grids are searched from the coarsest to the finest. -/
theorem pairwise_searched (lead : Int) : (searched lead).Pairwise (· > ·) := by
  refine List.pairwise_map.2 (List.pairwise_lt_range.imp fun h => ?_)
  omega

/-- The search stops at a grid that offers a decimal and that no coarser one comes before. -/
theorem exponent_shortest_cases (hm : 0 < m) (q : Int) :
    (∃ coarser finer, searched (log10Floor (size m q)) = coarser ++ (shortest m q).exponent :: finer ∧
      onGrid? (.ofSize m q) (size m q) (shortest m q).exponent = some (shortest m q) ∧
      ∀ j ∈ coarser, onGrid? (.ofSize m q) (size m q) j = none) ∨
    (shortest m q).exponent = log10Floor (size m q) - 16 ∧
      ∀ j ∈ searched (log10Floor (size m q)), onGrid? (.ofSize m q) (size m q) j = none := by
  simp only [shortest, if_neg hm.ne']
  split
  next d hd =>
    obtain ⟨coarser, j, finer, hsplit, hj, hnone⟩ := List.findSome?_eq_some_iff.1 hd
    obtain rfl := exponent_of_onGrid?_eq_some hj
    exact .inl ⟨coarser, finer, hsplit, hj, hnone⟩
  next hnone => exact .inr ⟨rfl, List.findSome?_eq_none_iff.1 hnone⟩

/-- The shortest decimal is on the coarsest grid, from the leading digit on, that meets the interval. -/
theorem le_exponent_shortest (hm : 0 < m) (hz : (RoundingInterval.ofSize m q).contains z = true)
    (hgrid : OnGrid k z) (hk : k ≤ log10Floor (size m q)) : k ≤ (shortest m q).exponent := by
  obtain ⟨c, hc⟩ := exists_onGrid?_eq_some (size_pos hm q) (contains_size hm q) hz hgrid
  have hoffer : onGrid? (.ofSize m q) (size m q) k ≠ none := by
    rw [hc]
    exact Option.some_ne_none c
  have hmem : log10Floor (size m q) - 16 ≤ k → k ∈ searched (log10Floor (size m q)) := fun hlow =>
    mem_searched_iff.2 ⟨hlow, hk⟩
  rcases exponent_shortest_cases hm q with ⟨coarser, finer, hsplit, -, hnone⟩ | ⟨hlast, hnone⟩
  · have horder := pairwise_searched (log10Floor (size m q))
    have hstop : (shortest m q).exponent ∈ searched (log10Floor (size m q)) := by
      rw [hsplit]
      simp
    rw [hsplit] at hmem horder
    by_contra hlt
    have hlow := (mem_searched_iff.1 hstop).1
    rcases List.mem_append.1 (hmem (by omega)) with hin | hin
    · exact hoffer (hnone k hin)
    · rcases List.mem_cons.1 hin with rfl | hin
      · exact hlt le_rfl
      · have := (List.pairwise_cons.1 (List.pairwise_append.1 horder).2.1).1 k hin
        omega
  · by_contra hlt
    exact hoffer (hnone k (hmem (by omega)))

/-! ## Doubles just below a power of ten -/

/-- The grid of the leading digit offers the power of ten above, if the number is nearer to it than half
a unit. -/
theorem toRat_of_onGrid?_lead {i : RoundingInterval} {x : Rat} {lead : Int}
    (hlow : 19 / 2 * 10 ^ lead < x) (hhigh : x < 10 ^ (lead + 1))
    (hz : i.contains (10 ^ (lead + 1)) = true) (h : onGrid? i x lead = some d) :
    d.toRat = 10 ^ (lead + 1) := by
  have hten := ten_zpow_pos lead
  have hnext : (10 : Rat) ^ (lead + 1) = 10 * 10 ^ lead := by
    rw [zpow_add_one₀ (by norm_num), mul_comm]
  rw [hnext] at hz hhigh ⊢
  have hlow : 19 / 2 < x / 10 ^ lead := (lt_div_iff₀ hten).2 hlow
  have hhigh : x / 10 ^ lead < 10 := (div_lt_iff₀ hten).2 hhigh
  have hfloor : (x / 10 ^ lead).floor = 9 := by
    refine le_antisymm (Int.lt_add_one_iff.1 (Rat.floor_lt_iff.2 ?_)) (Rat.le_floor_iff.2 ?_)
    · exact_mod_cast hhigh
    · push_cast
      linarith
  have hround : roundHalfEven (x / 10 ^ lead) = 10 := by
    refine roundHalfEven_eq (.inl ?_)
    push_cast
    rw [abs_of_neg (by linarith)]
    linarith
  have hvalue : (⟨10, lead⟩ : Decimal).toRat = 10 * 10 ^ lead := by
    rw [toRat, Nat.cast_ofNat]
  have habove : i.contains (⟨(9 : Int).toNat + 1, lead⟩ : Decimal).toRat = true := hvalue ▸ hz
  simp only [onGrid?, hfloor, hround] at h
  rw [habove] at h
  split at h
  next => exact Option.some.inj h ▸ hvalue
  next heq => cases heq
  next => exact Option.some.inj h ▸ hvalue
  next heq => cases heq

/-- A double of ten units or more is within a twentieth of whatever lies in its interval, so a power of
ten above it is found. -/
theorem toRat_shortest_of_ten_le (hm : 10 ≤ m)
    (hz : (RoundingInterval.ofSize m q).contains (10 ^ (log10Floor (size m q) + 1)) = true) :
    (shortest m q).toRat = 10 ^ (log10Floor (size m q) + 1) := by
  have hpos : 0 < m := by omega
  have hsize := size_pos hpos q
  have hhigh := lt_ten_zpow_log10Floor hsize
  have hten := ten_zpow_pos (log10Floor (size m q))
  have hnext : (10 : Rat) ^ (log10Floor (size m q) + 1) = 10 * 10 ^ log10Floor (size m q) := by
    rw [zpow_add_one₀ (by norm_num), mul_comm]
  have hclose : 20 * (10 ^ (log10Floor (size m q) + 1) - size m q) ≤ size m q := by
    have hdist := abs_sub_le_of_contains hpos hz
    have hcast : (10 : Rat) ≤ m := by exact_mod_cast hm
    rw [abs_of_pos (by linarith)] at hdist
    nlinarith
  have hgrid : OnGrid (log10Floor (size m q)) (10 ^ (log10Floor (size m q) + 1)) := ⟨10, by
    rw [hnext]
    norm_num⟩
  have hstop := le_exponent_shortest hpos hz hgrid le_rfl
  rcases exponent_shortest_cases hpos q with ⟨coarser, finer, hsplit, hfound, -⟩ | ⟨hlast, -⟩
  · have hlead : (shortest m q).exponent = log10Floor (size m q) := by
      have hmem : (shortest m q).exponent ∈ searched (log10Floor (size m q)) := by
        rw [hsplit]
        simp
      exact le_antisymm (mem_searched_iff.1 hmem).2 hstop
    rw [hlead] at hfound
    exact toRat_of_onGrid?_lead (by linarith) hhigh hz hfound
  · omega

/-- Of the doubles with fewer than ten units only twice the smallest one has a power of ten above it in its
interval. -/
theorem toRat_shortest_of_lt_ten : ∀ m < 10, 0 < m →
    (RoundingInterval.ofSize m lowestExponent).contains
      (10 ^ (log10Floor (size m lowestExponent) + 1)) = true →
    (shortest m lowestExponent).toRat = 10 ^ (log10Floor (size m lowestExponent) + 1) := by
  decide +kernel

/-- The search finds a power of ten in the interval also if it begins one place behind it. -/
theorem toRat_shortest_of_power_above (hc : Canonical m q) (hm : 0 < m)
    (hz : (RoundingInterval.ofSize m q).contains (10 ^ (log10Floor (size m q) + 1)) = true) :
    (shortest m q).toRat = 10 ^ (log10Floor (size m q) + 1) := by
  rcases le_or_gt 10 m with hlarge | hsmall
  · exact toRat_shortest_of_ten_le hlarge hz
  · obtain rfl : q = lowestExponent := hc.full.resolve_right (by omega)
    exact toRat_shortest_of_lt_ten m hsmall hm hz

/-- If the interval of a double meets a grid, the shortest decimal of the double is on the grid. -/
theorem onGrid_shortest (hc : Canonical m q) (hm : 0 < m)
    (hz : (RoundingInterval.ofSize m q).contains z = true) (hgrid : OnGrid k z) :
    OnGrid k (shortest m q).toRat := by
  rcases le_or_gt k (log10Floor (size m q)) with hk | hk
  · exact (shortest m q).onGrid_toRat.of_le (le_exponent_shortest hm hz hgrid hk)
  -- the double is below the first multiple of `10 ^ k`, so this one is the power of ten above the double
  have hsize := size_pos hm q
  have hbelow := lt_ten_zpow_log10Floor hsize
  have hunit : (10 : Rat) ^ k ≤ z := by
    obtain ⟨n, rfl⟩ := hgrid
    have hpos : 0 < (n : Rat) * 10 ^ k := (half_pos hsize).trans_le (between_of_contains hm hz).1
    have hn : (1 : Rat) ≤ n := by
      have : (0 : Rat) < n := pos_of_mul_pos_left hpos (ten_zpow_pos k).le
      exact_mod_cast this
    exact le_mul_of_one_le_left (ten_zpow_pos k).le hn
  have hpower : (10 : Rat) ^ (log10Floor (size m q) + 1) ≤ 10 ^ k := ten_zpow_le_iff.2 hk
  have hmem : (RoundingInterval.ofSize m q).contains (10 ^ (log10Floor (size m q) + 1)) = true :=
    RoundingInterval.contains_of_between (contains_size hm q) hz hbelow.le (hpower.trans hunit)
  have hk : k = log10Floor (size m q) + 1 := by
    have habove := (between_of_contains hm hz).2
    have hnext : (10 : Rat) ^ (log10Floor (size m q) + 1 + 1) = 10 ^ (log10Floor (size m q) + 1) * 10 :=
      zpow_add_one₀ (by norm_num) _
    have hlt : (10 : Rat) ^ k < 10 ^ (log10Floor (size m q) + 1 + 1) := by linarith
    have := ten_zpow_lt_iff.1 hlt
    omega
  rw [toRat_shortest_of_power_above hc hm hmem, hk]
  exact ⟨1, by rw [Int.cast_one, one_mul]⟩

/-- The unit of the place 324 is less than the smallest double. -/
theorem ten_zpow_lt_two_zpow_lowest : (10 : Rat) ^ (-324 : Int) < 2 ^ lowestExponent := by
  have hpow : ((2 : Rat) ^ 179) ^ 6 < (10 ^ 54) ^ 6 :=
    pow_lt_pow_left₀ (by norm_num) (by positivity) (by decide)
  rw [← pow_mul, ← pow_mul] at hpow
  rw [lowestExponent, zpow_neg, zpow_neg]
  exact inv_strictAnti₀ (zpow_pos (by norm_num) _) hpow

/-- No shortest decimal has a digit beyond the place 324. -/
theorem onGrid_shortest_324 (hc : Canonical m q) (hm : 0 < m) : OnGrid (-324) (shortest m q).toRat := by
  refine onGrid_shortest hc hm (contains_of_abs_sub_lt hm ?_) (onGrid_nearestMultiple 324 (size m q))
  have hmargin := le_marginBelow m hc.lowest_le
  have hunit := ten_zpow_lt_two_zpow_lowest
  have hdist : 2 * |nearestMultiple 324 (size m q) - size m q| ≤ 10 ^ (-324 : Int) := by
    rw [zpow_neg, ← one_div, le_div_iff₀ (ten_zpow_pos 324)]
    exact abs_nearestMultiple_sub_le 324 (size m q)
  linarith

end Decimal

end DeskCalculator
