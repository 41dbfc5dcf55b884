import DeskCalculator.Proofs.Places

/-!
# Nearest decimals

`IsNearest admits x y` says that no admitted decimal is nearer to `x` than `y`, and that of two decimals
that are equally near the one with the even coefficient is taken. The display rounds in two ways, and each
is nearest in this sense: to a number of places, where the exponent is fixed (`isNearest_nearestMultiple`),
and to a number of significant digits, where the digits of the coefficient are counted
(`isNearest_scientific`).

Rounding to significant digits takes place on one grid only. A decimal that is not on it has too few
digits to reach the power of ten below the number, so this power of ten, which is on the grid, is nearer.
-/

namespace DeskCalculator

/-- Whether `y` is the decimal nearest to `x` among those of an admitted coefficient and exponent; of two
that are equally near, the one whose coefficient is even. -/
def IsNearest (admits : Int → Int → Prop) (x y : Rat) : Prop :=
  ∃ c e : Int, admits c e ∧ y = c * 10 ^ e ∧ ∀ c' e' : Int, admits c' e' →
    |y - x| ≤ |c' * 10 ^ e' - x| ∧ (|c' * 10 ^ e' - x| = |y - x| → c' * 10 ^ e' ≠ y → c % 2 = 0)

/-- The decimals with `n` significant digits. -/
def HasDigits (n : Nat) (c _ : Int) : Prop :=
  10 ^ (n - 1) ≤ |c| ∧ |c| < 10 ^ n

/-- The decimals with at most `n` places. -/
def HasPlaces (n : Nat) (_ e : Int) : Prop :=
  e = -n

/-- The nearest decimal of the opposite number is the opposite decimal. -/
theorem IsNearest.neg {admits : Int → Int → Prop} {x y : Rat}
    (hadmits : ∀ c e, admits c e → admits (-c) e) (h : IsNearest admits x y) :
    IsNearest admits (-x) (-y) := by
  obtain ⟨c, e, hce, rfl, hnearest⟩ := h
  refine ⟨-c, e, hadmits c e hce, by push_cast; ring, fun c' e' hce' => ?_⟩
  have hflip : ∀ z : Rat, |-z - -x| = |z - x| := fun z => by
    rw [neg_sub_neg, abs_sub_comm]
  have hopposite : (c' : Rat) * 10 ^ e' = -(((-c' : Int) : Rat) * 10 ^ e') := by
    push_cast
    ring
  obtain ⟨hle, htie⟩ := hnearest (-c') e' (hadmits c' e' hce')
  rw [hopposite, hflip, hflip, Int.neg_emod_two]
  exact ⟨hle, fun heq hne => htie heq fun h => hne (by rw [h])⟩

/-! ## Rounding on a grid -/

/-- No integer is nearer than the rounding, and an integer that is equally near leaves it even. -/
theorem abs_roundHalfEven_sub_le (x : Rat) (k : Int) :
    |(roundHalfEven x : Rat) - x| ≤ |k - x| ∧
      (|(k : Rat) - x| = |(roundHalfEven x : Rat) - x| → k ≠ roundHalfEven x →
        roundHalfEven x % 2 = 0) := by
  have hround := two_mul_abs_roundHalfEven_sub_le x
  rcases eq_or_ne k (roundHalfEven x) with rfl | hne
  · exact ⟨le_rfl, fun _ h => absurd rfl h⟩
  have hapart : (1 : Rat) ≤ |(k : Rat) - roundHalfEven x| := by
    exact_mod_cast Int.one_le_abs (sub_ne_zero.2 hne)
  have htriangle := abs_sub_le (k : Rat) x (roundHalfEven x)
  rw [abs_sub_comm x] at htriangle
  refine ⟨by linarith, fun heq _ => roundHalfEven_emod_two_of_abs (n := roundHalfEven x) ?_⟩
  -- both are half a unit away, on different sides
  rw [abs_sub_comm]
  linarith

/-- The same on the grid of the multiples of `g`. -/
theorem abs_roundHalfEven_mul_sub_le {g : Rat} (hg : 0 < g) (x : Rat) (k : Int) :
    |roundHalfEven (x / g) * g - x| ≤ |k * g - x| ∧
      (|k * g - x| = |roundHalfEven (x / g) * g - x| → k * g ≠ roundHalfEven (x / g) * g →
        roundHalfEven (x / g) % 2 = 0) := by
  have hscale : ∀ n : Int, |n * g - x| = |(n : Rat) - x / g| * g := fun n => by
    rw [← abs_of_pos hg, ← abs_mul, abs_of_pos hg, sub_mul, div_mul_cancel₀ _ hg.ne']
  obtain ⟨hle, htie⟩ := abs_roundHalfEven_sub_le (x / g) k
  rw [hscale, hscale]
  refine ⟨mul_le_mul_of_nonneg_right hle hg.le, fun heq hne => htie ?_ ?_⟩
  · exact mul_right_cancel₀ hg.ne' heq
  · rintro rfl
    exact hne rfl

/-- Rounding to places goes to the nearest decimal with so many places. -/
theorem isNearest_nearestMultiple (places : Nat) (x : Rat) :
    IsNearest (HasPlaces places) x (nearestMultiple places x) := by
  have hdiv : x * 10 ^ (places : Int) = x / 10 ^ (-places : Int) := by
    rw [zpow_neg, div_inv_eq_mul]
  have hvalue : nearestMultiple places x =
      roundHalfEven (x / 10 ^ (-places : Int)) * 10 ^ (-places : Int) := by
    rw [nearestMultiple, hdiv, zpow_neg, div_eq_mul_inv]
  rw [hvalue]
  refine ⟨_, _, rfl, rfl, ?_⟩
  rintro c' e' rfl
  exact abs_roundHalfEven_mul_sub_le (ten_zpow_pos _) x c'

/-! ## The power of ten below -/

theorem ten_zpow_le_iff {j k : Int} : (10 : Rat) ^ j ≤ 10 ^ k ↔ j ≤ k :=
  zpow_le_zpow_iff_right₀ (by norm_num)

theorem ten_zpow_lt_iff {j k : Int} : (10 : Rat) ^ j < 10 ^ k ↔ j < k :=
  zpow_lt_zpow_iff_right₀ (by norm_num)

/-- Factors of ten may be moved out of the exponent. -/
theorem ten_zpow_natCast_add (n : Nat) (k : Int) : (10 : Rat) ^ (n + k) = (10 ^ n : Int) * 10 ^ k := by
  rw [zpow_add₀ (by norm_num), zpow_natCast]
  norm_cast

/-- The next power of ten is greater than the number. -/
theorem lt_ten_zpow_log10Floor {x : Rat} (hx : 0 < x) : x < 10 ^ (log10Floor x + 1) := by
  rw [log10Floor]
  split
  next hone =>
    have hfloor : 0 ≤ x.floor := Rat.le_floor_iff.2 (by exact_mod_cast hx.le)
    have hwidth := lt_pow_decimalWidth x.floor.toNat
    rw [sub_add_cancel, zpow_natCast]
    calc x < x.floor + 1 := by exact_mod_cast Rat.lt_floor_add_one x
      _ = (x.floor.toNat : Int) + 1 := by rw [Int.toNat_of_nonneg hfloor]
      _ ≤ 10 ^ decimalWidth x.floor.toNat := by exact_mod_cast hwidth
  next hone =>
    have hinv : 1 < x⁻¹ := (one_lt_inv₀ hx).2 (not_le.1 hone)
    have hceil : 1 < x⁻¹.ceil := by
      have : (1 : Rat) < x⁻¹.ceil := hinv.trans_le Rat.le_ceil
      exact_mod_cast this
    have hbelow : ((x⁻¹.ceil - 1 : Int) : Rat) < x⁻¹ := by
      by_contra hle
      have := Rat.ceil_le_iff.2 (not_lt.1 hle)
      omega
    have hwidth := pow_decimalWidth_sub_one_le (n := x⁻¹.ceil.toNat - 1) (by omega)
    have hpos : 0 < decimalWidth (x⁻¹.ceil.toNat - 1) := Nat.length_toDigits_pos
    have hexp : -(decimalWidth (x⁻¹.ceil.toNat - 1) : Int) + 1 =
        -((decimalWidth (x⁻¹.ceil.toNat - 1) - 1 : Nat) : Int) := by omega
    rw [hexp, zpow_neg, zpow_natCast]
    refine (lt_inv_comm₀ hx (by positivity)).2 (lt_of_le_of_lt ?_ hbelow)
    have : ((10 ^ (decimalWidth (x⁻¹.ceil.toNat - 1) - 1) : Nat) : Int) ≤ x⁻¹.ceil - 1 := by omega
    exact_mod_cast this

/-- The exponent of the power of ten below a number is determined by its bounds. -/
theorem log10Floor_eq {x : Rat} {k : Int} (hlow : (10 : Rat) ^ k ≤ x) (hhigh : x < 10 ^ (k + 1)) :
    log10Floor x = k := by
  have hx := (ten_zpow_pos k).trans_le hlow
  have h1 := ten_zpow_lt_iff.1 (hlow.trans_lt (lt_ten_zpow_log10Floor hx))
  have h2 := ten_zpow_lt_iff.1 ((ten_zpow_log10Floor_le hx).trans_lt hhigh)
  omega

/-- A larger number has no smaller power of ten below it. -/
theorem log10Floor_mono {x y : Rat} (hx : 0 < x) (h : x ≤ y) : log10Floor x ≤ log10Floor y := by
  have := ten_zpow_lt_iff.1
    (((ten_zpow_log10Floor_le hx).trans h).trans_lt (lt_ten_zpow_log10Floor (hx.trans_le h)))
  omega

/-! ## Rounding to significant digits -/

namespace Decimal

variable {x y : Rat} {places : Nat}

/-- The coefficient on the grid of the last digit has as many digits as are asked for, or was carried to
the next power of ten. -/
theorem scientific_bounds (hx : 0 < x) (places : Nat) :
    10 ^ places ≤ roundHalfEven (x / 10 ^ (log10Floor x - places)) ∧
      roundHalfEven (x / 10 ^ (log10Floor x - places)) ≤ 10 ^ (places + 1) := by
  have hgrid := ten_zpow_pos (log10Floor x - places)
  have hlow : ((10 ^ places : Int) : Rat) ≤ x / 10 ^ (log10Floor x - places) := by
    rw [le_div_iff₀ hgrid, ← ten_zpow_natCast_add, add_sub_cancel]
    exact ten_zpow_log10Floor_le hx
  have hhigh : x / 10 ^ (log10Floor x - places) ≤ ((10 ^ (places + 1) : Int) : Rat) := by
    rw [div_le_iff₀ hgrid, ← ten_zpow_natCast_add, Nat.cast_add_one, add_right_comm, add_sub_cancel]
    exact (lt_ten_zpow_log10Floor hx).le
  exact ⟨(roundHalfEven_intCast _).symm.trans_le (roundHalfEven_mono hlow),
    (roundHalfEven_mono hhigh).trans_eq (roundHalfEven_intCast _)⟩

/-- Whether or not it was carried, the decimal is the rounding on the grid of its last digit. -/
theorem toRat_scientific (hx : 0 < x) (places : Nat) :
    (scientific x places).toRat =
      roundHalfEven (x / 10 ^ (log10Floor x - places)) * 10 ^ (log10Floor x - places) := by
  have hnonneg : 0 ≤ roundHalfEven (x / 10 ^ (log10Floor x - places)) :=
    le_trans (by positivity) (scientific_bounds hx places).1
  have hcast : (((roundHalfEven (x / 10 ^ (log10Floor x - places))).toNat : Nat) : Rat) =
      roundHalfEven (x / 10 ^ (log10Floor x - places)) := by
    exact_mod_cast Int.toNat_of_nonneg hnonneg
  simp only [scientific]
  split
  next hcarry =>
    rw [toRat, ← hcast, hcarry, Nat.pow_eq, Nat.pow_eq, add_sub_right_comm, zpow_add_one₀ (by norm_num)]
    push_cast
    ring
  next => rw [toRat, hcast]

/-- The coefficient has one digit more than places. -/
theorem coefficient_scientific_bounds (hx : 0 < x) (places : Nat) :
    10 ^ places ≤ (scientific x places).coefficient ∧
      (scientific x places).coefficient < 10 ^ (places + 1) := by
  obtain ⟨hlow, hhigh⟩ := scientific_bounds hx places
  have hlow : ((10 ^ places : Nat) : Int) ≤ roundHalfEven (x / 10 ^ (log10Floor x - places)) := by
    exact_mod_cast hlow
  have hhigh : roundHalfEven (x / 10 ^ (log10Floor x - places)) ≤ ((10 ^ (places + 1) : Nat) : Int) := by
    exact_mod_cast hhigh
  simp only [scientific, Nat.pow_eq]
  split
  · exact ⟨le_rfl, Nat.pow_lt_pow_right (by decide) places.lt_succ_self⟩
  next hne =>
    generalize roundHalfEven (x / 10 ^ (log10Floor x - places)) = n at *
    exact ⟨by change 10 ^ places ≤ n.toNat; omega, by change n.toNat < 10 ^ (places + 1); omega⟩

/-- The rounding stays between the two powers of ten around the number. -/
theorem toRat_scientific_bounds (hx : 0 < x) (places : Nat) :
    (10 : Rat) ^ log10Floor x ≤ (scientific x places).toRat ∧
      (scientific x places).toRat ≤ 10 ^ (log10Floor x + 1) := by
  have hgrid := ten_zpow_pos (log10Floor x - places)
  obtain ⟨hlow, hhigh⟩ := scientific_bounds hx places
  have hbelow : (10 : Rat) ^ log10Floor x = (10 ^ places : Int) * 10 ^ (log10Floor x - places) := by
    rw [← ten_zpow_natCast_add, add_sub_cancel]
  have habove : (10 : Rat) ^ (log10Floor x + 1) =
      (10 ^ (places + 1) : Int) * 10 ^ (log10Floor x - places) := by
    rw [← ten_zpow_natCast_add, Nat.cast_add_one, add_right_comm, add_sub_cancel]
  rw [toRat_scientific hx, hbelow, habove]
  exact ⟨mul_le_mul_of_nonneg_right (by exact_mod_cast hlow) hgrid.le,
    mul_le_mul_of_nonneg_right (by exact_mod_cast hhigh) hgrid.le⟩

/-- Rounding to significant digits keeps the order. -/
theorem toRat_scientific_mono (hx : 0 < x) (h : x ≤ y) (places : Nat) :
    (scientific x places).toRat ≤ (scientific y places).toRat := by
  have hy := hx.trans_le h
  rcases (log10Floor_mono hx h).eq_or_lt with heq | hlt
  · have hgrid := ten_zpow_pos (log10Floor x - places)
    rw [toRat_scientific hx, toRat_scientific hy, ← heq]
    refine mul_le_mul_of_nonneg_right ?_ hgrid.le
    exact_mod_cast roundHalfEven_mono (div_le_div_of_nonneg_right h hgrid.le)
  · -- there is a power of ten between the two numbers
    calc (scientific x places).toRat ≤ 10 ^ (log10Floor x + 1) := (toRat_scientific_bounds hx places).2
      _ ≤ 10 ^ log10Floor y := ten_zpow_le_iff.2 hlt
      _ ≤ (scientific y places).toRat := (toRat_scientific_bounds hy places).1

/-- A power of ten above the number is not passed. -/
theorem toRat_scientific_le (hx : 0 < x) {k : Int} (h : x < 10 ^ k) (places : Nat) :
    (scientific x places).toRat ≤ 10 ^ k := by
  have := ten_zpow_lt_iff.1 ((ten_zpow_log10Floor_le hx).trans_lt h)
  exact (toRat_scientific_bounds hx places).2.trans (ten_zpow_le_iff.2 this)

/-- A power of ten below the number is not passed. -/
theorem le_toRat_scientific {k : Int} (h : 10 ^ k ≤ x) (places : Nat) :
    10 ^ k ≤ (scientific x places).toRat := by
  have hx := (ten_zpow_pos k).trans_le h
  have := ten_zpow_lt_iff.1 (h.trans_lt (lt_ten_zpow_log10Floor hx))
  exact le_trans (ten_zpow_le_iff.2 (by omega)) (toRat_scientific_bounds hx places).1

/-- From half a unit of the last digit below a power of ten on, the digits are carried to it. -/
theorem toRat_scientific_carry {k : Int} (hlow : (10 ^ (places + 1) - 1 / 2) * 10 ^ k ≤ x)
    (hhigh : x < 10 ^ (places + 1) * 10 ^ k) : (scientific x places).toRat = 10 ^ (places + 1 + k) := by
  have hgrid := ten_zpow_pos k
  have hpow : (1 : Rat) ≤ 10 ^ places := one_le_pow₀ (by norm_num)
  have hstep : (10 : Rat) ^ (places + 1) = 10 * 10 ^ places := pow_succ' _ _
  have htop : (10 : Rat) ^ (places + 1) * 10 ^ k = 10 ^ (places + 1 + k) := by
    rw [zpow_add₀ (by norm_num), zpow_add_one₀ (by norm_num), zpow_natCast, pow_succ]
  have hlead : log10Floor x = places + k := by
    refine log10Floor_eq (le_trans ?_ hlow) (by rwa [add_right_comm, ← htop])
    rw [zpow_add₀ (by norm_num), zpow_natCast]
    exact mul_le_mul_of_nonneg_right (by linarith) hgrid.le
  have hx : 0 < x := lt_of_lt_of_le (mul_pos (by linarith) hgrid) hlow
  have hround : roundHalfEven (x / 10 ^ k) = 10 ^ (places + 1) := by
    have hdist : |x / 10 ^ k - ((10 ^ (places + 1) : Int) : Rat)| ≤ 1 / 2 := by
      have hle := (le_div_iff₀ hgrid).2 hlow
      have hlt := (div_lt_iff₀ hgrid).2 hhigh
      push_cast
      rw [abs_le]
      constructor <;> linarith
    refine roundHalfEven_eq (.inr ⟨by linarith, ?_⟩)
    rw [pow_succ, Int.mul_emod, show (10 : Int) % 2 = 0 from rfl, mul_zero, Int.zero_emod]
  rw [toRat_scientific hx, hlead, add_sub_cancel_left, hround, ← htop]
  norm_cast

/-- A decimal of so many digits is below the power of ten below the number, or on the grid on which it
is rounded. -/
theorem lt_or_exists_eq_mul {c : Int} (e lead : Int) (hc : |c| < 10 ^ (places + 1)) :
    (c : Rat) * 10 ^ e < 10 ^ lead ∨ ∃ k : Int, (c : Rat) * 10 ^ e = k * 10 ^ (lead - places) := by
  rcases lt_or_ge e (lead - places) with hfine | hcoarse
  · left
    have hc : (c : Rat) < 10 ^ (places + 1) := by
      exact_mod_cast (le_abs_self c).trans_lt hc
    calc (c : Rat) * 10 ^ e < 10 ^ (places + 1) * 10 ^ e :=
          mul_lt_mul_of_pos_right hc (ten_zpow_pos e)
      _ = 10 ^ (places + 1 + e) := by
          rw [zpow_add₀ (by norm_num), zpow_add_one₀ (by norm_num), zpow_natCast, pow_succ]
      _ ≤ 10 ^ lead := ten_zpow_le_iff.2 (by omega)
  · right
    obtain ⟨j, hj⟩ := Int.eq_ofNat_of_zero_le (sub_nonneg.2 hcoarse)
    refine ⟨c * 10 ^ j, ?_⟩
    have hsplit : e = j + (lead - places) := by omega
    rw [hsplit, ten_zpow_natCast_add]
    push_cast
    ring

/-- What is less than the power of ten below the number is farther away than the rounding. -/
theorem abs_toRat_scientific_sub_lt (hx : 0 < x) (h : y < 10 ^ log10Floor x) (places : Nat) :
    |(scientific x places).toRat - x| < |y - x| := by
  have hpower : ((10 ^ places : Int) : Rat) * 10 ^ (log10Floor x - places) = 10 ^ log10Floor x := by
    rw [← ten_zpow_natCast_add, add_sub_cancel]
  -- the power of ten is on the grid, so the rounding is at most as far away
  have hle := (abs_roundHalfEven_mul_sub_le (ten_zpow_pos (log10Floor x - places)) x (10 ^ places)).1
  have hlead := ten_zpow_log10Floor_le hx
  rw [hpower, ← toRat_scientific hx] at hle
  calc |(scientific x places).toRat - x| ≤ |10 ^ log10Floor x - x| := hle
    _ = x - 10 ^ log10Floor x := by rw [abs_of_nonpos (sub_nonpos.2 hlead), neg_sub]
    _ < x - y := sub_lt_sub_left h x
    _ = |y - x| := by rw [abs_of_nonpos (by linarith), neg_sub]

/-- A rounding to an even number of units has an even coefficient, as a carried one ends in a zero. -/
theorem coefficient_scientific_emod_two (hx : 0 < x) (hp : 0 < places)
    (h : roundHalfEven (x / 10 ^ (log10Floor x - places)) % 2 = 0) :
    ((scientific x places).coefficient : Int) % 2 = 0 := by
  have hnonneg : 0 ≤ roundHalfEven (x / 10 ^ (log10Floor x - places)) :=
    le_trans (by positivity) (scientific_bounds hx places).1
  simp only [scientific]
  split
  · obtain ⟨n, rfl⟩ := Nat.exists_eq_add_of_lt hp
    rw [Nat.pow_eq, zero_add, pow_succ]
    change ((10 ^ n * 10 : Nat) : Int) % 2 = 0
    omega
  · rwa [Int.toNat_of_nonneg hnonneg]

/-- Rounding to significant digits goes to the nearest decimal with so many digits. -/
theorem isNearest_scientific (hx : 0 < x) (hp : 0 < places) :
    IsNearest (HasDigits (places + 1)) x (scientific x places).toRat := by
  obtain ⟨hlow, hhigh⟩ := coefficient_scientific_bounds hx places
  refine ⟨(scientific x places).coefficient, (scientific x places).exponent, ?_, rfl, ?_⟩
  · rw [HasDigits, Nat.abs_cast, Nat.add_sub_cancel]
    exact ⟨by exact_mod_cast hlow, by exact_mod_cast hhigh⟩
  intro c' e' hce'
  rcases lt_or_exists_eq_mul e' (log10Floor x) hce'.2 with hbelow | ⟨k, hk⟩
  · have hlt := abs_toRat_scientific_sub_lt hx hbelow places
    exact ⟨hlt.le, fun heq => absurd heq hlt.ne'⟩
  · rw [hk, toRat_scientific hx]
    obtain ⟨hle, htie⟩ := abs_roundHalfEven_mul_sub_le (ten_zpow_pos (log10Floor x - places)) x k
    exact ⟨hle, fun heq hne => coefficient_scientific_emod_two hx hp (htie heq hne)⟩

end Decimal

end DeskCalculator
