import DeskCalculator.Proofs.Nearest

/-!
# The shortest decimal reads back

Whatever grid `Decimal.shortest` stops at, it takes a decimal from the interval of the double, so the
double is the one nearest to that decimal: `rounded_shortest`. Seventeen digits always meet the interval,
because a unit of the seventeenth digit is less than the spacing of doubles.
-/

namespace DeskCalculator

open Binary64

/-! ## Powers of ten -/

theorem ten_zpow_pos (k : Int) : (0 : Rat) < 10 ^ k :=
  zpow_pos (by norm_num) k

/-- A number has no more digits than its width. -/
theorem lt_pow_decimalWidth (n : Nat) : n < 10 ^ decimalWidth n :=
  (Nat.length_toDigits_le_iff (by decide) Nat.length_toDigits_pos).1 le_rfl

/-- A numeral has no leading zero. -/
theorem pow_decimalWidth_sub_one_le {n : Nat} (h : 0 < n) : 10 ^ (decimalWidth n - 1) ≤ n := by
  rcases Nat.eq_zero_or_pos (decimalWidth n - 1) with hw | hw
  · rw [hw]
    exact h
  · by_contra hlt
    have := (Nat.length_toDigits_le_iff (by decide) hw).2 (not_le.1 hlt)
    rw [decimalWidth] at hw this
    omega

/-- `log10Floor` is the exponent of a power of ten up to `x`. -/
theorem ten_zpow_log10Floor_le {x : Rat} (hx : 0 < x) : (10 : Rat) ^ log10Floor x ≤ x := by
  rw [log10Floor]
  split
  next hone =>
    have hfloor : 1 ≤ x.floor := Rat.le_floor_iff.2 (by exact_mod_cast hone)
    have hwidth : 0 < decimalWidth x.floor.toNat := Nat.length_toDigits_pos
    have hle := pow_decimalWidth_sub_one_le (n := x.floor.toNat) (by omega)
    have hexp : (decimalWidth x.floor.toNat : Int) - 1 = ((decimalWidth x.floor.toNat - 1 : Nat) : Int) := by
      omega
    rw [hexp, zpow_natCast]
    calc (10 : Rat) ^ (decimalWidth x.floor.toNat - 1) ≤ (x.floor.toNat : Rat) := by exact_mod_cast hle
      _ = ((x.floor.toNat : Int) : Rat) := by norm_cast
      _ = x.floor := by rw [Int.toNat_of_nonneg (by omega)]
      _ ≤ x := Rat.floor_le x
  next hone =>
    have hinv : 1 < x⁻¹ := (one_lt_inv₀ hx).2 (not_le.1 hone)
    have hceil : x⁻¹ ≤ x⁻¹.ceil := Rat.le_ceil
    have hlt := lt_pow_decimalWidth (x⁻¹.ceil.toNat - 1)
    have hpos : 1 ≤ x⁻¹.ceil := by
      have : (0 : Rat) < x⁻¹.ceil := by linarith
      exact_mod_cast this
    rw [zpow_neg, zpow_natCast]
    refine inv_le_of_inv_le₀ hx (hceil.trans ?_)
    have : x⁻¹.ceil ≤ ((10 ^ decimalWidth (x⁻¹.ceil.toNat - 1) : Nat) : Int) := by omega
    exact_mod_cast this

/-! ## The interval is met -/

/-- What differs from a double by at most one part in two times ten to the sixteen lies in its
interval. -/
theorem contains_of_abs_sub_le {m : Nat} {q : Int} {z : Rat} (hm : m < 2 ^ 53) (hpos : 0 < m)
    (h : |z - size m q| * (2 * 10 ^ 16) ≤ size m q) :
    (RoundingInterval.ofSize m q).contains z = true := by
  have hq := two_zpow_pos q
  have hsize : size m q < 2 ^ 53 * 2 ^ q := mul_lt_mul_of_pos_right (by exact_mod_cast hm) hq
  refine contains_of_abs_sub_lt hpos ?_
  rw [marginBelow]
  split
  next hpower =>
    have : size m q = 2 ^ 52 * 2 ^ q := by
      rw [hpower.1, size]
      norm_cast
    linarith
  next => linarith

namespace Decimal

/-- What a grid offers lies in the interval. -/
theorem contains_of_onGrid?_eq_some {i : RoundingInterval} {x : Rat} {k : Int} {d : Decimal}
    (h : onGrid? i x k = some d) : i.contains d.toRat = true := by
  simp only [onGrid?] at h
  split at h
  next hbelow habove =>
    obtain rfl := Option.some.inj h
    -- the nearest multiple is one of the two neighbours
    have hround : (roundHalfEven (x / 10 ^ k)).toNat = (x / 10 ^ k).floor.toNat ∨
        (roundHalfEven (x / 10 ^ k)).toNat = (x / 10 ^ k).floor.toNat + 1 := by
      have := roundHalfEven_eq_or (x / 10 ^ k)
      omega
    rcases hround with hround | hround <;> rw [hround] <;> assumption
  next hbelow _ => exact Option.some.inj h ▸ hbelow
  next _ habove => exact Option.some.inj h ▸ habove
  next => cases h

/-- Rounding to the grid of the seventeenth digit stays within one part in two times ten to the
sixteen. -/
theorem abs_sub_le_of_lead {x : Rat} (hx : 0 < x) :
    |(⟨(roundHalfEven (x / 10 ^ (log10Floor x - 16))).toNat, log10Floor x - 16⟩ : Decimal).toRat - x| *
      (2 * 10 ^ 16) ≤ x := by
  have hgrid := ten_zpow_pos (log10Floor x - 16)
  have hnonneg := roundHalfEven_nonneg (div_nonneg hx.le hgrid.le)
  have hround := two_mul_abs_roundHalfEven_sub_le (x / 10 ^ (log10Floor x - 16))
  have hcast : (((roundHalfEven (x / 10 ^ (log10Floor x - 16))).toNat : Nat) : Rat) =
      roundHalfEven (x / 10 ^ (log10Floor x - 16)) := by
    exact_mod_cast Int.toNat_of_nonneg hnonneg
  have hfactor : (⟨(roundHalfEven (x / 10 ^ (log10Floor x - 16))).toNat, log10Floor x - 16⟩ : Decimal).toRat -
      x = (roundHalfEven (x / 10 ^ (log10Floor x - 16)) - x / 10 ^ (log10Floor x - 16)) *
        10 ^ (log10Floor x - 16) := by
    rw [toRat, hcast, sub_mul, div_mul_cancel₀ _ hgrid.ne']
  calc _ = 2 * |(roundHalfEven (x / 10 ^ (log10Floor x - 16)) : Rat) - x / 10 ^ (log10Floor x - 16)| *
        (10 ^ (log10Floor x - 16) * 10 ^ 16) := by
        rw [hfactor, abs_mul, abs_of_pos hgrid]
        ring
    _ ≤ 1 * (10 ^ (log10Floor x - 16) * 10 ^ 16) := mul_le_mul_of_nonneg_right hround (by positivity)
    _ = 10 ^ log10Floor x := by
        rw [one_mul, ← zpow_natCast, ← zpow_add₀ (by norm_num)]
        congr 1
        ring
    _ ≤ x := ten_zpow_log10Floor_le hx

/-- The shortest decimal of a positive double lies in its interval. -/
theorem contains_shortest {m : Nat} {q : Int} (hm : m < 2 ^ 53) (hpos : 0 < m) :
    (RoundingInterval.ofSize m q).contains (shortest m q).toRat = true := by
  simp only [shortest, if_neg hpos.ne']
  split
  next d hd =>
    obtain ⟨k, -, hk⟩ := List.exists_of_findSome?_eq_some hd
    exact contains_of_onGrid?_eq_some hk
  next => exact contains_of_abs_sub_le hm hpos (abs_sub_le_of_lead (size_pos hpos q))

/-- The shortest decimal of a double rounds to it. -/
theorem rounded_shortest {m : Nat} {q : Int} (hc : Canonical m q) :
    rounded (shortest m q).toRat = size m q := by
  rcases m.eq_zero_or_pos with rfl | hpos
  · have : (shortest 0 q).toRat = 0 := by simp [shortest, toRat]
    rw [this, rounded_zero, size_zero]
  · exact rounded_eq_of_contains hc hpos (contains_shortest hc.lt hpos)

/-- A double is what its shortest decimal is read as. -/
theorem ofDecimal_shortest {v : Float} {s : Bool} {m : Nat} {q : Int} (hv : ofFloat v = finite s m q) :
    ofDecimal s (shortest m q) = v := by
  rw [ofDecimal_eq_nearest]
  exact nearest_eq hv (toRat_nonneg _) (rounded_shortest (canonical_of_finite hv))

end Decimal

end DeskCalculator
