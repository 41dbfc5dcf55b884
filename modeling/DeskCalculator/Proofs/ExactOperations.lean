import DeskCalculator.Proofs.Nearest
import DeskCalculator.Proofs.Sums

/-!
# Exact operations

A sum, a difference or a product of finite doubles is exact if some double stands for it:
`toRat?_add`, `toRat?_sub`, `toRat?_mul`. Rounding shifts the significand to the exponent that a double of
this size has, and what is shifted out of the significand of such a double are zeros (`round_eq`).

All integers up to `2 ^ 53` have a double that stands for them (`representable_intCast`).
-/

namespace DeskCalculator.Binary64

open Float.Model Float.Model.UnpackedFloat

/-- The number that a double stands for; none for infinities and NaN. -/
def toRat? : Binary64 → Option Rat
  | finite s m q => some (signed s m q)
  | _ => none

/-- Whether some double stands for the number. -/
def Representable (r : Rat) : Prop :=
  ∃ m q, Canonical m q ∧ size m q = |r|

/-- What is unpacked from a double and stands for a number. -/
inductive Denotes : UnpackedFloat → Rat → Prop
  | zero (s : Sign) : Denotes (.zero s) 0
  | finite (s : Sign) {m : Nat} {q : Int} (hm : 0 < m) (hc : Canonical m q) :
      Denotes (.finite s m q hm) (signed (isNegative s) m q)

/-! ## Doubles and what is unpacked from them -/

/-- A double stands for a rational number if it is finite and the number is its signed size. -/
theorem toRat?_eq_some_iff {b : Binary64} {r : Rat} :
    b.toRat? = some r ↔ ∃ s m q, b = finite s m q ∧ signed s m q = r := by
  cases b <;> simp [toRat?]

@[simp] theorem signed_zero (s : Bool) (q : Int) : signed s 0 q = 0 := by
  simp [signed]

/-- The sign does not matter for having a double. -/
theorem representable_signed_iff (s : Bool) (m : Nat) (q : Int) :
    Representable (signed s m q) ↔ Representable (size m q) := by
  cases s <;> simp [Representable, signed]

/-- A double denotes, unpacked, the number that it stands for. -/
theorem denotes_unpack {x : Float} {r : Rat} (h : (ofFloat x).toRat? = some r) :
    Denotes x.toModel.unpack r := by
  obtain ⟨s, m, q, hx, rfl⟩ := toRat?_eq_some_iff.1 h
  obtain ⟨u, rfl, ⟨hu, rfl⟩ | ⟨hm, hu⟩⟩ := unpack_of_ofFloat_eq_finite hx
  · rw [hu, signed_zero]
    exact .zero u
  · rw [hu]
    exact .finite u hm (canonical_of_finite hx)

/-- What denotes a number stands for it when it is packed. -/
theorem Denotes.toRat?_pack {u : UnpackedFloat} {r : Rat} (h : Denotes u r) :
    (ofFloat (.ofModel (.pack u))).toRat? = some r := by
  cases h with
  | zero s => rw [ofFloat_pack_zero, toRat?, signed_zero]
  | finite s hm hc => rw [ofFloat_pack_finite s hc hm, toRat?]

/-- The negated form denotes the negative number. -/
theorem Denotes.neg {u : UnpackedFloat} {r : Rat} (h : Denotes u r) : Denotes u.neg (-r) := by
  cases h with
  | zero s =>
    rw [neg_zero]
    exact .zero (-s)
  | @finite s m q hm hc =>
    have hsigned : -signed (isNegative s) m q = signed (isNegative (-s)) m q := by
      cases s <;> simp [signed, isNegative]
    rw [hsigned]
    exact .finite (-s) hm hc

/-! ## Rounding what needs no rounding -/

/-- The leading bit of a size is that of its significand, moved by the exponent. -/
theorem log2Floor_size {m : Nat} (hm : 0 < m) (q : Int) : log2Floor (size m q) = m.log2 + q := by
  have hpos := two_zpow_pos q
  refine log2Floor_eq ?_ ?_
  · rw [size, zpow_add₀ (by norm_num)]
    exact mul_le_mul_of_nonneg_right (two_pow_log2_le hm) hpos.le
  · rw [size, add_right_comm, zpow_add₀ (by norm_num)]
    exact mul_lt_mul_of_pos_right (lt_two_pow_log2 hm) hpos

/-- The exponent to which rounding shifts is the one of the grid around the number. -/
theorem targetExponent_eq {m : Nat} (hm : 0 < m) (q : Int) :
    Format.binary64.targetExponent (totalExponent m q) = gridExponent (size m q) := by
  change max ((m.log2 : Int) + 1 + q - 53) (-1074) = _
  rw [gridExponent, log2Floor_size hm, lowestExponent, max_comm]
  congr 1
  ring

/-- Shifting out zeros loses nothing. -/
theorem shiftRight_mul_two_pow (m k : Nat) :
    (⟨m * 2 ^ k, false, false⟩ : ExtendedMantissa) >>> k = ⟨m, false, false⟩ := by
  induction k generalizing m with
  | zero => simp; rfl
  | succ k ih =>
    have hlast : (⟨m * 2 ^ (k + 1), false, false⟩ : ExtendedMantissa) >>> (k + 1) =
        ((⟨m * 2 * 2 ^ k, false, false⟩ : ExtendedMantissa) >>> k).shiftRightOne := by
      rw [pow_succ, mul_comm (2 ^ k), ← mul_assoc]
      rfl
    rw [hlast, ih]
    simp [ExtendedMantissa.shiftRightOne]

/-- The same size with a lower exponent has zeros at the end of its significand. -/
theorem eq_mul_two_pow_of_size_eq {m n : Nat} {q r : Int} (h : size n r = size m q) (hle : r ≤ q) :
    n = m * 2 ^ (q - r).toNat := by
  have hsplit : (2 : Rat) ^ q = 2 ^ (q - r).toNat * 2 ^ r := by
    rw [← two_zpow_add]
    congr 1
    omega
  rw [size, size, hsplit, ← mul_assoc] at h
  exact_mod_cast mul_right_cancel₀ (two_zpow_pos r).ne' h

/-- Shifting to the target exponent recovers a canonical significand without loss. -/
theorem shiftToTargetExponent_eq {m n : Nat} {q r : Int} (hc : Canonical m q) (hm : 0 < m)
    (h : size n r = size m q) (hle : r ≤ q) :
    shiftToTargetExponent Format.binary64 n r .exact = (⟨m, false, false⟩, q) := by
  obtain rfl := eq_mul_two_pow_of_size_eq h hle
  rw [shiftToTargetExponent, targetExponent_eq (by positivity), h, gridExponent_size hc hm,
    shiftToExponent]
  refine Prod.ext (shiftRight_mul_two_pow m _) ?_
  change r + ((q - r).toNat : Int) = q
  omega

/-- Rounding without loss gives back the canonical double of the same size. -/
theorem roundWithAccuracy_eq_of_size_eq {m n : Nat} {q r : Int} (s : Sign) (hc : Canonical m q)
    (hm : 0 < m) (h : size n r = size m q) (hle : r ≤ q) :
    roundWithAccuracy Format.binary64 s n r .exact = .finite s m q hm := by
  have hmantissa : (⟨m, false, false⟩ : ExtendedMantissa).roundedMantissa = m := rfl
  simp only [roundWithAccuracy, shiftToTargetExponent_eq hc hm h hle, hmantissa,
    shiftToTargetExponent_eq hc hm rfl le_rfl]
  exact dif_neg hm.ne'

/-- A significand with more digits and an exponent that is as much lower give the same size. -/
theorem size_decreaseExponent (m : Nat) (q r : Int) :
    size (decreaseExponent m q r).1 (decreaseExponent m q r).2 = size m q := by
  have hsplit : (2 : Rat) ^ q = 2 ^ (q - r).toNat * 2 ^ (q - (q - r).toNat) := by
    rw [← two_zpow_add, sub_add_cancel]
  rw [size, size, hsplit, decreaseExponent, Nat.shiftLeft_eq]
  push_cast
  ring

/-- Equal sizes with one sign are equal numbers. -/
theorem signed_eq_of_size_eq {m n : Nat} {q r : Int} (s : Bool) (h : size n r = size m q) :
    signed s n r = signed s m q := by
  rw [signed, signed, h]

/-- A number that has a double has a canonical significand and exponent. -/
theorem exists_canonical_of_representable {n : Nat} {r : Int} (hn : 0 < n)
    (h : Representable (size n r)) : ∃ m q, 0 < m ∧ Canonical m q ∧ size n r = size m q := by
  obtain ⟨m, q, hc, hsize⟩ := h
  rw [abs_of_nonneg (size_nonneg n r)] at hsize
  refine ⟨m, q, Nat.pos_of_ne_zero ?_, hc, hsize.symm⟩
  rintro rfl
  rw [size_zero] at hsize
  exact (size_pos hn r).ne hsize

/-- Rounding a number that some double stands for gives this double. -/
theorem denotes_roundWithAccuracy {n : Nat} {r : Int} (s : Sign) (hn : 0 < n)
    (h : Representable (size n r)) (hle : r ≤ gridExponent (size n r)) :
    Denotes (roundWithAccuracy Format.binary64 s n r .exact) (signed (isNegative s) n r) := by
  obtain ⟨m, q, hm, hc, hsize⟩ := exists_canonical_of_representable hn h
  rw [hsize, gridExponent_size hc hm] at hle
  rw [roundWithAccuracy_eq_of_size_eq s hc hm hsize hle, signed_eq_of_size_eq _ hsize]
  exact .finite s hm hc

/-- Rounding denotes the number if a double has it. -/
theorem denotes_round {n : Nat} {r : Int} (s : Sign) (hn : 0 < n) (h : Representable (size n r)) :
    Denotes (UnpackedFloat.round Format.binary64 s n r) (signed (isNegative s) n r) := by
  -- a significand with too high an exponent is first written with more digits
  have hsize := size_decreaseExponent n r (gridExponent (size n r))
  have hmantissa : 0 < (decreaseExponent n r (gridExponent (size n r))).1 := by
    rw [decreaseExponent, Nat.shiftLeft_eq]
    positivity
  rw [UnpackedFloat.round, targetExponent_eq hn]
  change Denotes (roundWithAccuracy Format.binary64 s (decreaseExponent n r (gridExponent (size n r))).1
    (decreaseExponent n r (gridExponent (size n r))).2 .exact) _
  rw [← signed_eq_of_size_eq _ hsize]
  refine denotes_roundWithAccuracy s hmantissa (by rwa [hsize]) ?_
  rw [hsize, decreaseExponent]
  omega

/-- A signed significand is normalized to the double that stands for its value. -/
theorem denotes_normalize (m : Int) (q : Int) (s : Sign) (h : Representable (m * 2 ^ q)) :
    Denotes (UnpackedFloat.normalize Format.binary64 m q s) (m * 2 ^ q) := by
  rw [UnpackedFloat.normalize]
  rcases lt_trichotomy m 0 with hneg | rfl | hpos
  · obtain ⟨n, rfl⟩ : ∃ n : Nat, m = -n := ⟨m.natAbs, by omega⟩
    have hvalue : ((-(n : Int) : Int) : Rat) * 2 ^ q = signed true n q := by
      simp [signed, size]
    rw [compare_lt_iff_lt.2 hneg, hvalue, neg_neg, Int.toNat_natCast]
    rw [hvalue] at h
    exact denotes_round .negative (by omega) ((representable_signed_iff ..).1 h)
  · rw [Int.cast_zero, zero_mul]
    exact .zero s
  · obtain ⟨n, rfl⟩ : ∃ n : Nat, m = n := ⟨m.natAbs, by omega⟩
    have hvalue : ((n : Int) : Rat) * 2 ^ q = signed false n q := by
      simp [signed, size]
    rw [compare_gt_iff_gt.2 hpos, hvalue, Int.toNat_natCast]
    rw [hvalue] at h
    exact denotes_round .positive (by omega) ((representable_signed_iff ..).1 h)

/-! ## Sums, differences and products -/

/-- A significand with its sign, at its exponent, is the signed number. -/
theorem cast_apply_mul (s : Sign) (m : Nat) (q : Int) :
    ((s.apply m : Int) : Rat) * 2 ^ q = signed (isNegative s) m q := by
  cases s <;> simp [Sign.apply, signed, isNegative, size]

variable {u v : UnpackedFloat} {r t : Rat}

/-- Adding two doubles is exact where a double has the sum. -/
theorem Denotes.add (hu : Denotes u r) (hv : Denotes v t) (h : Representable (r + t)) :
    Denotes (UnpackedFloat.add Format.binary64 u v) (r + t) := by
  cases hu with
  | zero s =>
    rw [zero_add] at h ⊢
    cases hv with
    | zero s' =>
      rw [UnpackedFloat.add]
      split
      · exact .zero s
      · exact .zero .positive
    | finite s' hn hd => exact .finite s' hn hd
  | @finite s m q hm hc =>
    cases hv with
    | zero s' =>
      rw [add_zero]
      exact .finite s hm hc
    | @finite s' n p hn hd =>
      -- both significands are brought to the lower exponent and added there
      have hm' := signed_eq_of_size_eq (isNegative s) (size_decreaseExponent m q (min q p))
      have hn' := signed_eq_of_size_eq (isNegative s') (size_decreaseExponent n p (min q p))
      have hq : (decreaseExponent m q (min q p)).2 = min q p := by
        rw [decreaseExponent]
        omega
      have hp : (decreaseExponent n p (min q p)).2 = min q p := by
        rw [decreaseExponent]
        omega
      rw [hq, ← cast_apply_mul] at hm'
      rw [hp, ← cast_apply_mul] at hn'
      rw [← hm', ← hn', ← add_mul, ← Int.cast_add] at h ⊢
      exact denotes_normalize _ _ .positive h

/-- Subtracting two doubles is exact where a double has the difference. -/
theorem Denotes.sub (hu : Denotes u r) (hv : Denotes v t) (h : Representable (r - t)) :
    Denotes (UnpackedFloat.sub Format.binary64 u v) (r - t) := by
  rw [sub_eq_add_neg] at h ⊢
  rw [unpackedSub_eq]
  exact hu.add hv.neg h

/-- The exponents of two factors are not above the one of their product. -/
theorem add_le_gridExponent {m n : Nat} {q p : Int} (hc : Canonical m q) (hd : Canonical n p)
    (hm : 0 < m) (hn : 0 < n) : q + p ≤ gridExponent (size (m * n) (q + p)) := by
  rw [gridExponent, log2Floor_size (by positivity)]
  by_cases hfull : 2 ^ 52 ≤ m * n
  · have hlog : 52 ≤ (m * n).log2 := (Nat.le_log2 (by positivity)).2 hfull
    omega
  · -- a product of few bits has no factor with a full significand, so the exponents are the lowest
    have hq := hc.full.resolve_right fun h => hfull (h.trans (Nat.le_mul_of_pos_right m hn))
    have hp := hd.full.resolve_right fun h => hfull (h.trans (Nat.le_mul_of_pos_left n hm))
    simp only [hq, hp, lowestExponent]
    omega

/-- Multiplying two doubles is exact where a double has the product. -/
theorem Denotes.mul (hu : Denotes u r) (hv : Denotes v t) (h : Representable (r * t)) :
    Denotes (UnpackedFloat.mul Format.binary64 u v) (r * t) := by
  cases hu with
  | zero s =>
    rw [zero_mul]
    cases hv <;> exact .zero _
  | @finite s m q hm hc =>
    cases hv with
    | zero s' =>
      rw [mul_zero]
      exact .zero _
    | @finite s' n p hn hd =>
      have hsize : size m q * size n p = size (m * n) (q + p) := by
        rw [size, size, size, zpow_add₀ (by norm_num)]
        push_cast
        ring
      have hsigned : signed (isNegative s) m q * signed (isNegative s') n p =
          signed (isNegative (s * s')) (m * n) (q + p) := by
        rw [signed, signed, signed, ← hsize]
        cases s <;> cases s' <;> simp [isNegative]
      rw [hsigned] at h ⊢
      exact denotes_roundWithAccuracy _ (by positivity) ((representable_signed_iff ..).1 h)
        (add_le_gridExponent hc hd hm hn)

variable {x y : Float}

/-- A sum is exact if some double stands for it. -/
theorem toRat?_add (hx : (ofFloat x).toRat? = some r) (hy : (ofFloat y).toRat? = some t)
    (h : Representable (r + t)) : (ofFloat (x + y)).toRat? = some (r + t) :=
  ((denotes_unpack hx).add (denotes_unpack hy) h).toRat?_pack

/-- A difference is exact if some double stands for it. -/
theorem toRat?_sub (hx : (ofFloat x).toRat? = some r) (hy : (ofFloat y).toRat? = some t)
    (h : Representable (r - t)) : (ofFloat (x - y)).toRat? = some (r - t) :=
  ((denotes_unpack hx).sub (denotes_unpack hy) h).toRat?_pack

/-- A product is exact if some double stands for it. -/
theorem toRat?_mul (hx : (ofFloat x).toRat? = some r) (hy : (ofFloat y).toRat? = some t)
    (h : Representable (r * t)) : (ofFloat (x * y)).toRat? = some (r * t) :=
  ((denotes_unpack hx).mul (denotes_unpack hy) h).toRat?_pack

/-! ## Integers -/

/-- Whole numbers up to `2 ^ 53` have a double. -/
theorem representable_natCast {n : Nat} (h : n ≤ 2 ^ 53) : Representable n := by
  rcases h.eq_or_lt with rfl | hlt
  · exact ⟨2 ^ 52, 1, ⟨by norm_num, by decide, by decide, .inr le_rfl⟩, by norm_num [size]⟩
  rcases n.eq_zero_or_pos with rfl | hn
  · exact ⟨0, lowestExponent, canonical_zero, by simp⟩
  -- with more digits behind it the significand is full
  have hsize := size_decreaseExponent n 0 (n.log2 - 52)
  obtain ⟨hlow, hhigh⟩ := (Nat.log2_eq_iff hn.ne').1 rfl
  have hlog : n.log2 < 53 := (Nat.log2_lt hn.ne').2 hlt
  obtain ⟨k, hk⟩ : ∃ k, n.log2 + k = 52 := ⟨52 - n.log2, by omega⟩
  have hshift : (0 - ((n.log2 : Int) - 52)).toNat = k := by omega
  simp only [decreaseExponent, hshift, Nat.shiftLeft_eq] at hsize
  refine ⟨n * 2 ^ k, 0 - k, ⟨?_, ?_, by omega, .inr ?_⟩, ?_⟩
  · calc n * 2 ^ k < 2 ^ (n.log2 + 1) * 2 ^ k := Nat.mul_lt_mul_of_pos_right hhigh (by positivity)
      _ = 2 ^ 53 := by rw [← pow_add, add_right_comm, hk]
  · rw [lowestExponent]
    omega
  · calc 2 ^ 52 = 2 ^ n.log2 * 2 ^ k := by rw [← pow_add, hk]
      _ ≤ n * 2 ^ k := Nat.mul_le_mul_right _ hlow
  · rw [hsize, size, zpow_zero, mul_one, Nat.abs_cast]

/-- A full significand followed by zeros has a double. -/
theorem representable_mul_two_pow {m k : Nat} (hlow : 2 ^ 52 ≤ m) (hhigh : m < 2 ^ 53) (hk : k ≤ 971) :
    Representable ((m * 2 ^ k : Nat) : Rat) := by
  refine ⟨m, k, ⟨hhigh, ?_, by omega, .inr hlow⟩, ?_⟩
  · rw [lowestExponent]
    omega
  · rw [size, zpow_natCast, Nat.abs_cast]
    push_cast
    rfl

/-- There is a double for every integer of up to 53 bits, and for one more of each sign. -/
theorem representable_intCast {n : Int} (h : |n| ≤ 2 ^ 53) : Representable n := by
  rw [Int.abs_eq_natAbs] at h
  obtain ⟨m, q, hc, hsize⟩ := representable_natCast (n := n.natAbs) (by exact_mod_cast h)
  refine ⟨m, q, hc, ?_⟩
  rw [hsize, Nat.abs_cast, Nat.cast_natAbs, Int.cast_abs]

/-- The double nearest to a natural number stands for it if any does. -/
theorem toRat?_nearest {r : Rat} (hr : 0 ≤ r) (h : Representable r) :
    (ofFloat (nearest false r)).toRat? = some r := by
  obtain ⟨m, q, hc, hsize⟩ := h
  rw [abs_of_nonneg hr] at hsize
  rw [← hsize, ofFloat_nearest false (size_nonneg m q) hc (rounded_size hc), toRat?, signed,
    if_neg Bool.false_ne_true]

end DeskCalculator.Binary64
