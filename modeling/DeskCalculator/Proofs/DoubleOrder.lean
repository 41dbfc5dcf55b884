import DeskCalculator.Binary64
import Mathlib

/-!
# The order of doubles

Comparing two finite doubles compares the numbers that they stand for: `le_iff`. The comparison itself
works on exponents first and on significands only if the exponents agree. This is the order of the
numbers because significands fill their 53 bits, unless the exponent is the lowest one.
-/

namespace DeskCalculator.Binary64

open Float.Model Float.Model.UnpackedFloat

/-- The value of a finite double. -/
def signed (negative : Bool) (significand : Nat) (exponent : Int) : Rat :=
  if negative then -size significand exponent else size significand exponent

/-- A size with a positive significand is positive. -/
theorem size_pos {m : Nat} (h : 0 < m) (q : Int) : 0 < size m q :=
  mul_pos (by exact_mod_cast h) (zpow_pos (by norm_num) q)

/-- No size is negative. -/
theorem size_nonneg (m : Nat) (q : Int) : 0 ≤ size m q :=
  mul_nonneg (by positivity) (by positivity)

@[simp] theorem size_zero (q : Int) : size 0 q = 0 := by
  simp [size]

/-! ## The fields of a double -/

/-- Whether a sign is the negative one. -/
def isNegative : Sign → Bool
  | .negative => true
  | .positive => false

/-- What an unpacked double stands for. -/
def ofUnpacked : UnpackedFloat → Binary64
  | .notANumber => nan
  | .infinity s => infinite (isNegative s)
  | .zero s => finite (isNegative s) 0 lowestExponent
  | .finite s m q _ => finite (isNegative s) m q

/-- In a word the exponent stands in the 11 bits above the significand. -/
theorem toNat_unpackExponent (b : BitVec Format.binary64.numBits) :
    (unpackExponent b).toNat = b.toNat / 2 ^ 52 % 2 ^ 11 := by
  simp [unpackExponent, BitVec.extractLsb, Nat.shiftRight_eq_div_pow]

/-- In a word the significand stands in the lowest 52 bits. -/
theorem toNat_unpackMantissa (b : BitVec Format.binary64.numBits) :
    (unpackMantissa b).toNat = b.toNat % 2 ^ 52 := by
  simp [unpackMantissa, BitVec.extractLsb]

/-- A word is negative if its highest bit is set. -/
theorem isNegative_unpackSign (b : BitVec Format.binary64.numBits) :
    isNegative (Sign.ofBitVec (unpackSign b)) = decide (2 ^ 63 ≤ b.toNat) := by
  have hlt : b.toNat < 2 ^ 64 := b.isLt
  have hbit : (unpackSign b).toNat = b.toNat / 2 ^ 63 := by
    simp [unpackSign, BitVec.extractLsb, Nat.shiftRight_eq_div_pow]
    omega
  by_cases hs : unpackSign b = 0#1
  · rw [hs] at hbit
    simp [hs, Sign.ofBitVec, isNegative] at hbit ⊢
    omega
  · have hne : (unpackSign b).toNat ≠ 0 := fun h => hs (BitVec.eq_of_toNat_eq h)
    simp [hs, Sign.ofBitVec, isNegative]
    omega

/-- The leading one that a word leaves out stands above its 52 bits. -/
theorem toNat_implicit_append (v : BitVec 52) : (1#1 ++ v).toNat = 2 ^ 52 + v.toNat := by
  rw [BitVec.toNat_append, ← Nat.shiftLeft_add_eq_or_of_lt v.isLt]
  simp [Nat.shiftLeft_eq]

/-- Reading the fields off the word gives what the unpacked double stands for. -/
theorem ofFloat_eq_ofUnpacked (x : Float) : ofFloat x = ofUnpacked x.toModel.unpack := by
  have hword : x.toModel.toBits.toBitVec.toNat = x.toBits.toNat := rfl
  generalize hb : x.toModel.toBits.toBitVec = b at hword
  have hexp := toNat_unpackExponent b
  have hman := toNat_unpackMantissa b
  have hsign := isNegative_unpackSign b
  rw [hword] at hexp hman hsign
  -- both sides ask the same three questions about the fields of the word
  have hones : @unpackExponent Format.binary64 b = -1#_ ↔
      x.toBits.toNat / 2 ^ 52 % 2 ^ 11 = 2047 := by
    rw [← hexp, ← BitVec.toNat_inj]
    simp
  have hzero : @unpackExponent Format.binary64 b = 0#_ ↔
      x.toBits.toNat / 2 ^ 52 % 2 ^ 11 = 0 := by
    rw [← hexp, ← BitVec.toNat_inj]
    simp
  have hnone : @unpackMantissa Format.binary64 b = 0#_ ↔ x.toBits.toNat % 2 ^ 52 = 0 := by
    rw [← hman, ← BitVec.toNat_inj]
    simp
  simp only [Float.Model.unpack, hb, UnpackedFloat.unpack, ofFloat, Nat.shiftRight_eq_div_pow,
    Nat.shiftLeft_eq, one_mul, hones, hzero, hnone]
  split
  · split
    · rw [ofUnpacked, hsign]
    · rfl
  · split
    · split
      · rename_i hm
        rw [ofUnpacked, hsign, hm]
      · rw [ofUnpacked, hsign, hman, hexp]
        simp_all [lowestExponent, Format.exponentBias]
    · rw [ofUnpacked, hsign, hexp, toNat_implicit_append, hman]
      simp [Format.exponentBias]

/-- A significand has at most 53 bits, and fewer only at the lowest exponent. -/
theorem bounds_of_finite {x : Float} {negative : Bool} {m : Nat} {q : Int}
    (h : ofFloat x = finite negative m q) :
    m < 2 ^ 53 ∧ lowestExponent ≤ q ∧ (q = lowestExponent ∨ 2 ^ 52 ≤ m) := by
  simp only [ofFloat, Nat.shiftRight_eq_div_pow, Nat.shiftLeft_eq, one_mul] at h
  split at h
  · split at h <;> simp at h
  · split at h
    · obtain ⟨-, rfl, rfl⟩ := Binary64.finite.inj h
      omega
    · obtain ⟨-, rfl, rfl⟩ := Binary64.finite.inj h
      simp only [lowestExponent]
      omega

/-! ## Comparing sizes -/

/-- A larger exponent with a full significand is more than any smaller exponent gives. -/
theorem size_lt_size {m n : Nat} {q r : Int} (hm : m < 2 ^ 53) (hn : 2 ^ 52 ≤ n) (h : q < r) :
    size m q < size n r := by
  have hpos : (0 : Rat) < 2 ^ q := zpow_pos (by norm_num) q
  have hstep : (2 : Rat) ^ q * 2 ≤ 2 ^ r := by
    rw [← zpow_add_one₀ (by norm_num)]
    exact zpow_le_zpow_right₀ (by norm_num) h
  have hm' : (m : Rat) < 2 ^ 53 := by exact_mod_cast hm
  have hn' : (2 : Rat) ^ 52 ≤ n := by exact_mod_cast hn
  calc size m q < 2 ^ 53 * 2 ^ q := mul_lt_mul_of_pos_right hm' hpos
    _ = 2 ^ 52 * (2 ^ q * 2) := by ring
    _ ≤ n * 2 ^ r := mul_le_mul hn' hstep (by positivity) (by positivity)

/-- With one exponent, sizes are ordered as their significands are. -/
theorem size_le_size_iff {m n : Nat} (q : Int) : size m q ≤ size n q ↔ m ≤ n := by
  have hpos : (0 : Rat) < 2 ^ q := zpow_pos (by norm_num) q
  rw [size, size, mul_le_mul_iff_of_pos_right hpos, Nat.cast_le]

/-- Exponents and then significands are compared like the sizes. -/
theorem isLE_compare_iff {m n : Nat} {q r : Int} (hm : m < 2 ^ 53) (hn : n < 2 ^ 53)
    (hq : lowestExponent ≤ q ∧ (q = lowestExponent ∨ 2 ^ 52 ≤ m))
    (hr : lowestExponent ≤ r ∧ (r = lowestExponent ∨ 2 ^ 52 ≤ n)) :
    ((compare q r).then (compare m n)).isLE = true ↔ size m q ≤ size n r := by
  -- with the larger exponent the significand is full, because that exponent is not the lowest
  rcases lt_trichotomy q r with h | rfl | h
  · have : size m q < size n r := size_lt_size hm (hr.2.resolve_left (by omega)) h
    simp [compare_lt_iff_lt.2 h, this.le]
  · simp [size_le_size_iff, Nat.isLE_compare]
  · have : size n r < size m q := size_lt_size hn (hq.2.resolve_left (by omega)) h
    simp [compare_gt_iff_gt.2 h, this]

/-- Canonical sizes compare by their exponents first and their significands second. -/
theorem isGE_compare_iff {m n : Nat} {q r : Int} (hm : m < 2 ^ 53) (hn : n < 2 ^ 53)
    (hq : lowestExponent ≤ q ∧ (q = lowestExponent ∨ 2 ^ 52 ≤ m))
    (hr : lowestExponent ≤ r ∧ (r = lowestExponent ∨ 2 ^ 52 ≤ n)) :
    ((compare q r).then (compare m n)).isGE = true ↔ size n r ≤ size m q := by
  rw [← isLE_compare_iff hn hm hr hq, ← Ordering.isLE_swap, Ordering.swap_then, Int.compare_swap,
    Nat.compare_swap]

/-! ## Comparing doubles -/

/-- The order of doubles is that of their unpacked forms. -/
theorem le_iff_unpack (x y : Float) : x ≤ y ↔ x.toModel.unpack.le y.toModel.unpack = true := by
  show decide (x.toModel ≤ y.toModel) = true ↔ _
  rw [decide_eq_true_iff]
  rfl

/-- A double that stands for a finite number is unpacked to a zero or to that number. -/
theorem unpack_of_ofFloat_eq_finite {x : Float} {s : Bool} {m : Nat} {q : Int}
    (h : ofFloat x = finite s m q) :
    ∃ u : Sign, isNegative u = s ∧
      ((x.toModel.unpack = .zero u ∧ m = 0) ∨ ∃ hm, x.toModel.unpack = .finite u m q hm) := by
  rw [ofFloat_eq_ofUnpacked] at h
  cases hu : x.toModel.unpack with
  | notANumber => simp [hu, ofUnpacked] at h
  | infinity u => simp [hu, ofUnpacked] at h
  | zero u =>
    rw [hu, ofUnpacked] at h
    obtain ⟨rfl, rfl, rfl⟩ := Binary64.finite.inj h
    exact ⟨u, rfl, .inl ⟨rfl, rfl⟩⟩
  | finite u m' q' hm =>
    rw [hu, ofUnpacked] at h
    obtain ⟨rfl, rfl, rfl⟩ := Binary64.finite.inj h
    exact ⟨u, rfl, .inr ⟨hm, rfl⟩⟩

/-- The order of finite doubles is the order of their values. -/
theorem le_iff {x y : Float} {s t : Bool} {m n : Nat} {q r : Int}
    (hx : ofFloat x = finite s m q) (hy : ofFloat y = finite t n r) :
    x ≤ y ↔ signed s m q ≤ signed t n r := by
  obtain ⟨hm, hq⟩ := bounds_of_finite hx
  obtain ⟨hn, hr⟩ := bounds_of_finite hy
  obtain ⟨u, rfl, hxu⟩ := unpack_of_ofFloat_eq_finite hx
  obtain ⟨v, rfl, hyv⟩ := unpack_of_ofFloat_eq_finite hy
  rw [le_iff_unpack, UnpackedFloat.le]
  obtain ⟨hxu, rfl⟩ | ⟨hm0, hxu⟩ := hxu <;> obtain ⟨hyv, rfl⟩ | ⟨hn0, hyv⟩ := hyv <;> rw [hxu, hyv]
  · simp [UnpackedFloat.compare, signed]
  · have hpos := size_pos hn0 r
    cases v <;> simp [UnpackedFloat.compare, signed, isNegative, hpos, hpos.le]
  · have hpos := size_pos hm0 q
    cases u <;> simp [UnpackedFloat.compare, signed, isNegative, hpos, hpos.le]
  · have hposm := size_pos hm0 q
    have hposn := size_pos hn0 r
    have hle := isLE_compare_iff hm hn hq hr
    have hge := isGE_compare_iff hm hn hq hr
    cases u <;> cases v <;>
      simp only [UnpackedFloat.compare, signed, isNegative, Option.any_some, Ordering.isLE_swap,
        hle, hge, if_true, Bool.false_eq_true, if_false, neg_le_neg_iff]
    -- with different signs, the sizes do not matter
    · simp only [Ordering.isLE_lt, true_iff]
      linarith
    · simp only [Ordering.isLE_gt, Bool.false_eq_true, false_iff, not_le]
      linarith

/-- An infinity is below a finite double exactly if it is the negative one. -/
theorem infinite_le_iff {x y : Float} {s t : Bool} {n : Nat} {r : Int}
    (hx : ofFloat x = infinite s) (hy : ofFloat y = finite t n r) : x ≤ y ↔ s = true := by
  rw [le_iff_unpack, UnpackedFloat.le]
  rw [ofFloat_eq_ofUnpacked] at hx hy
  cases hu : x.toModel.unpack with
  | notANumber | zero | finite => simp [hu, ofUnpacked] at hx
  | infinity u =>
    rw [hu, ofUnpacked] at hx
    obtain rfl := Binary64.infinite.inj hx
    cases hv : y.toModel.unpack with
    | notANumber | infinity => simp [hv, ofUnpacked] at hy
    | zero | finite => cases u <;> simp [UnpackedFloat.compare, isNegative]

/-- A double is NaN exactly if it stands for no number. -/
theorem isNaN_iff (x : Float) : x.isNaN = true ↔ ofFloat x = nan := by
  rw [ofFloat_eq_ofUnpacked]
  show x.toModel.unpack.isNaN = true ↔ _
  cases x.toModel.unpack <;> simp [UnpackedFloat.isNaN, ofUnpacked]

/-- A double is infinite exactly if it stands for an infinity. -/
theorem isInf_iff (x : Float) : x.isInf = true ↔ ∃ s, ofFloat x = infinite s := by
  rw [ofFloat_eq_ofUnpacked]
  change x.toModel.unpack.isInf = true ↔ _
  cases x.toModel.unpack <;> simp [UnpackedFloat.isInf, ofUnpacked]

/-- The finite doubles are those with a sign, a significand and an exponent. -/
theorem isFinite_iff (x : Float) : x.isFinite = true ↔ ∃ s m q, ofFloat x = finite s m q := by
  rw [ofFloat_eq_ofUnpacked]
  change x.toModel.unpack.isFinite = true ↔ _
  cases x.toModel.unpack <;> simp [UnpackedFloat.isFinite, ofUnpacked]

end DeskCalculator.Binary64
