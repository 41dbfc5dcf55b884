import DeskCalculator.Proofs.Nearest

/-!
# Quotients of doubles

A finite double divided by another is a finite double again, with the sign that the two signs give, unless
the quotient is too large: `exists_ofFloat_div`.

Division cuts the quotient of the significands and rounds what is left. Rounding shifts the significand
to the right, adds at most one to it and shifts once more if that carried. So the exponent at the end is
bounded by the number of bits before the rounding, and a bounded exponent is packed into a finite word.
-/

namespace DeskCalculator.Binary64

open Float.Model Float.Model.UnpackedFloat

/-! ## Packing -/

/-- A word whose exponent field is not full is the word of a finite double. -/
theorem exists_ofFloat_of_fields {x : Float} {s : Bool} {e v : Nat} (he : e < 2047) (hv : v < 2 ^ 52)
    (h : x.toBits.toNat = e * 2 ^ 52 + v + signBit s) : ∃ m q, ofFloat x = finite s m q := by
  have hlt : e * 2 ^ 52 + v < infinityWord := by
    rw [infinityWord, Nat.shiftLeft_eq]
    omega
  obtain ⟨m, q, hc, hword⟩ := exists_word_eq hlt
  exact ⟨m, q, ofFloat_of_toNat_toBits hc (by rw [hword, h])⟩

/-- Up to the highest exponent a number is packed into a finite word. -/
theorem exists_ofFloat_pack (s : Sign) {m : Nat} {q : Int} (hm : 0 < m) (hq : q ≤ 971) :
    ∃ n r, ofFloat (.ofModel (.pack (.finite s m q hm))) = finite (isNegative s) n r := by
  have hbiased : (q + (Format.binary64.exponentBias : Nat) +
      (Format.binary64.mantissaBitsWithoutImplicit : Nat)).toNat = (q + 1075).toNat := by
    change (q + 1023 + 52).toNat = _
    omega
  have hfinite : ¬ 2 ^ Format.binary64.exponentBits ≤ (q + 1075).toNat + 1 := by
    change ¬ 2 ^ 11 ≤ (q + 1075).toNat + 1
    omega
  have hpack : UnpackedFloat.pack Format.binary64 (.finite s m q hm) =
      if m.log2 + 1 = Format.binary64.mantissaBits then
        packComponents Format.binary64 s (BitVec.ofNat 11 (q + 1075).toNat) (BitVec.ofNat 52 m)
      else packComponents Format.binary64 s 0#11 (BitVec.ofNat 52 m) := by
    rw [UnpackedFloat.pack]
    simp only [hbiased]
    rw [if_neg hfinite]
  have hfraction : (BitVec.ofNat 52 m).toNat < 2 ^ 52 := (BitVec.ofNat 52 m).isLt
  by_cases hnormal : m.log2 + 1 = Format.binary64.mantissaBits
  · rw [if_pos hnormal] at hpack
    refine exists_ofFloat_of_fields (e := (BitVec.ofNat 11 (q + 1075).toNat).toNat) ?_ hfraction ?_
    · rw [BitVec.toNat_ofNat]
      omega
    · change (UnpackedFloat.pack Format.binary64 (.finite s m q hm)).toNat = _
      rw [hpack, toNat_packComponents]
  · rw [if_neg hnormal] at hpack
    refine exists_ofFloat_of_fields (e := 0) (by decide) hfraction ?_
    change (UnpackedFloat.pack Format.binary64 (.finite s m q hm)).toNat = _
    rw [hpack, toNat_packComponents]
    rfl

/-! ## Rounding -/

/-- A number below a power of two has its leading bit below it. -/
theorem log2_le_of_lt_two_pow {n k : Nat} (h : n < 2 ^ (k + 1)) : n.log2 ≤ k := by
  rcases Nat.eq_zero_or_pos n with rfl | hpos
  · exact Nat.zero_le k
  · exact Nat.lt_succ_iff.1 ((Nat.log2_lt hpos.ne').2 h)

/-- Shifting divides the significand and drops what is left. -/
theorem mantissa_shiftRight (em : ExtendedMantissa) (k : Nat) :
    (em >>> k).mantissa = em.mantissa / 2 ^ k := by
  induction k with
  | zero => exact (Nat.div_one _).symm
  | succ k ih =>
    change (em >>> k).mantissa / 2 = _
    rw [ih, Nat.div_div_eq_div_mul, pow_succ]

/-- Rounding a significand adds one at most. -/
theorem roundedMantissa_le (em : ExtendedMantissa) : em.roundedMantissa ≤ em.mantissa + 1 := by
  obtain ⟨m, roundBit, stickyBit⟩ := em
  cases roundBit <;> cases stickyBit <;>
    simp only [ExtendedMantissa.roundedMantissa, ExtendedMantissa.accuracy,
      Accuracy.roundToNearestEven] <;> omega

/-- A significand with an accuracy is the significand. -/
theorem mantissa_ofMantissaAndAccuracy (m : Nat) (a : Accuracy) :
    (ExtendedMantissa.ofMantissaAndAccuracy m a).mantissa = m := by
  cases a with
  | exact => rfl
  | inexact o => cases o <;> rfl

/-- The exponent after a shift, which is never below the target. -/
theorem snd_shiftToTargetExponent (m : Nat) (q : Int) (a : Accuracy) :
    (shiftToTargetExponent Format.binary64 m q a).2 =
      q + (max ((m.log2 : Int) + 1 + q - 53) (-1074) - q).toNat := by
  rfl

/-- A shift that is followed by rounding loses as many bits as it moves, except for a carry. -/
theorem log2_roundedMantissa_le (m : Nat) (q : Int) (a : Accuracy) :
    ((shiftToTargetExponent Format.binary64 m q a).1.roundedMantissa.log2 : Int) +
        (shiftToTargetExponent Format.binary64 m q a).2 ≤ max ((m.log2 : Int) + 1 + q) (-1074) := by
  have hround := roundedMantissa_le (shiftToTargetExponent Format.binary64 m q a).1
  rw [snd_shiftToTargetExponent]
  generalize hk : (max ((m.log2 : Int) + 1 + q - 53) (-1074) - q).toNat = k
  have hmantissa : (shiftToTargetExponent Format.binary64 m q a).1.mantissa = m / 2 ^ k := by
    rw [← hk]
    refine (mantissa_shiftRight _ _).trans ?_
    rw [mantissa_ofMantissaAndAccuracy]
    rfl
  rw [hmantissa] at hround
  generalize (shiftToTargetExponent Format.binary64 m q a).1.roundedMantissa = r at hround ⊢
  have hm : m < 2 ^ (m.log2 + 1) := Nat.lt_log2_self
  rcases le_or_gt k (m.log2 + 1) with hle | hgt
  · have hquotient : m / 2 ^ k < 2 ^ (m.log2 + 1 - k) := by
      rw [Nat.div_lt_iff_lt_mul (by positivity), ← pow_add]
      exact hm.trans_le (Nat.pow_le_pow_right (by decide) (by omega))
    have hlog : r.log2 ≤ m.log2 + 1 - k := by
      refine log2_le_of_lt_two_pow ?_
      rw [pow_succ]
      omega
    omega
  · -- nothing of the significand is left, so the sum is the target itself
    have hquotient : m / 2 ^ k = 0 :=
      Nat.div_eq_of_lt (hm.trans (Nat.pow_lt_pow_right (by decide) hgt))
    have hlog : r.log2 = 0 := by
      have : r = 0 ∨ r = 1 := by omega
      rcases this with rfl | rfl <;> decide
    omega

/-- What is rounded keeps its sign, and its exponent is bounded by its bits. -/
theorem roundWithAccuracy_eq (s : Sign) {m : Nat} {q : Int} (a : Accuracy) (hq : q ≤ 971)
    (hbits : (m.log2 : Int) + 1 + q ≤ 1023) :
    roundWithAccuracy Format.binary64 s m q a = .zero s ∨
      ∃ n r hn, roundWithAccuracy Format.binary64 s m q a = .finite s n r hn ∧ r ≤ 971 := by
  have hfirst := snd_shiftToTargetExponent m q a
  have hlog := log2_roundedMantissa_le m q a
  have hsecond := snd_shiftToTargetExponent
    (shiftToTargetExponent Format.binary64 m q a).1.roundedMantissa
    (shiftToTargetExponent Format.binary64 m q a).2 .exact
  simp only [roundWithAccuracy]
  split
  · exact .inl rfl
  · next hmantissa => exact .inr ⟨_, _, Nat.pos_of_ne_zero hmantissa, rfl, by omega⟩

/-! ## Division -/

/-- Dividing by something positive keeps the sign. -/
theorem isNegative_div_positive (s : Sign) : isNegative (s / .positive) = isNegative s := by
  cases s <;> rfl

/-- Dividing by a positive double with a full significand keeps the sign, and the quotient is finite if
the exponents are not too far apart. -/
theorem exists_ofFloat_div {x y : Float} {s : Bool} {m n : Nat} {q r : Int} (hx : ofFloat x = finite s m q)
    (hy : ofFloat y = finite false n r) (hn : 2 ^ 52 ≤ n) (hqr : q - r ≤ 1022) :
    ∃ k p, ofFloat (x / y) = finite s k p := by
  obtain ⟨hm53, hlow, -⟩ := bounds_of_finite hx
  obtain ⟨hn53, -⟩ := bounds_of_finite hy
  obtain ⟨u, rfl, hu⟩ := unpack_of_ofFloat_eq_finite hx
  obtain ⟨t, ht, ⟨-, rfl⟩ | ⟨hpos, hv⟩⟩ := unpack_of_ofFloat_eq_finite hy
  · exact absurd hn (by decide)
  obtain rfl : t = .positive := by cases t <;> simp_all [isNegative]
  change ∃ k p, ofFloat (.ofModel (.pack
    (UnpackedFloat.div Format.binary64 x.toModel.unpack y.toModel.unpack))) = _
  rw [← isNegative_div_positive u, hv]
  obtain ⟨hu, -⟩ | ⟨hm, hu⟩ := hu
  · rw [hu]
    exact ⟨0, lowestExponent, ofFloat_pack_zero _⟩
  rw [hu]
  have hlogn : n.log2 = 52 := (Nat.log2_eq_iff (by omega)).2 ⟨hn, hn53⟩
  have hlogm : m.log2 < 53 := (Nat.log2_lt hm.ne').2 hm53
  -- the exponent of the quotient before it is rounded, and how far the dividend is shifted for it
  let e : Int := min (q - r) (max ((m.log2 : Int) + 1 + q - (n.log2 + 1 + r) - 53) (-1074))
  let k : Nat := (q - r - e).toNat
  have hcore : UnpackedFloat.div Format.binary64 (.finite u m q hm) (.finite .positive n r hpos) =
      roundWithAccuracy Format.binary64 (u / .positive) ((m <<< k) / n) e
        (accuracyOfFraction ((m <<< k) % n) n) := rfl
  have hquotient : ((m <<< k) / n).log2 ≤ k := by
    refine log2_le_of_lt_two_pow ?_
    rw [Nat.div_lt_iff_lt_mul hpos, Nat.shiftLeft_eq, pow_succ]
    nlinarith [Nat.two_pow_pos k]
  rw [hcore]
  have hround := roundWithAccuracy_eq (u / .positive) (accuracyOfFraction ((m <<< k) % n) n)
    (m := (m <<< k) / n) (q := e) (by omega) (by omega)
  obtain hzero | ⟨i, p, hi, hfinite, hp⟩ := hround
  · rw [hzero]
    exact ⟨0, lowestExponent, ofFloat_pack_zero _⟩
  · rw [hfinite]
    exact exists_ofFloat_pack _ hi hp

end DeskCalculator.Binary64
