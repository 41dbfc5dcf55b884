import DeskCalculator.Proofs.DoubleOrder

/-!
# The words of doubles

A finite double is given by its sign, its significand and its exponent, and every word gives some of these
(`ofFloat_ofWord`). Two doubles that stand for the same signed number are one double
(`eq_of_ofFloat_eq_finite`), so an operation that changes the sign alone is known by the sign it leaves.
-/

namespace DeskCalculator.Binary64

open Float.Model Float.Model.UnpackedFloat

/-- The significands and exponents of doubles: the significand fills its 53 bits unless the exponent is
the lowest one. -/
structure Canonical (m : Nat) (q : Int) : Prop where
  lt : m < 2 ^ 53
  lowest_le : lowestExponent ≤ q
  le_highest : q ≤ 971
  full : q = lowestExponent ∨ 2 ^ 52 ≤ m

/-- The word of `m · 2 ^ q` without its sign. -/
def word (m : Nat) (q : Int) : Nat :=
  (q - lowestExponent).toNat * 2 ^ 52 + m

/-- What the sign adds to a word. -/
def signBit (negative : Bool) : Nat :=
  if negative then 2 ^ 63 else 0

/-- The significand and exponent of a finite double are canonical. -/
theorem canonical_of_finite {x : Float} {s : Bool} {m : Nat} {q : Int}
    (h : ofFloat x = finite s m q) : Canonical m q := by
  obtain ⟨hlt, hlow, hfull⟩ := bounds_of_finite h
  refine ⟨hlt, hlow, ?_, hfull⟩
  simp only [ofFloat, Nat.shiftRight_eq_div_pow, Nat.shiftLeft_eq, one_mul] at h
  split at h
  · split at h <;> simp at h
  · split at h
    · obtain ⟨-, -, rfl⟩ := Binary64.finite.inj h
      decide
    · obtain ⟨-, -, rfl⟩ := Binary64.finite.inj h
      omega

/-- Zero has the lowest exponent. -/
theorem Canonical.exponent_eq_of_zero {q : Int} (h : Canonical 0 q) : q = lowestExponent :=
  h.full.resolve_right (by decide)

/-- The word of a finite double is below that of infinity. -/
theorem Canonical.word_lt {m : Nat} {q : Int} (h : Canonical m q) : word m q < infinityWord := by
  obtain ⟨hlt, hlow, hhigh, hfull⟩ := h
  simp only [word, infinityWord, lowestExponent, Nat.shiftLeft_eq] at *
  omega

/-- Every word below infinity is the word of a size. -/
theorem exists_word_eq {w : Nat} (h : w < infinityWord) : ∃ m q, Canonical m q ∧ word m q = w := by
  rw [infinityWord, Nat.shiftLeft_eq] at h
  rcases Nat.lt_or_ge w (2 ^ 52) with hlow | hhigh
  · exact ⟨w, lowestExponent, ⟨by omega, le_rfl, by decide, .inl rfl⟩, by simp [word]⟩
  · refine ⟨2 ^ 52 + w % 2 ^ 52, (w / 2 ^ 52 : Nat) - 1075,
      ⟨by omega, by rw [lowestExponent]; omega, by omega, .inr (by omega)⟩, ?_⟩
    rw [word, lowestExponent]
    omega

/-- Only the significand zero has no size. -/
theorem size_eq_zero_iff {m : Nat} {q : Int} : size m q = 0 ↔ m = 0 := by
  refine ⟨fun h => ?_, fun h => by rw [h, size_zero]⟩
  by_contra hm
  exact (size_pos (Nat.pos_of_ne_zero hm) q).ne' h

/-! ## From the word to the number and back -/

/-- The word of a finite double is made of what it stands for. -/
theorem toNat_toBits_of_finite {x : Float} {s : Bool} {m : Nat} {q : Int}
    (h : ofFloat x = finite s m q) : x.toBits.toNat = word m q + signBit s := by
  have hlt : x.toBits.toNat < 2 ^ 64 := x.toBits.toNat_lt
  simp only [ofFloat, Nat.shiftRight_eq_div_pow, Nat.shiftLeft_eq, one_mul] at h
  split at h
  · split at h <;> simp at h
  · split at h
    all_goals
      obtain ⟨rfl, rfl, rfl⟩ := Binary64.finite.inj h
      simp only [word, signBit, lowestExponent, decide_eq_true_eq]
      split <;> omega

/-- A double with the word of a size and a sign has this size and sign. -/
theorem ofFloat_of_toNat_toBits {x : Float} {s : Bool} {m : Nat} {q : Int} (hc : Canonical m q)
    (h : x.toBits.toNat = word m q + signBit s) : ofFloat x = finite s m q := by
  obtain ⟨hlt, hlow, hhigh, hfull⟩ := hc
  simp only [word, lowestExponent] at h hlow hfull
  have hsign : decide (2 ^ 63 ≤ x.toBits.toNat) = s := by
    cases s <;> simp only [signBit, Bool.false_eq_true, if_true, if_false] at h
    · exact decide_eq_false (by omega)
    · exact decide_eq_true (by omega)
  have hbit : signBit s = 0 ∨ signBit s = 2 ^ 63 := by cases s <;> simp [signBit]
  simp only [ofFloat, Nat.shiftRight_eq_div_pow, Nat.shiftLeft_eq, one_mul, hsign]
  rw [if_neg (by omega)]
  split
  · rw [Binary64.finite.injEq, lowestExponent]
    exact ⟨rfl, by omega, by omega⟩
  · rw [Binary64.finite.injEq]
    exact ⟨rfl, by omega, by omega⟩

/-- Doubles of one word are one. -/
theorem eq_of_toBits_eq {x y : Float} (h : x.toBits = y.toBits) : x = y := by
  obtain ⟨⟨b, hb⟩⟩ := x
  obtain ⟨⟨c, hc⟩⟩ := y
  obtain rfl : b = c := h
  rfl

/-- Doubles that stand for the same signed number are equal. -/
theorem eq_of_ofFloat_eq_finite {x y : Float} {s : Bool} {m : Nat} {q : Int}
    (hx : ofFloat x = finite s m q) (hy : ofFloat y = finite s m q) : x = y :=
  eq_of_toBits_eq <| UInt64.toNat_inj.1 <|
    (toNat_toBits_of_finite hx).trans (toNat_toBits_of_finite hy).symm

/-! ## Packing -/

/-- The word of a packed double puts its three parts side by side. -/
theorem toNat_packComponents (s : Sign) (e : BitVec 11) (v : BitVec 52) :
    (packComponents Format.binary64 s e v).toNat =
      e.toNat * 2 ^ 52 + v.toNat + signBit (isNegative s) := by
  have hsign : s.toBitVec.toNat * 2 ^ 63 = signBit (isNegative s) := by cases s <;> rfl
  change (s.toBitVec ++ e ++ v).toNat = _
  rw [BitVec.toNat_append, ← Nat.shiftLeft_add_eq_or_of_lt v.isLt, BitVec.toNat_append,
    ← Nat.shiftLeft_add_eq_or_of_lt e.isLt, Nat.shiftLeft_eq, Nat.shiftLeft_eq, ← hsign]
  ring

/-- The word of a packed zero holds nothing but its sign. -/
theorem toNat_pack_zero (s : Sign) :
    (UnpackedFloat.pack Format.binary64 (.zero s)).toNat =
      word 0 lowestExponent + signBit (isNegative s) := by
  rw [UnpackedFloat.pack, packedZero, toNat_packComponents]
  rfl

/-- A canonical number is packed into its word. -/
theorem toNat_pack_finite (s : Sign) {m : Nat} {q : Int} (hc : Canonical m q) (hm : 0 < m) :
    (UnpackedFloat.pack Format.binary64 (.finite s m q hm)).toNat =
      word m q + signBit (isNegative s) := by
  obtain ⟨hlt, hlow, hhigh, hfull⟩ := hc
  rw [lowestExponent] at hlow hfull
  have hbiased : (q + (Format.binary64.exponentBias : Nat) +
      (Format.binary64.mantissaBitsWithoutImplicit : Nat)).toNat = (q + 1075).toNat := by
    change (q + 1023 + 52).toNat = _
    omega
  have hfinite : ¬ 2 ^ Format.binary64.exponentBits ≤ (q + 1075).toNat + 1 := by
    change ¬ 2 ^ 11 ≤ (q + 1075).toNat + 1
    omega
  rw [UnpackedFloat.pack]
  simp only [hbiased]
  rw [if_neg hfinite]
  -- the significand fills its bits exactly if its leading bit is the implicit one
  by_cases hnormal : m.log2 + 1 = Format.binary64.mantissaBits
  · have hm52 : 2 ^ 52 ≤ m :=
      (Nat.log2_eq_iff hm.ne').1 (show m.log2 = 52 from Nat.succ.inj hnormal) |>.1
    rw [if_pos hnormal, toNat_packComponents]
    change (q + 1075).toNat % 2 ^ 11 * 2 ^ 52 + m % 2 ^ 52 + _ = _
    simp only [word, lowestExponent]
    omega
  · have hm52 : m < 2 ^ 52 := by
      by_contra hge
      exact hnormal (congrArg (· + 1) ((Nat.log2_eq_iff hm.ne').2 ⟨by omega, hlt⟩))
    rw [if_neg hnormal, toNat_packComponents]
    change 0 * 2 ^ 52 + m % 2 ^ 52 + _ = _
    simp only [word, lowestExponent]
    omega

/-- A double that an operation packs from a canonical number stands for that number. -/
theorem ofFloat_pack_finite (s : Sign) {m : Nat} {q : Int} (hc : Canonical m q) (hm : 0 < m) :
    ofFloat (.ofModel (.pack (.finite s m q hm))) = finite (isNegative s) m q :=
  ofFloat_of_toNat_toBits hc (toNat_pack_finite s hc hm)

/-- Zero has the lowest exponent. -/
theorem canonical_zero : Canonical 0 lowestExponent :=
  ⟨by decide, le_rfl, by decide, .inl rfl⟩

/-- Packing a zero keeps its sign. -/
theorem ofFloat_pack_zero (s : Sign) :
    ofFloat (.ofModel (.pack (.zero s))) = finite (isNegative s) 0 lowestExponent :=
  ofFloat_of_toNat_toBits canonical_zero (toNat_pack_zero s)

/-- Reading a word with its sign as a double gives the number of the word. -/
theorem ofFloat_ofWord (s : Bool) {m : Nat} {q : Int} (hc : Canonical m q) :
    ofFloat (ofWord s (word m q)) = finite s m q := by
  have hword : (UInt64.ofNat (word m q + if s then 1 <<< 63 else 0)).toNat =
      word m q + signBit s := by
    have hlt := hc.word_lt
    rw [infinityWord, Nat.shiftLeft_eq] at hlt
    cases s <;> simp [signBit] <;> omega
  rw [ofWord]
  generalize UInt64.ofNat (word m q + if s then 1 <<< 63 else 0) = w at hword ⊢
  -- the pattern is valid, so it is also the pattern of some double
  have hexp : (@unpackExponent Format.binary64 w.toBitVec).toNat ≠ 2047 := by
    rw [toNat_unpackExponent]
    change w.toNat / 2 ^ 52 % 2 ^ 11 ≠ 2047
    obtain ⟨hlt, hlow, hhigh, hfull⟩ := hc
    have hbit : signBit s = 0 ∨ signBit s = 2 ^ 63 := by cases s <;> simp [signBit]
    simp only [word, lowestExponent] at hword hlow hfull
    omega
  have hvalid : Format.binary64.Valid w.toBitVec :=
    ⟨fun h => absurd (congrArg BitVec.toNat h) hexp⟩
  have hx : ofFloat (.ofModel ⟨w, hvalid⟩) = finite s m q := ofFloat_of_toNat_toBits hc hword
  obtain ⟨u, rfl, ⟨hu, rfl⟩ | ⟨hm, hu⟩⟩ := unpack_of_ofFloat_eq_finite hx
  · obtain rfl := hc.exponent_eq_of_zero
    change UnpackedFloat.unpack Format.binary64 w.toBitVec = _ at hu
    change ofFloat (.ofModel (.pack (UnpackedFloat.unpack Format.binary64 w.toBitVec))) = _
    rw [hu, ofFloat_pack_zero]
  · change UnpackedFloat.unpack Format.binary64 w.toBitVec = _ at hu
    change ofFloat (.ofModel (.pack (UnpackedFloat.unpack Format.binary64 w.toBitVec))) = _
    rw [hu, ofFloat_pack_finite u hc hm]

/-! ## Changing the sign -/

@[simp] theorem isNegative_neg (s : Sign) : isNegative (-s) = !isNegative s := by
  cases s <;> rfl

/-- The absolute value of a finite double drops its sign. -/
theorem ofFloat_abs {x : Float} {s : Bool} {m : Nat} {q : Int} (h : ofFloat x = finite s m q) :
    ofFloat x.abs = finite false m q := by
  have hc := canonical_of_finite h
  obtain ⟨u, rfl, ⟨hu, rfl⟩ | ⟨hm, hu⟩⟩ := unpack_of_ofFloat_eq_finite h
  · obtain rfl := hc.exponent_eq_of_zero
    change ofFloat (.ofModel (.pack x.toModel.unpack.abs)) = _
    rw [hu]
    exact ofFloat_pack_zero .positive
  · change ofFloat (.ofModel (.pack x.toModel.unpack.abs)) = _
    rw [hu]
    exact ofFloat_pack_finite .positive hc hm

/-- Taking a double other than zero from zero changes its sign. -/
theorem ofFloat_zero_sub {x : Float} {s : Bool} {m : Nat} {q : Int} (h : ofFloat x = finite s m q)
    (hm : m ≠ 0) : ofFloat (0 - x) = finite (!s) m q := by
  have hc := canonical_of_finite h
  have hzero : (0 : Float).toModel.unpack = .zero .positive := by rfl
  obtain ⟨u, rfl, ⟨-, h0⟩ | ⟨hpos, hu⟩⟩ := unpack_of_ofFloat_eq_finite h
  · exact absurd h0 hm
  · change ofFloat (.ofModel (.pack
      (UnpackedFloat.sub Format.binary64 (0 : Float).toModel.unpack x.toModel.unpack))) = _
    rw [hzero, hu, ← isNegative_neg]
    exact ofFloat_pack_finite (-u) hc hpos

/-! ## The strict order -/

/-- The strict order of doubles is that of their unpacked forms. -/
theorem lt_iff_unpack (x y : Float) : x < y ↔ x.toModel.unpack.lt y.toModel.unpack = true := by
  change decide (x.toModel < y.toModel) = true ↔ _
  rw [decide_eq_true_iff]
  rfl

/-- Comparing in the other direction swaps the outcome. -/
theorem compare_swap (u v : UnpackedFloat) :
    u.compare v = (v.compare u).map Ordering.swap := by
  cases u with
  | notANumber => cases v <;> rfl
  | infinity s =>
    cases v with
    | infinity t => cases s <;> cases t <;> rfl
    | notANumber | zero => cases s <;> rfl
    | finite t => cases s <;> cases t <;> rfl
  | zero s =>
    cases v with
    | infinity t | finite t => cases t <;> rfl
    | notANumber | zero => rfl
  | finite s m q =>
    cases v with
    | notANumber | zero => cases s <;> rfl
    | infinity t => cases s <;> cases t <;> rfl
    | finite t n r =>
      cases s <;> cases t <;>
        simp [UnpackedFloat.compare, Ordering.swap_then, Int.compare_swap, Nat.compare_swap]

/-- Only NaN compares with nothing. -/
theorem exists_compare_eq {u v : UnpackedFloat} (hu : u.isNaN = false) (hv : v.isNaN = false) :
    ∃ o, u.compare v = some o := by
  fun_cases UnpackedFloat.compare u v
  · simp [UnpackedFloat.isNaN] at hu
  · simp [UnpackedFloat.isNaN] at hv
  all_goals exact ⟨_, rfl⟩

/-- A finite double is not NaN. -/
theorem isNaN_unpack_of_finite {x : Float} {s : Bool} {m : Nat} {q : Int}
    (h : ofFloat x = finite s m q) : x.toModel.unpack.isNaN = false := by
  obtain ⟨u, -, ⟨hu, -⟩ | ⟨hm, hu⟩⟩ := unpack_of_ofFloat_eq_finite h <;> rw [hu] <;> rfl

/-- The strict order of finite doubles is the strict order of their values. -/
theorem lt_iff {x y : Float} {s t : Bool} {m n : Nat} {q r : Int}
    (hx : ofFloat x = finite s m q) (hy : ofFloat y = finite t n r) :
    x < y ↔ signed s m q < signed t n r := by
  have hle := le_iff hy hx
  rw [le_iff_unpack, UnpackedFloat.le] at hle
  rw [lt_iff_unpack, UnpackedFloat.lt, compare_swap, ← not_le, ← hle]
  obtain ⟨o, ho⟩ := exists_compare_eq (isNaN_unpack_of_finite hy) (isNaN_unpack_of_finite hx)
  rw [ho]
  cases o <;> decide

/-- The strict order implies the other one. -/
theorem le_of_lt {x y : Float} (h : x < y) : x ≤ y := by
  rw [lt_iff_unpack, UnpackedFloat.lt, beq_iff_eq] at h
  rw [le_iff_unpack, UnpackedFloat.le, h]
  rfl

/-- The negative doubles among the finite ones. -/
theorem lt_zero_iff {x : Float} {s : Bool} {m : Nat} {q : Int} (hx : ofFloat x = finite s m q) :
    x < 0 ↔ s = true ∧ m ≠ 0 := by
  have hzero : ofFloat 0 = finite false 0 lowestExponent := by decide +kernel
  rw [lt_iff hx hzero, signed, signed, size_zero, if_neg Bool.false_ne_true]
  have hnonneg := size_nonneg m q
  cases s with
  | false => simpa using hnonneg
  | true => simp [hnonneg.lt_iff_ne', size_eq_zero_iff]

/-- A finite double without a sign is positive or zero. -/
theorem pos_or_eq_zero {x : Float} {m : Nat} {q : Int} (hx : ofFloat x = finite false m q) :
    0 < x ∨ x = 0 := by
  have hzero : ofFloat 0 = finite false 0 lowestExponent := by decide +kernel
  rcases Nat.eq_zero_or_pos m with rfl | hm
  · obtain rfl := (canonical_of_finite hx).exponent_eq_of_zero
    exact .inr (eq_of_ofFloat_eq_finite hx hzero)
  · refine .inl ((lt_iff hzero hx).2 ?_)
    simpa [signed] using size_pos hm q

/-- A zero with a sign is the negative zero. -/
theorem eq_neg_zero {x : Float} {q : Int} (hx : ofFloat x = finite true 0 q) : x = -0.0 := by
  have hzero : ofFloat (-0.0) = finite true 0 lowestExponent := by decide +kernel
  obtain rfl := (canonical_of_finite hx).exponent_eq_of_zero
  exact eq_of_ofFloat_eq_finite hx hzero

/-- What is above a positive double is not at most zero. -/
theorem not_le_zero_of_lt_of_lt {x y z : Float} {s : Bool} {q : Int} (hx : 0 < x) (hxy : x < y)
    (hz : ofFloat z = finite s 0 q) : ¬ y ≤ z := by
  have hzero : (0 : Float).toModel.unpack = .zero .positive := by rfl
  obtain ⟨u, -, ⟨hu, -⟩ | ⟨hm, -⟩⟩ := unpack_of_ofFloat_eq_finite hz
  · rw [lt_iff_unpack] at hx hxy
    rw [le_iff_unpack, hu]
    rw [hzero] at hx
    generalize x.toModel.unpack = a at hx hxy
    generalize y.toModel.unpack = b at hxy ⊢
    -- what is compared are the signs: of the first to be positive, and of the second because of it
    cases a with
    | notANumber | zero => cases hx
    | infinity s =>
      cases s with
      | negative => cases hx
      | positive =>
        cases b with
        | infinity t => cases t <;> cases hxy
        | notANumber | zero | finite => cases hxy
    | finite s m q hm =>
      cases s with
      | negative => cases hx
      | positive =>
        cases b with
        | notANumber | zero => cases hxy
        | infinity t | finite t =>
          cases t with
          | negative => cases hxy
          | positive => exact Bool.false_ne_true
  · exact absurd hm (lt_irrefl 0)

/-! ## Beyond the finite doubles -/

/-- The absolute value of NaN is NaN. -/
theorem ofFloat_abs_of_nan {x : Float} (h : ofFloat x = nan) : ofFloat x.abs = nan := by
  rw [ofFloat_eq_ofUnpacked] at h
  cases hu : x.toModel.unpack with
  | notANumber =>
    change ofFloat (.ofModel (.pack x.toModel.unpack.abs)) = _
    rw [hu]
    decide
  | infinity | zero | finite => simp [hu, ofUnpacked] at h

/-- The absolute value of an infinity is the positive one. -/
theorem ofFloat_abs_of_infinite {x : Float} {s : Bool} (h : ofFloat x = infinite s) :
    ofFloat x.abs = infinite false := by
  rw [ofFloat_eq_ofUnpacked] at h
  cases hu : x.toModel.unpack with
  | infinity u =>
    change ofFloat (.ofModel (.pack x.toModel.unpack.abs)) = _
    rw [hu, UnpackedFloat.abs]
    decide
  | notANumber | zero | finite => simp [hu, ofUnpacked] at h

/-- Nothing is at most NaN. -/
theorem not_le_of_nan {x y : Float} (h : ofFloat y = nan) : ¬ x ≤ y := by
  rw [ofFloat_eq_ofUnpacked] at h
  rw [le_iff_unpack, UnpackedFloat.le]
  cases hu : y.toModel.unpack with
  | notANumber => cases x.toModel.unpack <;> simp [UnpackedFloat.compare]
  | infinity | zero | finite => simp [hu, ofUnpacked] at h

/-- What is called infinity is infinite. -/
theorem ofFloat_infinity (s : Bool) : ofFloat (infinity s) = infinite s := by
  cases s <;> decide +kernel

/-- NaN is at most nothing. -/
theorem nan_not_le {x y : Float} (h : ofFloat x = nan) : ¬ x ≤ y := by
  rw [ofFloat_eq_ofUnpacked] at h
  rw [le_iff_unpack, UnpackedFloat.le]
  cases hu : x.toModel.unpack with
  | notANumber => simp [UnpackedFloat.compare]
  | infinity | zero | finite => simp [hu, ofUnpacked] at h

/-- What is below an infinity: everything below the positive one, and only itself below the negative one. -/
theorem le_infinite_iff {x y : Float} {s : Bool} (hx : ofFloat x ≠ nan) (hy : ofFloat y = infinite s) :
    x ≤ y ↔ (s = true → ofFloat x = infinite true) := by
  rw [ofFloat_eq_ofUnpacked] at hx hy ⊢
  rw [le_iff_unpack, UnpackedFloat.le]
  cases hv : y.toModel.unpack with
  | notANumber | zero | finite => simp [hv, ofUnpacked] at hy
  | infinity v =>
    rw [hv, ofUnpacked] at hy
    obtain rfl := Binary64.infinite.inj hy
    cases hu : x.toModel.unpack with
    | notANumber => exact absurd (by rw [hu, ofUnpacked]) hx
    | infinity u => cases u <;> cases v <;> simp [ofUnpacked, isNegative] <;> decide
    | zero | finite => cases v <;> simp [UnpackedFloat.compare, ofUnpacked, isNegative]

/-- Everything but NaN is at most itself. -/
theorem le_refl_of_ne_nan {x : Float} (h : ofFloat x ≠ nan) : x ≤ x := by
  cases hx : ofFloat x with
  | nan => exact absurd hx h
  | infinite s => exact (le_infinite_iff h hx).2 fun hs => hs ▸ hx
  | finite s m q => exact (le_iff hx hx).2 le_rfl

/-- The order is transitive for all doubles, those without a number included. -/
protected theorem le_trans {x y z : Float} (hxy : x ≤ y) (hyz : y ≤ z) : x ≤ z := by
  have hx : ofFloat x ≠ nan := fun h => nan_not_le h hxy
  have hy : ofFloat y ≠ nan := fun h => not_le_of_nan h hxy
  cases hz : ofFloat z with
  | nan => exact absurd hyz (not_le_of_nan hz)
  | infinite u =>
    refine (le_infinite_iff hx hz).2 fun hu => ?_
    exact (le_infinite_iff hx ((le_infinite_iff hy hz).1 hyz hu)).1 hxy rfl
  | finite u k p =>
    cases hy' : ofFloat y with
    | nan => exact absurd hy' hy
    | infinite t =>
      obtain rfl := (infinite_le_iff hy' hz).1 hyz
      exact (infinite_le_iff ((le_infinite_iff hx hy').1 hxy rfl) hz).2 rfl
    | finite t n r =>
      cases hx' : ofFloat x with
      | nan => exact absurd hx' hx
      | infinite s => exact (infinite_le_iff hx' hz).2 ((infinite_le_iff hx' hy').1 hxy)
      | finite s m q => exact (le_iff hx' hz).2 (((le_iff hx' hy').1 hxy).trans ((le_iff hy' hz).1 hyz))

/-- Above a double is what is a number and not at most it. -/
theorem lt_iff_not_le {x y : Float} (hx : x.isNaN = false) : x < y ↔ y.isNaN = false ∧ ¬ y ≤ x := by
  change x.toModel.unpack.isNaN = false at hx
  change _ ↔ y.toModel.unpack.isNaN = false ∧ _
  rw [lt_iff_unpack, le_iff_unpack, UnpackedFloat.lt, UnpackedFloat.le,
    compare_swap y.toModel.unpack]
  cases hy : y.toModel.unpack.isNaN with
  | false =>
    obtain ⟨o, ho⟩ := exists_compare_eq hx hy
    rw [ho]
    cases o <;> decide
  | true =>
    cases hu : y.toModel.unpack with
    | notANumber => cases x.toModel.unpack <;> simp [UnpackedFloat.compare]
    | infinity | zero | finite => simp [hu, UnpackedFloat.isNaN] at hy

/-- The zeros of both signs, and nothing else, equal zero. -/
theorem beq_zero_iff (x : Float) : (x == 0) = true ↔ ∃ s q, ofFloat x = finite s 0 q := by
  have hzero : (0 : Float).toModel.unpack = .zero .positive := by rfl
  change x.toModel.unpack.beq (0 : Float).toModel.unpack = true ↔ _
  rw [hzero, ofFloat_eq_ofUnpacked, UnpackedFloat.beq]
  cases x.toModel.unpack with
  | notANumber => simp [UnpackedFloat.compare, ofUnpacked]
  | infinity u => cases u <;> simp [UnpackedFloat.compare, ofUnpacked]
  | zero u => simp [UnpackedFloat.compare, ofUnpacked]
  | finite u m q hm => cases u <;> simp [UnpackedFloat.compare, ofUnpacked, hm.ne']

end DeskCalculator.Binary64
